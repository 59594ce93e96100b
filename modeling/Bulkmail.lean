import Bulkmail.Library.Runs
import Bulkmail.Library.Checked
import Bulkmail.Library.Collections
import Bulkmail.Library.Cells
import Bulkmail.Library.Blocks
import Bulkmail.Library.Leases
import Bulkmail.Library.Binary64
import Bulkmail.Library.Rounding
import Bulkmail.Library.Channel
import Bulkmail.Library.Recent
import Bulkmail.Mempool.Tracker
import Bulkmail.Mempool.Accounts
import Bulkmail.Mempool.Transitions
import Bulkmail.Mempool.Rebuild
import Bulkmail.Mempool.Invariant
import Bulkmail.Mempool.Marketable
import Bulkmail.Mempool.View
import Bulkmail.Mempool.Capacity
import Bulkmail.Mempool.Eligibility
import Bulkmail.Mempool.Incremental
import Bulkmail.Mempool.Resurrection
import Bulkmail.Mempool.Handle
import Bulkmail.Mempool.GasAhead
import Bulkmail.Mempool.Arrival
import Bulkmail.Mempool.Panics
import Bulkmail.Mempool.BlockEffect
import Bulkmail.Mempool.InsertEffect
import Bulkmail.Mempool.Estimates
import Bulkmail.Mempool.Locking
import Bulkmail.Mempool.Answers
import Bulkmail.Mempool.Transport
import Bulkmail.Mempool.Residue
import Bulkmail.Mempool.PrivateFlow
import Bulkmail.Sender.Message
import Bulkmail.Sender.Priority
import Bulkmail.Sender.Adapter
import Bulkmail.Sender.Task
import Bulkmail.Sender.Delivery
import Bulkmail.Sender.Submissions
import Bulkmail.Sender.RunLoop
import Bulkmail.Sender.Custody
import Bulkmail.Sender.Wakeups
import Bulkmail.Sender.Settling
import Bulkmail.Sender.Overtaking
import Bulkmail.Ethereum.NonceManager
import Bulkmail.Ethereum.NonceCalls
import Bulkmail.Ethereum.Adapter
import Bulkmail.Ethereum.System
import Bulkmail.Ethereum.Exclusivity
import Bulkmail.Ethereum.Consumed
import Bulkmail.Ethereum.Discipline
import Bulkmail.Ethereum.GasPrice
import Bulkmail.Ethereum.FeeSystem
import Bulkmail.Ethereum.FeeBounds
import Bulkmail.Ethereum.FeeHistory
import Bulkmail.Ethereum.Replacement
import Bulkmail.Ethereum.Confirmation
import Bulkmail.Ethereum.EthSender
import Bulkmail.Ethereum.NonceWindow
import Bulkmail.Ethereum.OnChain
import Bulkmail.Ethereum.BlockStream
import Bulkmail.Solana.ReplayProtection
