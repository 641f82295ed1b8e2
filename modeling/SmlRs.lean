import SmlRs.Scheduler.Linear
import SmlRs.Scheduler.Sequential
import SmlRs.Scheduler.Room
import SmlRs.Scheduler.Unwinding
import SmlRs.Macros.Subtrees
import SmlRs.Macros.Order
import SmlRs.Macros.Faults
import SmlRs.Macros.Innermost
import SmlRs.Macros.Pending
import SmlRs.Macros.Exits
import SmlRs.Macros.Occupancies
import SmlRs.Macros.Retention
import SmlRs.Macros.Broadcasts
import SmlRs.Macros.Scheduled
import SmlRs.Macros.Stability
import SmlRs.Macros.CurrentEvents
import SmlRs.Macros.Expansion
import SmlRs.Macros.Rejections
import SmlRs.Macros.Settling
import SmlRs.Macros.Termination
import SmlRs.Macros.GuardParser
import SmlRs.Macros.Sequences
import SmlRs.Macros.Parsed
import SmlRs.Macros.Partition
import SmlRs.Macros.Construction
import SmlRs.Macros.Initial
import SmlRs.Macros.Recovering
import SmlRs.Macros.Lifecycle
import SmlRs.Macros.Candidates
import SmlRs.Macros.Names
import SmlRs.Macros.Signatures
import SmlRs.Macros.SettleSites
import SmlRs.Macros.Splitting
import SmlRs.Macros.Parameters
import SmlRs.Macros.Rows
import SmlRs.Utility.EventQueues
import SmlRs.Utility.Refinement
import SmlRs.Utility.Pool
