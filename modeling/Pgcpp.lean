import Pgcpp.Access.BrinRuns
import Pgcpp.Access.GistScan
import Pgcpp.Access.PostingChains
import Pgcpp.Access.SpgistScan
import Pgcpp.Access.ToastLossless
import Pgcpp.Commands.RelFrozenXid
import Pgcpp.Commands.VacuumIdentity
import Pgcpp.Executor.LimitOffset
import Pgcpp.Executor.SeqScan
import Pgcpp.Executor.SetOp
import Pgcpp.Executor.UpdateOnce
import Pgcpp.Executor.WindowAgg
import Pgcpp.Partitioning.PartPrune
import Pgcpp.Protocol.MessageLoop
import Pgcpp.Replication.SyncRep
import Pgcpp.Storage.BufErrors
import Pgcpp.Storage.ClockSweep
import Pgcpp.Storage.FsmPage
import Pgcpp.Storage.LwlockExclusion
import Pgcpp.Storage.MdRefinement
import Pgcpp.Storage.PageItems
import Pgcpp.Storage.PageStore
import Pgcpp.Storage.ShmMq
import Pgcpp.Transaction.ClogRestart
import Pgcpp.Transaction.Crc32C
import Pgcpp.Transaction.Deadlock
import Pgcpp.Transaction.LogAgreement
import Pgcpp.Transaction.MultiXactRuns
import Pgcpp.Transaction.RowHistory
import Pgcpp.Transaction.SavepointRuns
import Pgcpp.Transaction.SessionLocks
import Pgcpp.Transaction.SnapshotStability
import Pgcpp.Transaction.SsiSafety
import Pgcpp.Transaction.TwoPhase
import Pgcpp.Transaction.XlogRecovery
import Pgcpp.Types.Like
import Pgcpp.Utils.PlanCache
