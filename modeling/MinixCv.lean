import MinixCv.Lib.PartialMap
import MinixCv.Lib.SlotTable
import MinixCv.Lib.ArrayPrefix
import MinixCv.Lib.Exclusive
import MinixCv.Lib.Before
import MinixCv.Lib.Run
import MinixCv.Server.Queue
import MinixCv.Server.State
import MinixCv.Server.Handlers
import MinixCv.LockManager.Basic
import MinixCv.LockManager.Laws
import MinixCv.LockManager.WellFormed
import MinixCv.LockManager.Moves
import MinixCv.Server.Abstraction
import MinixCv.Server.Broadcast
import MinixCv.Server.Sweeps
import MinixCv.Server.Refinement
import MinixCv.Server.Runs
import MinixCv.Server.Capacity
import MinixCv.Server.Isolation
import MinixCv.Server.Death
import MinixCv.Server.Notices
import MinixCv.Server.Wakeup
import MinixCv.Server.Fifo
import MinixCv.Client.Library
import MinixCv.System.Basic
import MinixCv.System.Agreement
import MinixCv.System.Results
import MinixCv.Lib.Local
import MinixCv.LockManager.ClosedForms
import MinixCv.LockManager.Footprint
import MinixCv.LockManager.Interruption
import MinixCv.Server.ClosedForms
import MinixCv.Server.Commutation
import MinixCv.Server.Sentinels
import MinixCv.Server.Interruption
import MinixCv.System.Interruption
import MinixCv.Lib.LinkedCells
import MinixCv.Server.QueueHeap
import MinixCv.Server.QueueHistory
import MinixCv.Lib.Program
import MinixCv.Pm.State
import MinixCv.Pm.Utility
import MinixCv.Pm.Signal
import MinixCv.Pm.ForkExit
import MinixCv.Pm.Main
import MinixCv.Pm.View
import MinixCv.Pm.Invariant
import MinixCv.Pm.Preservation
import MinixCv.Pm.Rounds
import MinixCv.Pm.LifeCycle
import MinixCv.Pm.Notices
import MinixCv.Lib.Follows
import MinixCv.Lib.Within
import MinixCv.Server.HeapHandlers
import MinixCv.Server.HeapRefinement
import MinixCv.Server.HeapRuns
import MinixCv.Pm.Unfolding
import MinixCv.Pm.UnfoldExits
import MinixCv.Pm.UnfoldRounds
import MinixCv.Pm.Table
import MinixCv.Pm.Kill
import MinixCv.Pm.Reports
import MinixCv.System.Whole
import MinixCv.Lib.Monitor
import MinixCv.System.Programs
import MinixCv.System.Monitor
import MinixCv.Lib.Census
import MinixCv.Testy.ProdCons
import MinixCv.Testy.ProdConsOutline
import MinixCv.Testy.ProdConsTally
import MinixCv.System.Progress
import MinixCv.Lib.Inevitable
import MinixCv.System.Descent
import MinixCv.System.Alone
import MinixCv.Testy.ProdConsRuns
import MinixCv.Testy.ProdConsReturns
import MinixCv.System.Misled
