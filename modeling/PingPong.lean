import PingPong.QueueRefinement
import PingPong.QueueChecks
import PingPong.KernelEffects
import PingPong.TransitionRuns
import PingPong.SchedulerAging
import PingPong.SchedulerDecisions
import PingPong.PriorityRange
import PingPong.SystemModel
import PingPong.TaskPlacement
import PingPong.SystemFrames
import PingPong.FiniteTally
import PingPong.TaskConservation
import PingPong.SemaphorePreemption
import PingPong.SemaphoreBalance
import PingPong.NullWakeups
import PingPong.UnitGrants
import PingPong.TaskResumption
import PingPong.MessageQueues
import PingPong.DiskGuarantees
import PingPong.TaskEvents
import PingPong.SleepingTasks
import PingPong.WaitingTasks
import PingPong.CountingSemaphores
import PingPong.SemaphoreRefinement
import PingPong.BarrierRounds
import PingPong.BathroomExclusion
import PingPong.DiskLinearization
import PingPong.DiskRejections
import PingPong.DiskSemaphore
import PingPong.QueueDestruction
import PingPong.DestructionSafety
import PingPong.FailedSends
import PingPong.ReportedTime
import PingPong.StatusTracking
import PingPong.TerminationRaces
import PingPong.PreemptionSafety
import PingPong.UninterruptedCalls
import PingPong.BathroomTokens
import PingPong.QuantumLimit
import PingPong.MessageMemory
import PingPong.TimeAccounting
import PingPong.Initialisation
import PingPong.RobotTurns
import PingPong.BarrierProgress
import PingPong.TaskLives
import PingPong.SystemScheduling
import PingPong.SystemHalts
import PingPong.ByteFiles
import PingPong.DiskHardware
import PingPong.LockStep
import PingPong.DiskImage
import PingPong.UserPrograms
import PingPong.SharedCounter
import PingPong.StatementBlocks
import PingPong.CallRefinement
