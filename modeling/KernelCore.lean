import KernelCore.BootStatus
import KernelCore.Desk
import KernelCore.FlatMachine
import KernelCore.Kernel
import KernelCore.KeyboardDecoder
import KernelCore.LineMasks
import KernelCore.PagingMachine
import KernelCore.TimerDivisor
import KernelCore.Trace
import KernelCore.VectorTable
import KernelCore.Proofs.LawfulPlatform
import KernelCore.Proofs.TableEffects
import KernelCore.Proofs.TableCoherence
import KernelCore.Proofs.ContextIntegrity
import KernelCore.Proofs.ExecutionState
import KernelCore.Proofs.ExitedProcesses
import KernelCore.Proofs.KernelProcess
import KernelCore.Proofs.RoundRobinTurns
import KernelCore.Proofs.CallLedger
import KernelCore.Proofs.ImageFootprint
import KernelCore.Proofs.LoadAtomicity
import KernelCore.Proofs.LoadedMemory
import KernelCore.Proofs.FailedLoads
import KernelCore.Proofs.HandleLifetimes
import KernelCore.Proofs.SyscallConfinement
import KernelCore.Proofs.GuardedLoad
import KernelCore.Proofs.FrameLeftovers
import KernelCore.Proofs.SpawnedMemory
import KernelCore.Proofs.FailedCreations
import KernelCore.Proofs.FailedSyscalls
import KernelCore.Proofs.PageWalks
import KernelCore.Proofs.TableGrowth
import KernelCore.Proofs.TrapRouting
import KernelCore.Proofs.PreparedEntries
import KernelCore.Proofs.TableRollback
import KernelCore.Proofs.ExposedMappings
import KernelCore.Proofs.FrameCustody
import KernelCore.Proofs.TablePaths
import KernelCore.Proofs.FlatMapping
import KernelCore.Proofs.SeparateSpaces
import KernelCore.Proofs.UserHalf
import KernelCore.Proofs.InputQueue
import KernelCore.Proofs.CallingConvention
import KernelCore.Proofs.SingleReport
import KernelCore.Proofs.FrameBudget
import KernelCore.Proofs.FrameTally
import KernelCore.Proofs.RollbackCompleteness
import KernelCore.Proofs.WatchedMachines
import KernelCore.Proofs.FailedSetup
import KernelCore.Proofs.LoadAcceptance
import KernelCore.Proofs.TreelikeLoads
import KernelCore.Proofs.ProcessOrigins
import KernelCore.Proofs.ProcessStarts
import KernelCore.Proofs.KernelRuns
import KernelCore.Proofs.SpawnedProcesses
import KernelCore.Proofs.UserStacks
import KernelCore.Proofs.FreshSpaces
import KernelCore.Proofs.PoolSelection
import KernelCore.Proofs.PoolExhaustion
import KernelCore.Proofs.PhysicalRange
import KernelCore.Proofs.ConsoleInput
import KernelCore.Proofs.EventDelivery
import KernelCore.Proofs.SlotBalance
import KernelCore.Proofs.CallerTexts
import KernelCore.Proofs.InstalledGates
import KernelCore.Proofs.BootRecords
import KernelCore.Proofs.HeaderAcceptance
import KernelCore.Proofs.TypedCharacters
import KernelCore.Proofs.CutNames
import KernelCore.Proofs.EnabledLines
import KernelCore.Proofs.ReportReading
