import TP2Kernel.System
import TP2Kernel.Proofs.Creation
import TP2Kernel.Proofs.Consistency
import TP2Kernel.Proofs.Scheduling
import TP2Kernel.Proofs.PipeWaiting
import TP2Kernel.Proofs.SemLifetime
import TP2Kernel.Proofs.ExecutePipe
import TP2Kernel.Proofs.FirstFit
import TP2Kernel.Proofs.Buddy
import TP2Kernel.Proofs.FdLifetime
import TP2Kernel.Proofs.CallerSurvives
import TP2Kernel.Proofs.Mvar
import TP2Kernel.Proofs.SemNames
import TP2Kernel.Proofs.PipeNames
import TP2Kernel.Proofs.FirstFitClients
import TP2Kernel.Proofs.BuddyAccounts
import TP2Kernel.Proofs.BuddyFree
import TP2Kernel.Proofs.Pids
import TP2Kernel.Proofs.Terminal
import TP2Kernel.Proofs.Blocked
import TP2Kernel.Proofs.SemHandles
import TP2Kernel.Proofs.FailedCreation
import TP2Kernel.Proofs.Starvation
import TP2Kernel.Proofs.FirstFitStats
import TP2Kernel.Proofs.ParseUtils
import TP2Kernel.Proofs.SpawnArgs
import TP2Kernel.Proofs.Editing
import TP2Kernel.Proofs.Splitters
import TP2Kernel.Proofs.Cat
import TP2Kernel.Proofs.TtyCalls
import TP2Kernel.Proofs.MvarStart
import TP2Kernel.Proofs.PipelineFds
import TP2Kernel.Proofs.VideoDriver
import TP2Kernel.Proofs.BuddyCarving
import TP2Kernel.Proofs.WaitResults
import TP2Kernel.Proofs.NumberStrings
import TP2Kernel.Proofs.SemWaits
import TP2Kernel.Proofs.ZombieTables
import TP2Kernel.Proofs.Kinship
import TP2Kernel.Proofs.Modules
import TP2Kernel.Proofs.Printf
