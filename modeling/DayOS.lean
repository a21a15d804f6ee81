import DayOS.Containment
import DayOS.HeapBounds
import DayOS.KillHeap
import DayOS.MailboxLinks
import DayOS.MapRange
import DayOS.PmmRun
import DayOS.Provenance
import DayOS.RamdiskProcess
import DayOS.References
import DayOS.Replay
import DayOS.Sbrk
import DayOS.Teardown
import DayOS.VmmAlloc
import DayOS.FileTable
import DayOS.RegionLoops
import DayOS.FreeMemory
import DayOS.BootModules
import DayOS.SleepTimer
import DayOS.LineOwners
import DayOS.ServiceNames
import DayOS.InterruptMessages
import DayOS.Console
import DayOS.Lib.Sheet
import DayOS.Screen
import DayOS.Lib.Numeral
import DayOS.NumberFormat
import DayOS.MailboxTail
import DayOS.Preemption
import DayOS.TrapFrames
import DayOS.IntHandler
import DayOS.Lib.VirtualCpus
import DayOS.SavedFrames
import DayOS.Handling
import DayOS.Dispatch
import DayOS.Multitasking
import DayOS.Boot
import DayOS.KernelHost
import DayOS.OwnSpaces
import DayOS.Launching
import DayOS.KernelRun
import DayOS.Startup
import DayOS.Lib.Pic
import DayOS.IrqDelivery
