import SrirachOS.Calls.CommandBounds
import SrirachOS.Calls.CorruptBlocks
import SrirachOS.Calls.Gate
import SrirachOS.Calls.Library
import SrirachOS.Calls.ReadBuffer
import SrirachOS.Calls.UserPointers
import SrirachOS.Console.Cells
import SrirachOS.Console.Completion
import SrirachOS.Console.Cursor
import SrirachOS.Console.Display
import SrirachOS.Console.Echo
import SrirachOS.Console.Editor
import SrirachOS.Console.KeyBounds
import SrirachOS.Console.Keyboard
import SrirachOS.Console.LineDiscipline
import SrirachOS.Console.LineSlot
import SrirachOS.Console.Multiplex
import SrirachOS.Console.OutputBounds
import SrirachOS.Console.Redraw
import SrirachOS.Console.Screen
import SrirachOS.Console.TextOutput
import SrirachOS.Console.Undo
import SrirachOS.Console.Write
import SrirachOS.Drivers.Idt
import SrirachOS.Drivers.Pic
import SrirachOS.Drivers.Rtc
import SrirachOS.FileSys.Allocation
import SrirachOS.FileSys.Descriptor
import SrirachOS.FileSys.Enumeration
import SrirachOS.FileSys.FdLaws
import SrirachOS.FileSys.FdLog
import SrirachOS.FileSys.Image
import SrirachOS.FileSys.Interleave
import SrirachOS.FileSys.Lookup
import SrirachOS.FileSys.Names
import SrirachOS.FileSys.Open
import SrirachOS.FileSys.ReadData
import SrirachOS.FileSys.ReadExact
import SrirachOS.FileSys.Region
import SrirachOS.FileSys.SequentialRead
import SrirachOS.FileSys.Unopened
import SrirachOS.Foundation.Blocks
import SrirachOS.Foundation.CInt
import SrirachOS.Foundation.Chains
import SrirachOS.Foundation.Lines
import SrirachOS.Foundation.Machine
import SrirachOS.Foundation.Resumption
import SrirachOS.Foundation.Rows
import SrirachOS.Foundation.Stack
import SrirachOS.Foundation.Texts
import SrirachOS.Foundation.Trace
import SrirachOS.Foundation.Traced
import SrirachOS.Kernel.Arguments
import SrirachOS.Kernel.Coherence
import SrirachOS.Kernel.Command
import SrirachOS.Kernel.Concurrent
import SrirachOS.Kernel.Effect
import SrirachOS.Kernel.Exclusion
import SrirachOS.Kernel.FaultMap
import SrirachOS.Kernel.Invariant
import SrirachOS.Kernel.Isolation
import SrirachOS.Kernel.Leak
import SrirachOS.Kernel.Loading
import SrirachOS.Kernel.Ownership
import SrirachOS.Kernel.Paging
import SrirachOS.Kernel.Parent
import SrirachOS.Kernel.Phases
import SrirachOS.Kernel.Preemption
import SrirachOS.Kernel.Process
import SrirachOS.Kernel.Programs
import SrirachOS.Kernel.Rotation
import SrirachOS.Kernel.RtcWait
import SrirachOS.Kernel.Schedule
import SrirachOS.Kernel.Slots
import SrirachOS.Kernel.State
import SrirachOS.Kernel.Suspension
import SrirachOS.Kernel.Tasks
import SrirachOS.Kernel.Turn
import SrirachOS.Kernel.Vidmap
import SrirachOS.Lib.Itoa
import SrirachOS.Lib.Memory
import SrirachOS.Lib.Printf
import SrirachOS.User.BlinkPhase
import SrirachOS.User.Blinking
import SrirachOS.User.Cat
import SrirachOS.User.Counter
import SrirachOS.User.Fish
import SrirachOS.User.Frames
import SrirachOS.User.Grep
import SrirachOS.User.GrepAll
import SrirachOS.User.Opening
import SrirachOS.User.Records
import SrirachOS.User.Shell
import SrirachOS.User.Support
import SrirachOS.User.Sys
