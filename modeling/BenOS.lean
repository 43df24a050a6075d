import BenOS.Lib.Run
import BenOS.Lib.Simulation
import BenOS.Lib.Blocks
import BenOS.Config
import BenOS.Lib.Bytes
import BenOS.Lib.Overlay
import BenOS.Lib.Traced
import BenOS.Memory.Paging
import BenOS.Memory.Proofs.Mapping
import BenOS.Memory.Proofs.Directory
import BenOS.Loader.Elf
import BenOS.Loader.Map
import BenOS.Loader.Proofs.Simulation
import BenOS.Loader.Proofs.Bounds
import BenOS.Loader.Proofs.Extents
import BenOS.Loader.Proofs.Image
import BenOS.Loader.Calls
import BenOS.Loader.Proofs.Reported
import BenOS.Loader.Proofs.Confine
import BenOS.Loader.Proofs.Segments
import BenOS.Memory.Heap
import BenOS.Memory.Proofs.FirstFit
import BenOS.Memory.Proofs.Marks
import BenOS.Memory.Proofs.HeapRuns
import BenOS.Memory.Proofs.Chains
import BenOS.Memory.Kheap
import BenOS.Memory.Proofs.Kheap
import BenOS.Lib.Decimal
import BenOS.Lib.Dll
import BenOS.Lib.Ring
import BenOS.Lib.Segments
import BenOS.Tasks.List
import BenOS.Tasks.Proofs.TaskList
import BenOS.Tasks.Switch
import BenOS.Tasks.Proofs.Switch
import BenOS.Lib.X86
import BenOS.Tasks.Assembly
import BenOS.Tasks.Proofs.Assembly
import BenOS.Tasks.Proofs.ReturnPath
import BenOS.Stdlib.Syscalls
import BenOS.Stdlib.Proofs.Syscalls
import BenOS.Idt.Handlers
import BenOS.Idt.Proofs.Gates
import BenOS.Idt.Proofs.Interrupts
import BenOS.Isr80h.Proofs.Dispatch
import BenOS.Isr80h.Proofs.SaveState
import BenOS.Isr80h.Proofs.Running
import BenOS.Isr80h.Proofs.UserCalls
import BenOS.Kernel.Proofs.Paged
import BenOS.Tasks.Proofs.RoundRobin
import BenOS.Tasks.Process
import BenOS.Kernel.Layout
import BenOS.Kernel.Alloc
import BenOS.Kernel.Proofs.Objects
import BenOS.Kernel.Proofs.Alloc
import BenOS.Kernel.Proofs.Fresh
import BenOS.Kernel.Proofs.AllocRuns
import BenOS.Kernel.Proofs.Teardown
import BenOS.Kernel.Proofs.Isolation
import BenOS.Tasks.Proofs.Process
import BenOS.Tasks.Exit
import BenOS.Tasks.Proofs.Exit
import BenOS.Gdt.Gdt
import BenOS.Gdt.Proofs.Encoding
import BenOS.Keyboard.Classic
import BenOS.Keyboard.Keyboard
import BenOS.Keyboard.Proofs.Queue
import BenOS.Keyboard.Proofs.Backspace
import BenOS.Lib.Int32
import BenOS.Disk.Streamer
import BenOS.Disk.Proofs.Streamer
import BenOS.Disk.Proofs.Requests
import BenOS.Fat.Volume
import BenOS.Lib.Walk
import BenOS.Fat.Proofs.Chain
import BenOS.Fat.Proofs.Read
import BenOS.Lib.Packed
import BenOS.Fat.Dir
import BenOS.Fat.Proofs.Lookup
import BenOS.Fat.Proofs.DirLoad
import BenOS.Fat.Proofs.Path
import BenOS.Fat.File
import BenOS.Fs.File
import BenOS.Fs.Proofs.Position
import BenOS.Fs.Proofs.Bounds
import BenOS.Fs.Path
import BenOS.Fs.Open
import BenOS.Fat.Proofs.Keeps
import BenOS.Memory.Proofs.Held
import BenOS.Memory.Proofs.Requests
import BenOS.Memory.Proofs.InUse
import BenOS.Memory.Proofs.Release
import BenOS.Memory.Proofs.Spares
import BenOS.Memory.Proofs.Lent
import BenOS.Fs.Proofs.OpenLeak
import BenOS.Fs.Proofs.Parser
import BenOS.Fs.Proofs.Descriptors
import BenOS.Fat.Access
import BenOS.Fat.Name
import BenOS.Fat.Resolve
import BenOS.Fat.Proofs.Name
import BenOS.Fat.Proofs.Access
import BenOS.Fat.Proofs.Termination
import BenOS.Fat.Proofs.Guarded
import BenOS.Fat.Proofs.Counts
import BenOS.Fat.Proofs.Layout
import BenOS.Fat.Proofs.Positions
import BenOS.Fs.Calls
import BenOS.Fs.Proofs.Calls
import BenOS.Fs.Proofs.Kinds
import BenOS.Fs.Proofs.Mounted
import BenOS.Fs.Proofs.FailedDir
import BenOS.Fs.Proofs.SeekBounds
import BenOS.Fs.Proofs.Rejected
import BenOS.Kernel.Image
import BenOS.Kernel.Task
import BenOS.Kernel.Proofs.NewTables
import BenOS.Kernel.Proofs.NewTask
import BenOS.Kernel.Proofs.MapTo
import BenOS.Kernel.AddressSpace
import BenOS.Kernel.Proofs.AddressSpace
import BenOS.Kernel.Load
import BenOS.Kernel.Proofs.Mapping
import BenOS.Kernel.Exit
import BenOS.Kernel.Proofs.Selection
import BenOS.Kernel.Proofs.ElfFrame
import BenOS.Kernel.CopyString
import BenOS.Kernel.Proofs.Strncpy
import BenOS.Kernel.Proofs.CopyString
import BenOS.Kernel.ProgramArguments
import BenOS.Kernel.StartPath
import BenOS.Kernel.CommandArgs
import BenOS.Kernel.Proofs.StartPath
import BenOS.Kernel.Proofs.ArgWalk
import BenOS.Kernel.Proofs.FailedArgs
import BenOS.Kernel.Proofs.Grants
import BenOS.Kernel.Proofs.ArgInjection
import BenOS.Kernel.Proofs.ProgramArguments
import BenOS.Terminal.Terminal
import BenOS.Terminal.Proofs.Screen
import BenOS.Terminal.Proofs.Backspace
import BenOS.Stdlib.Readline
import BenOS.Stdlib.Proofs.Readline
import BenOS.Stdlib.Itoa
import BenOS.Stdlib.Proofs.Itoa
import BenOS.Stdlib.Printf
import BenOS.Stdlib.Proofs.Printf
import BenOS.Stdlib.String
import BenOS.Stdlib.Proofs.Strtok
import BenOS.Stdlib.ParseCommand
import BenOS.Stdlib.Tokenizer
import BenOS.Stdlib.Proofs.ParseCommand
import BenOS.Stdlib.Proofs.Seen
import BenOS.Stdlib.Proofs.Tokenizer
import BenOS.Stdlib.Proofs.History
import BenOS.Refine.Tasks
import BenOS.Refine.Switch
import BenOS.Refine.RoundRobin
import BenOS.Refine.Load
import BenOS.Refine.Exit
