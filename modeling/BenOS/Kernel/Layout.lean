/-
Where the kernel's structures keep their fields, as the compiler lays
them out for 32-bit x86: `struct process`, `struct task`,
`struct paging_4gb_chunk` and `struct elf_file`.
-/
import BenOS.Config

namespace BenOS.Kernel

-- ========================================================== struct process

/-- `sizeof(struct process)` -/
abbrev sizeofProcess : Nat := 9364

/-- `process->id` -/
abbrev offId : Addr := 0#32

/-- `process->filename` -/
abbrev offFilename : Addr := 2#32

/-- `process->task` -/
abbrev offTask : Addr := 112#32

/-- `process->allocations` -/
abbrev offAllocations : Nat := 116

/-- `sizeof(struct process_allocation)` -/
abbrev sizeofProcessAllocation : Nat := 8

/-- `process->filetype` -/
abbrev offFiletype : Addr := 8308#32

/-- `process->ptr` and `process->elf`, which share their place -/
abbrev offImage : Addr := 8312#32

/-- `process->stack` -/
abbrev offStack : Addr := 8316#32

/-- `process->size` -/
abbrev offSize : Addr := 8320#32

/-- `process->args.argc` -/
abbrev offArgc : Addr := 9356#32

/-- `process->args.argv` -/
abbrev offArgv : Addr := 9360#32

-- ============================================================= struct task

/-- `sizeof(struct task)` -/
abbrev sizeofTask : Nat := 64

/-- `task->page_directory` -/
abbrev offPageDirectory : Addr := 0#32

/-- `task->registers.ip` -/
abbrev offRegistersIp : Addr := 32#32

/-- `task->registers.cs` -/
abbrev offRegistersCs : Addr := 36#32

/-- `task->registers.esp` -/
abbrev offRegistersEsp : Addr := 44#32

/-- `task->registers.ss` -/
abbrev offRegistersSs : Addr := 48#32

/-- `task->process` -/
abbrev offProcess : Addr := 52#32

/-- `task->next` -/
abbrev offNext : Addr := 56#32

/-- `task->prev` -/
abbrev offPrev : Addr := 60#32

-- ================================================= chunks and loaded files

/-- `sizeof(struct paging_4gb_chunk)` -/
abbrev sizeofChunk : Nat := 4

/-- `sizeof(struct elf_file)` -/
abbrev sizeofElfFile : Nat := 132

/-- `elf_file->virt_base_address` -/
abbrev offVirtBaseAddress : Addr := 116#32

/-- `elf_file->virt_end_address` -/
abbrev offVirtEndAddress : Addr := 120#32

/-- `elf_file->phys_base_address` -/
abbrev offPhysBaseAddress : Addr := 124#32

/-- `elf_file->phys_end_address` -/
abbrev offPhysEndAddress : Addr := 128#32

end BenOS.Kernel
