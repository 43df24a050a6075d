/-
The build-time constants of the kernel that the model reads: `config.h`,
`status.h` and the sizes the C types fix. Every module reads a bound
from here, under the name the header gives it.
-/
import Mathlib.Data.BitVec

namespace BenOS

-- ============================================================= addresses

/-- A 32-bit address. Arithmetic on it wraps, as it does on the machine. -/
abbrev Addr := BitVec 32

instance addrLawfulBEq : LawfulBEq Addr := inferInstance

-- ============================================================== config.h

/-- `KERNEL_CODE_SELECTOR` -/
def kernelCodeSelector : BitVec 16 := 0x08#16

/-- `KERNEL_DATA_SELECTOR` -/
def kernelDataSelector : BitVec 16 := 0x10#16

/-- `BENOS_TOTAL_INTERRUPTS` -/
abbrev benosTotalInterrupts : Nat := 512

/-- `BENOS_HEAP_SIZE_BYTES`: the kernel heap's data pool, 100 MiB. -/
def benosHeapSizeBytes : Nat := 104857600

/-- `BENOS_HEAP_BLOCK_SIZE` -/
abbrev benosHeapBlockSize : Nat := 4096

/-- `BENOS_HEAD_ADDRESS`: where the kernel heap's data pool starts. -/
def benosHeadAddress : Addr := 0x01000000#32

/-- `BENOS_SECTOR_SIZE` -/
abbrev benosSectorSize : Nat := 512

/-- `BENOS_MAX_PATH` -/
abbrev benosMaxPath : Nat := 108

/-- `BENOS_MAX_PROCESSES` -/
abbrev benosMaxProcesses : Nat := 12

/-- `BENOS_MAX_PROGRAM_ALLOCATIONS` -/
abbrev benosMaxProgramAllocations : Nat := 1024

/-- `BENOS_MAX_FILE_DESCRIPTORS` -/
abbrev benosMaxFileDescriptors : Nat := 512

/-- `BENOS_KEYBOARD_BUFFER_SIZE` -/
abbrev benosKeyboardBufferSize : Nat := 1024

/-- `BENOS_MAX_ISR80H_COMMANDS` -/
abbrev benosMaxIsr80hCommands : Nat := 1024

/-- `BENOS_PROGRAM_VIRTUAL_ADDRESS` -/
def benosProgramVirtualAddress : Addr := 0x400000#32

/-- `BENOS_PROGRAM_VIRTUAL_STACK_ADDRESS_START` -/
def benosProgramVirtualStackAddressStart : Addr := 0x3FF000#32

/-- `BENOS_USER_PROGRAM_STACK_SIZE` -/
abbrev benosUserProgramStackSize : Nat := 1024 * 16

/-- `BENOS_PROGRAM_VIRTUAL_STACK_ADDRESS_END` -/
def benosProgramVirtualStackAddressEnd : Addr :=
  benosProgramVirtualStackAddressStart
    - BitVec.ofNat 32 benosUserProgramStackSize

/-- `USER_DATA_SEGMENT` -/
def userDataSegment : BitVec 32 := 0x23#32

/-- `USER_CODE_SEGMENT` -/
def userCodeSegment : BitVec 32 := 0x1B#32

-- ============================================================== status.h

/-- `BENOS_ALL_OK` -/
abbrev benosAllOk : Int := 0

/-- `EIO` -/
abbrev eio : Int := 1

/-- `EINVARG` -/
abbrev einvarg : Int := 2

/-- `ENOMEM` -/
abbrev enomem : Int := 3

/-- `EBADPATH` -/
abbrev ebadpath : Int := 4

/-- `EFSNOTUS` -/
abbrev efsnotus : Int := 5

/-- `EREADONLY` -/
abbrev ereadonly : Int := 6

/-- `EUNIMP` -/
abbrev eunimp : Int := 7

/-- `EISTKN` -/
abbrev eistkn : Int := 8

/-- `EINFORMAT` -/
abbrev einformat : Int := 9

end BenOS
