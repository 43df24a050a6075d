/-
The system calls of a program: `programs/stdlib/src/benos.asm`.

Each function puts the number of its command into `eax` and its argument
on top of the stack, and takes `int 0x80`. All but three are the same code
with another number: `print` has two instructions the other way round,
`benos_getkey` and `benos_exit` push nothing, and `benos_exit` drops a
word nevertheless.
-/
import BenOS.Tasks.Assembly

namespace BenOS.Stdlib.Asm

open Lib X86

/-- `print` -/
def print : List Instr :=
  [ .push .ebp
  , .mov .ebp .esp
  , .pushMem .ebp 8#32
  , .movImm .eax 1#32
  , .int 0x80#8
  , .addImm .esp 4#32
  , .pop .ebp
  , .ret ]

/-- `benos_getkey` -/
def benosGetkey : List Instr :=
  [ .push .ebp
  , .mov .ebp .esp
  , .movImm .eax 2#32
  , .int 0x80#8
  , .pop .ebp
  , .ret ]

/-- The code of a system call of one argument. -/
def argumentCall (command : BitVec 32) : List Instr :=
  [ .push .ebp
  , .mov .ebp .esp
  , .movImm .eax command
  , .pushMem .ebp 8#32
  , .int 0x80#8
  , .addImm .esp 4#32
  , .pop .ebp
  , .ret ]

/-- `benos_putchar` -/
def benosPutchar : List Instr := argumentCall 3#32

/-- `benos_malloc` -/
def benosMalloc : List Instr := argumentCall 4#32

/-- `benos_free` -/
def benosFree : List Instr := argumentCall 5#32

/-- `benos_process_load_start` -/
def benosProcessLoadStart : List Instr := argumentCall 6#32

/-- `benos_system` -/
def benosSystem : List Instr := argumentCall 7#32

/-- `benos_process_get_args` -/
def benosProcessGetArgs : List Instr := argumentCall 8#32

/-- `benos_exit` -/
def benosExit : List Instr :=
  [ .push .ebp
  , .mov .ebp .esp
  , .movImm .eax 9#32
  , .int 0x80#8
  , .addImm .esp 4#32
  , .pop .ebp
  , .ret ]

/-- The functions that return, with the numbers of their commands and of
their arguments. -/
def systemCalls : List (List Instr × BitVec 32 × Nat) :=
  [ (print, 1#32, 1), (benosGetkey, 2#32, 0), (benosPutchar, 3#32, 1)
  , (benosMalloc, 4#32, 1), (benosFree, 5#32, 1)
  , (benosProcessLoadStart, 6#32, 1), (benosSystem, 7#32, 1)
  , (benosProcessGetArgs, 8#32, 1) ]

end BenOS.Stdlib.Asm
