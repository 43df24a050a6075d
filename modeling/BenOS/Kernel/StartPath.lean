/-
The paths of the programs that are started: what
`isr80h_command6_process_load_start` and
`isr80h_command7_invoke_system_command` of `isr80h/process.c` do up to
`process_load_switch`, with `strcpy` and `strncpy` of `string/string.c`.

Both work under the directory of the kernel, where every page is mapped to
itself. The log is of the bytes that are written to build the path. A
result `none` is a page fault, or a loop that meets no NUL in all of the
memory.
-/
import BenOS.Kernel.ProgramArguments

namespace BenOS.Kernel

open Lib Memory Traced

-- =================================================================== strings

/-- The loop of `strlen` with the number of bytes left. -/
def strlenLoop (m : Bytes) : Nat → Addr → Nat → Option Nat
  | 0, _, _ => none
  | k + 1, ptr, i =>
      if m ptr = 0x00 then some i else strlenLoop m k (ptr + 1#32) (i + 1)

/-- `strlen` -/
def strlen (m : Bytes) (ptr : Addr) : Option Nat := strlenLoop m (2 ^ 32) ptr 0

/-- The loop of `strcpy` and of `strncpy` from index `i` on, with the
number of bytes it may still copy; it leaves the index it has come to. -/
def copyLoop (dest src : Addr) :
    Nat → Nat → Bytes → Traced Addr (Nat × Bytes)
  | 0, i, m => pure (i, m)
  | k + 1, i, m => do
      let c := m (src + BitVec.ofNat 32 i)
      if c = 0x00 then pure (i, m)
      else do
        let d := dest + BitVec.ofNat 32 i
        let m ← look d (Function.update m d c)
        copyLoop dest src k (i + 1) m

/-- `strcpy` -/
def strcpy (m : Bytes) (dest src : Addr) : Traced Addr (Option Bytes) := do
  let (i, m) ← copyLoop dest src (2 ^ 32) 0 m
  if m (src + BitVec.ofNat 32 i) = 0x00 then do
    let d := dest + BitVec.ofNat 32 i
    look d (some (Function.update m d 0x00))
  else pure none

/-- `strcpy` of a constant. -/
def strcpyConst (m : Bytes) (dest : Addr) (src : List UInt8) :
    Traced Addr Bytes :=
  ⟨writeList m dest (src ++ [0x00]),
    (List.range (src.length + 1)).map fun i => dest + BitVec.ofNat 32 i⟩

/-- `strncpy` -/
def strncpyFrom (m : Bytes) (dest src : Addr) (count : Int) :
    Traced Addr Bytes := do
  let (i, m) ← copyLoop dest src (count - 1).toNat 0 m
  let d := dest + BitVec.ofNat 32 i
  look d (Function.update m d 0x00)

-- ===================================================================== paths

/-- `"0:/"` -/
def pathRoot : List UInt8 := [0x30, 0x3A, 0x2F]

/-- The path of `isr80h_command6_process_load_start`. -/
def startPath (path fname : Addr) (m : Bytes) : Traced Addr (Option Bytes) := do
  let m ← strcpyConst m path pathRoot
  strcpy m (path + 3#32) fname

/-- The path of `isr80h_command7_invoke_system_command`. -/
def invokePath (path programName : Addr) (m : Bytes) : Traced Addr Bytes := do
  let m ← strcpyConst m path pathRoot
  strncpyFrom m (path + 3#32) programName benosMaxPath

/-- `isr80h_command6_process_load_start` up to `process_load_switch`, with
its two buffers; there is no path where the name cannot be copied. -/
def processLoadStartPath (taskCurrent fname path : Addr) (r : Ram) :
    Option (Option (Traced Addr (Option Bytes))) := do
  let fnameUserPtr ← taskGetStackItem r.mem taskCurrent 0
  let (res, r) ←
    copyStringFromTask taskCurrent fnameUserPtr fname benosMaxPath r
  if res < 0 then some none else some (some (startPath path fname r.mem))

/-- `isr80h_command7_invoke_system_command` up to `process_load_switch`;
there is no path where there is no name. -/
def invokeSystemCommandPath (taskCurrent path : Addr) (m : Bytes) :
    Option (Option (Traced Addr Bytes)) := do
  let ptr ← taskGetStackItem m taskCurrent 0
  let args := taskVirtAddrToPhys m taskCurrent ptr
  if args = 0#32 then some none
  else do
    let len ← strlen m args
    if len = 0 then some none else some (some (invokePath path args m))

end BenOS.Kernel
