/-
Loading the data of a program: `elf_load` of `loader/formats/elfloader.c`
and `process_load_data` of `task/process.c`, in the memory of the kernel.

The structs they fill lie in that memory; what the heap and the file
table answer is what they do in the state they are called in. A result
`none` stands for an access through null, or for a callee that has no
outcome.
-/
import BenOS.Fs.Open
import BenOS.Kernel.Layout
import BenOS.Loader.Map

namespace BenOS.Kernel

open Lib Memory Fat Fs Loader

-- =============================================================== the kernel

/-- The memory of the kernel, its open files, and the globals of `task.c`
and `process.c`. Null is the null address. -/
structure KernelState where
  ram : Ram
  files : OpenFiles
  taskHead : Addr
  taskTail : Addr
  currentTask : Addr
  processes : Fin benosMaxProcesses → Addr
  currProcess : Addr

/-- `strncpy` -/
def strncpy (m : Bytes) (dest : Addr) (src : List UInt8) (count : Nat) :
    Bytes :=
  writeList m dest ((src.takeWhile fun c => c != 0).take (count - 1) ++ [0])

namespace KernelState

variable (k : KernelState)

/-- The kernel with other bytes in its memory. -/
def setMem (m : Bytes) : KernelState := { k with ram := { k.ram with mem := m } }

/-- A 32-bit store. -/
def store (a v : Addr) : KernelState := k.setMem (store32 k.ram.mem a v)

/-- A store of a byte. -/
def store8 (a : Addr) (v : UInt8) : KernelState :=
  k.setMem (writeBytes k.ram.mem a 1 fun _ => v)

/-- `kzalloc` -/
def kzalloc (size : Nat) : Addr × KernelState :=
  let a := Memory.kzalloc size k.ram
  (a.1, { k with ram := a.2 })

/-- `kfree` -/
def kfree (ptr : Addr) : KernelState := { k with ram := Memory.kfree ptr k.ram }

/-- `fopen` -/
def fopen (vol : Option Volume) (filename mode : List UInt8) :
    Option (Int × KernelState) := do
  let (res, files, ram) ←
    Fs.fopen kernelAllocator vol k.files filename mode k.ram
  some (res, { k with ram := ram, files := files })

/-- `fclose` -/
def fclose (fd : Int) : Option (Int × KernelState) := do
  let (res, files, ram) ← Fs.fclose kernelAllocator k.files fd k.ram
  some (res, { k with ram := ram, files := files })

/-- `fstat` -/
def fstat (fd : Int) : Option (Int × Option FileStat) :=
  Fs.fstat k.files.descriptors fd

/-- `fread`, of a descriptor that is open on the volume. -/
def fread (vol : Option Volume) (ptr : Addr) (size nmemb : UInt32) (fd : Int) :
    Option (Int × KernelState) := do
  let vol ← vol
  let r ← Fs.fread vol vol.disk k.files.descriptors size nmemb fd
  if ptr = 0#32 ∧ r.out ≠ [] then none
  else some (r.res, k.setMem (writeList k.ram.mem ptr r.out))

end KernelState

/-- The mode `"r"`. -/
def modeRead : List UInt8 := [0x72]

-- ================================================================= elf_load

/-- A `struct elf_file` in memory. -/
def elfFileAt (m : Bytes) (file : Addr) : ElfFile where
  elfMem := load32 m (file + offElfMem)
  virtBaseAddress := load32 m (file + offVirtBaseAddress)
  virtEndAddress := load32 m (file + offVirtEndAddress)
  physBaseAddress := load32 m (file + offPhysBaseAddress)
  physEndAddress := load32 m (file + offPhysEndAddress)

/-- The fields `elf_process_loaded` sets. -/
def setElfFile (m : Bytes) (file : Addr) (f : ElfFile) : Bytes :=
  let m := store32 m (file + offVirtBaseAddress) f.virtBaseAddress
  let m := store32 m (file + offVirtEndAddress) f.virtEndAddress
  let m := store32 m (file + offPhysBaseAddress) f.physBaseAddress
  store32 m (file + offPhysEndAddress) f.physEndAddress

/-- `elf_load` from `elf_process_loaded` on: what it stores in its
out-parameter, if it gets there. The image is dereferenced. -/
def elfLoadImage (file : Addr) (k : KernelState) :
    Option (Option Addr × KernelState) :=
  let f := elfFileAt k.ram.mem file
  if f.elfMem = 0#32 then none
  else
    let r := (elfProcessLoaded k.ram.mem f).val
    let k := k.setMem (setElfFile k.ram.mem file r.2)
    some (if r.1 < 0 then none else some file, k)

/-- `elf_load` behind `fopen`, up to `out`. -/
def elfLoadFile (vol : Option Volume) (file : Addr) (fd : Int)
    (k : KernelState) : Option (Option Addr × KernelState) :=
  if fd ≤ 0 then some (none, k)
  else do
    let (res, stat) ← k.fstat fd
    if res < 0 then some (none, k)
    else
      let stat ← stat
      let a := k.kzalloc stat.size.toNat
      if file = 0#32 then none
      else
        let k := a.2.store (file + offElfMem) a.1
        let (res, k) ← k.fread vol a.1 stat.size 1 fd
        if res < 0 then some (none, k) else elfLoadImage file k

/-- `elf_load`: whatever happens it answers 0, and closes descriptor 0
where it has opened none. -/
def elfLoad (vol : Option Volume) (fname : List UInt8) (k : KernelState) :
    Option (Int × Option Addr × KernelState) := do
  let file := k.kzalloc sizeofElfFile
  let (res, k) ← file.2.fopen vol fname modeRead
  let (fileOut, k) ← elfLoadFile vol file.1 res k
  let (_, k) ← k.fclose (if res ≤ 0 then 0 else res)
  some (0, fileOut, k)

-- ======================================================== process_load_data

/-- `process_load_binary` behind `fopen`, up to `out`: the result, and the
data. -/
def processLoadBinaryFile (vol : Option Volume) (process : Addr) (fd : Int)
    (k : KernelState) : Option (Int × Addr × KernelState) :=
  if fd = 0 then some (-eio, 0#32, k)
  else do
    let (res, stat) ← k.fstat fd
    if res ≠ benosAllOk then some (res, 0#32, k)
    else
      let stat ← stat
      let a := k.kzalloc stat.size.toNat
      if a.1 = 0#32 then some (-enomem, a.1, a.2)
      else
        let (n, k) ← a.2.fread vol a.1 stat.size 1 fd
        if n ≠ 1 then some (-eio, a.1, k)
        else
          let k := k.store8 (process + offFiletype) Tasks.processFiletypeBinary
          let k := k.store (process + offImage) a.1
          let k := k.store (process + offSize) stat.size.toBitVec
          some (0, a.1, k)

/-- `process_load_binary` -/
def processLoadBinary (vol : Option Volume) (fname : List UInt8)
    (process : Addr) (k : KernelState) : Option (Int × KernelState) := do
  let (fd, k) ← k.fopen vol fname modeRead
  let (res, data, k) ← processLoadBinaryFile vol process fd k
  let k := if res < 0 ∧ data ≠ 0#32 then k.kfree data else k
  let (_, k) ← k.fclose fd
  some (res, k)

/-- `process_load_elf` -/
def processLoadElf (vol : Option Volume) (fname : List UInt8) (process : Addr)
    (k : KernelState) : Option (Int × KernelState) := do
  let (res, elfFile, k) ← elfLoad vol fname k
  if res < 0 then some (res, k)
  else
    let k := k.store8 (process + offFiletype) Tasks.processFiletypeElf
    let k := k.store (process + offImage) (elfFile.getD 0#32)
    some (res, k)

/-- `process_load_data` -/
def processLoadData (vol : Option Volume) (fname : List UInt8) (process : Addr)
    (k : KernelState) : Option (Int × KernelState) := do
  let (res, k) ← processLoadElf vol fname process k
  if res = -einformat then processLoadBinary vol fname process k
  else some (res, k)

end BenOS.Kernel
