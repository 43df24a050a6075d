/-
`process_map_memory` in the memory of the kernel.

The page directory it fills in lies in the memory it reads the program
headers from. Where none of the headers lies in a table of that directory
it does there what it does on a directory beside the memory
(`processMapMemory_view`). So the directory of an ELF program, which
`Loader` works out of its headers, is the one its process has in memory
(`elf_mapped_in_memory`).
-/
import BenOS.Kernel.Load
import BenOS.Kernel.Proofs.Alloc
import BenOS.Kernel.Proofs.NewTask
import BenOS.Kernel.Proofs.Paged
import BenOS.Loader.Proofs.Image
import BenOS.Loader.Proofs.Simulation

namespace BenOS.Kernel

open Lib Memory Loader Traced

variable {o : Objects} {k : KernelState} {m₀ m : Bytes}

-- ================================================================ the pagers

/-- A read shares no byte with the tables of a directory. -/
def OffTables (p : DirParts) (b : Span) : Prop :=
  ∀ x, InSpan b.addr b.len x → ¬ InTables p x

/-- The memory with the directory of a process, and the directory beside
the memory. -/
theorem memoryPager_agree (hap : o.Apart) (hlinks : o.Links m₀) :
    PagersAgree (memoryPager o.process) (dirPager m₀) (Views o.parts m₀)
      (OffTables o.parts) := by
  refine ⟨fun virt val m d h => ?_, fun m d h b hb x hx => ?_⟩
  · have hlinks' : o.Links m := links_of_outside hap hlinks h.outside
    have hset : (memoryPager o.process).set virt val m
        = chunkSet o.parts.chunk virt val m := by
      rw [← hlinks'.pageDirectory]
      rfl
    rw [hset]
    exact chunkSet_view hap.dir virt val m d h
  · exact h.outside x (hb x hx)

/-- `process_map_memory` in the memory of the kernel is
`process_map_memory` on the directory the memory stands for, and writes
nothing but its tables. -/
theorem processMapMemory_view (hap : o.Apart) (hlinks : o.Links k.ram.mem)
    {y : Traced Span (Int × PageDir)}
    (hy : Loader.processMapMemory (dirPager k.ram.mem)
      (programAt k.ram.mem o.process) (dirView k.ram.mem o.parts.dir) = some y)
    (hreads : Logs (OffTables o.parts) y) :
    ∃ m, processMapMemory o.process k = some (y.val.1, k.setMem m)
      ∧ Views o.parts k.ram.mem m y.val.2 := by
  have hstart : Views o.parts k.ram.mem k.ram.mem
      (dirView k.ram.mem o.parts.dir) :=
    ⟨hlinks.dirOk, rfl, fun _ _ => rfl⟩
  obtain ⟨x, hx, hsim⟩ :=
    processMapMemory_sim (memoryPager_agree hap hlinks) hstart
      (programAt k.ram.mem o.process) hy
  obtain ⟨-, hres, hviews⟩ := hsim hreads
  refine ⟨x.val.2, ?_, hviews⟩
  unfold processMapMemory
  rw [hx, Option.bind_eq_bind, Option.bind_some, hres]

section

variable {k' : KernelState} {process task a : Addr} {p : DirParts}
  {ip : BitVec 32} {n : Nat} {m m' : Bytes}

/-- The process is linked to its task by one store. -/
theorem TaskLinked.links (h : TaskLinked k task p k')
    (hap : Objects.Apart ⟨process, task, p⟩) :
    Objects.Links ⟨process, task, p⟩
      (store32 k'.ram.mem (process + offTask) task) := by
  refine ⟨load32_store32 _ _ _, ?_, h.ok.sameOn ?_ ?_⟩
  · refine (load32_store32_apart _ _ ?_).trans h.chunk
    exact hap.process_task.parts (by decide) (by decide)
  · exact writeBytes_sameOn _ _ (hap.process_chunk.part (by decide))
  · exact writeBytes_sameOn _ _ (hap.process_dir.part (by decide))

end

-- ============================================================== ELF programs

/-- A process stands before `process_map_memory` with an ELF program: its
program headers lie in the file, the file lies apart from the tables, and
the tables are those of a new directory. -/
structure ReadyToMap (L : LoadedElf) (o : Objects) (m : Bytes) : Prop where
  mem : L.mem = m
  program : L.program = programAt m o.process
  headers : TableInside m L.program.elfMem L.fileSize
  apart : ∀ i < pagingTotalEntriesPerTable,
    SpansApart L.program.elfMem L.fileSize (o.parts.table i) pagingPageSize
  fresh : dirView m o.parts.dir = pagingNew4gbDir userFlags

/-- A read in the file is none in a table. -/
theorem offTables_of_inBuffer {p : DirParts} {base : Addr} {n : Nat}
    (hap : ∀ i < pagingTotalEntriesPerTable,
      SpansApart base n (p.table i) pagingPageSize)
    {b : Span} (hb : InBuffer base n b) : OffTables p b := by
  rintro x hx ⟨i, hi, hin⟩
  refine hap i hi x ?_ hin
  unfold InSpan at hx ⊢
  unfold InBuffer at hb
  have hsplit : x - base = (x - b.addr) + (b.addr - base) := by grind
  rw [hsplit, BitVec.toNat_add]
  have hwrap := Nat.mod_le ((x - b.addr).toNat + (b.addr - base).toNat) (2 ^ 32)
  omega

/-- `process_map_memory` reads program headers of the file, and nothing
else. -/
theorem mapMemory_reads {L : LoadedElf}
    (h : TableInside L.mem L.program.elfMem L.fileSize)
    {y : Traced Span (Int × PageDir)}
    (hy : Loader.processMapMemory (dirPager L.mem) L.program
      (pagingNew4gbDir userFlags) = some y) :
    Logs (InBuffer L.program.elfMem L.fileSize) y := by
  have hheaders : HeadersInside L.mem L.program.elfMem L.fileSize
      L.program.elfMem :=
    headersInside_base h (accepted_iff.mp L.valid).2
  have himage : processMapImage (dirPager L.mem) L.program
      (pagingNew4gbDir userFlags)
        = some (processMapElf (dirPager L.mem) L.program.elfMem
            (pagingNew4gbDir userFlags)) := if_pos L.isElf
  unfold Loader.processMapMemory at hy
  rw [himage, Option.bind_eq_bind, Option.bind_some] at hy
  rw [← Option.some.inj hy]
  apply logs_bind (((headersInside_iff _).mp hheaders).2 _)
  simp only
  split
  · exact logs_pure _
  · exact logs_pure _

/-- The directory an ELF program is given, worked out of its headers, is
the one its process has in the memory of the kernel. -/
theorem elf_mapped_in_memory {L : LoadedElf} (hap : o.Apart)
    (hlinks : o.Links k.ram.mem) (h : ReadyToMap L o k.ram.mem) :
    ∃ m d, L.mapMemory = some (0, d)
      ∧ processMapMemory o.process k = some (0, k.setMem m)
      ∧ Views o.parts k.ram.mem m d := by
  obtain ⟨y, hy⟩ : ∃ y, Loader.processMapMemory (dirPager L.mem) L.program
      (pagingNew4gbDir userFlags) = some y := processMapMemory_isElf L.isElf _
  obtain ⟨-, hzero⟩ := processMapMemory_res hy
  have hmapped : L.mapMemory = some (0, y.val.2) := by
    unfold LoadedElf.mapMemory
    rw [hy, ← hzero]
    rfl
  have hreads := mapMemory_reads (h.mem ▸ h.headers) hy
  rw [h.mem, h.program, ← h.fresh] at hy
  obtain ⟨m, hmap, hviews⟩ := processMapMemory_view hap hlinks hy
    fun b hb => offTables_of_inBuffer h.apart (hreads b hb)
  rw [hzero] at hmap
  exact ⟨m, y.val.2, hmapped, hmap, hviews⟩

-- ============================================================= one program

/-- Word `k` of a memory with one task, and below the heap an ELF file of
one program header: a page for 0x400000 from the start of the file on. -/
def mappedWord (k : Nat) : BitVec 32 :=
  -- the ELF header
  if k = 0x8000 / 4 then 0x464C457F#32
  else if k = 0x8004 / 4 then 0x00000101#32
  else if k = 0x801C / 4 then 52#32
  else if k = 0x802C / 4 then 1#32
  -- `p_vaddr` and `p_memsz` of the program header
  else if k = 0x803C / 4 then 0x00400000#32
  else if k = 0x8048 / 4 then 0x1000#32
  -- `elf_memory` of the `struct elf_file`
  else if k = 0x9070 / 4 then 0x8000#32
  else oneTaskWord k

/-- The process has the file, and a stack. -/
def mappedMemory : Bytes :=
  store32 (store32 (wordMemory mappedWord)
      ((objectsAt 0).process + offImage) 0x9000#32)
    ((objectsAt 0).process + offStack) 0x00020000#32

theorem hasTask_mappedWord : HasTask mappedWord := by
  intro k hlo hhi
  unfold mappedWord
  rw [if_neg (by omega), if_neg (by omega), if_neg (by omega),
    if_neg (by omega), if_neg (by omega), if_neg (by omega),
    if_neg (by omega)]

/-- Only the process is written to. -/
theorem mappedMemory_sameOn {a : Addr} {n : Nat}
    (h : SpansApart (objectsAt 0).process (blockBytes 3) a n) :
    SameOn a n (wordMemory mappedWord) mappedMemory := by
  have himage : SameOn a n (wordMemory mappedWord)
      (store32 (wordMemory mappedWord) ((objectsAt 0).process + offImage)
        0x9000#32) :=
    writeBytes_sameOn _ _ (h.part (by decide))
  exact himage.trans (writeBytes_sameOn _ _ (h.part (by decide)))

/-- The kernel that has loaded it. -/
def mappedKernel : KernelState where
  ram := ⟨emptyHeap, mappedMemory, true⟩
  files := fun _ => none
  taskHead := (objectsAt 0).task
  taskTail := (objectsAt 0).task
  currentTask := 0#32
  processes := fun _ => 0#32
  currProcess := 0#32

/-- The program is accepted. -/
def mappedElf : LoadedElf where
  mem := mappedMemory
  program := programAt mappedMemory (objectsAt 0).process
  fileSize := 84
  isElf := by decide +kernel
  valid := by decide +kernel
  imagePage := by decide +kernel
  filePage := by decide +kernel
  noBinary := by decide +kernel
  stackPage := by decide +kernel
  stackFits := by decide +kernel

theorem links_mappedMemory : (objectsAt 0).Links mappedMemory := by
  have hap := apart_objectsAt
  have hold := links_oneTask hasTask_mappedWord
  refine ⟨?_, ?_, hold.dirOk.sameOn ?_ ?_⟩
  · decide +kernel
  · exact (load32_congr (mappedMemory_sameOn
      (hap.process_task.parts (by decide) (by decide)))).trans hold.chunk
  · exact mappedMemory_sameOn hap.process_chunk
  · exact mappedMemory_sameOn hap.process_dir

theorem readyToMap_mappedElf :
    ReadyToMap mappedElf (objectsAt 0) mappedMemory := by
  have hap := apart_objectsAt
  refine ⟨rfl, rfl, ⟨by decide, by decide +kernel, by decide +kernel⟩,
    fun i hi => ?_, ?_⟩
  · have helf : mappedElf.program.elfMem = 0x8000#32 := by decide +kernel
    rw [helf]
    refine spansApart_block (by decide) (b := 0 + 6 + i) ?_
    simp only [pagingTotalEntriesPerTable, kernelHeapBlocks] at *
    omega
  · exact ((tabled_oneTask hasTask_mappedWord).congr
      (mappedMemory_sameOn hap.process_chunk)
      (mappedMemory_sameOn hap.process_dir)
      fun i hi => mappedMemory_sameOn (hap.process_table i hi)).view

theorem elf_mapped_in_memory_one_segment :
    ∃ m d, mappedElf.mapMemory = some (0, d)
      ∧ d 0x400#20 = 0x00008005#32
      ∧ processMapMemory (objectsAt 0).process mappedKernel
        = some (0, mappedKernel.setMem m)
      ∧ Views (objectsAt 0).parts mappedMemory m d := by
  obtain ⟨m, d, hmapped, hmap, hviews⟩ := elf_mapped_in_memory
    (k := mappedKernel) apart_objectsAt links_mappedMemory readyToMap_mappedElf
  have hentry : mappedElf.mapMemory.map (fun r => r.2 0x400#20)
      = some 0x00008005#32 := by decide +kernel
  rw [hmapped] at hentry
  exact ⟨m, d, hmapped, Option.some.inj hentry, hmap, hviews⟩

end BenOS.Kernel
