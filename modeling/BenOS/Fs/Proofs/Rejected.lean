/-
What `fat16_resolve` leaves behind of a disk it does not take for its own.

It frees the private data and the stream of its own, and takes back
`fs_private`; the three streams that `fat16_init_private` has made stay
allocated, and `filesystem` stays set. So no disk is rejected without a
trace (`resolve_leaves_trace`).
-/
import BenOS.Fat.Proofs.DirLoad
import BenOS.Fat.Resolve
import BenOS.Fs.Proofs.FailedDir

namespace BenOS.Fs

open Lib Disk Fat Memory

-- ================================================================== the pointers

/-- Without the pointers of the disk, the function is what it was. -/
theorem fat16ResolveDisk_volume {σ : Type} (al : Allocator σ) (fat16Fs : Addr)
    (disk : Image UInt8) (fields : DiskFields) (s : σ) :
    (fat16ResolveDisk al fat16Fs disk fields s).map
        (fun o => (o.1, o.2.1, o.2.2.2))
      = fat16Resolve al disk s := by
  unfold fat16ResolveDisk fat16Resolve
  generalize al.kzalloc sizeofFatPrivate s = q
  obtain ⟨ptr, s⟩ := q
  cases ptr with
  | none => rfl
  | some fatPrivate =>
      simp only [Option.bind_eq_bind]
      cases fat16InitPrivate al s with
      | none => rfl
      | some s =>
          simp only [Option.bind_some]
          cases diskstreamerNew al s with
          | none => rfl
          | some r =>
              simp only [Option.bind_some]
              cases fat16ResolveFrom al disk r.2 with
              | none => rfl
              | some o =>
                  simp only [Option.bind_some]
                  split <;> rfl

/-- The disk is rejected, with an error, and everything is as it was
before. -/
def NoTrace (fat16Fs : Addr) (disk : Image UInt8) (fields : DiskFields)
    (r : Ram) : Prop :=
  ∃ res vol fields' r', fat16ResolveDisk kernelAllocator fat16Fs disk fields r
      = some (res, vol, fields', r')
    ∧ res < 0 ∧ fields' = fields ∧ SameTable r.heap r'.heap

-- =================================================================== the streams

variable {heap₀ : Heap} {own : List (Addr × Nat)} {r r' : Ram}

/-- A stream is a block. -/
theorem diskstreamerNew_lent (h : Lent heap₀ r.heap own) (h₀ : Clean heap₀)
    {stream : Addr}
    (hnew : diskstreamerNew kernelAllocator r = some (stream, r')) :
    Lent heap₀ r'.heap ((stream, 1) :: own) := by
  unfold diskstreamerNew at hnew
  rw [kernelAllocator_kzalloc] at hnew
  split at hnew
  · cases hnew
  · next heq =>
      obtain ⟨hptr, rfl⟩ := Prod.mk.inj heq
      obtain ⟨rfl, rfl⟩ := Prod.mk.inj (Option.some.inj hnew)
      split at hptr
      · cases hptr
      · next hne =>
          rw [← Option.some.inj hptr]
          exact h.kzalloc_block h₀ (by decide)
            (show sizeofDiskStream ≤ benosHeapBlockSize by decide) hne

/-- The private data has three of them. -/
theorem fat16InitPrivate_lent (h : Lent heap₀ r.heap own) (h₀ : Clean heap₀)
    (hinit : fat16InitPrivate kernelAllocator r = some r') :
    ∃ streams : List Addr, streams.length = 3
      ∧ Lent heap₀ r'.heap (streams.map (fun a => (a, 1)) ++ own) := by
  unfold fat16InitPrivate at hinit
  obtain ⟨⟨s₁, r₁⟩, hs₁, hinit⟩ := Option.bind_eq_some_iff.mp hinit
  obtain ⟨⟨s₂, r₂⟩, hs₂, hinit⟩ := Option.bind_eq_some_iff.mp hinit
  obtain ⟨⟨s₃, r₃⟩, hs₃, hinit⟩ := Option.bind_eq_some_iff.mp hinit
  obtain rfl := Option.some.inj hinit
  have hlent₁ := diskstreamerNew_lent h h₀ hs₁
  have hlent₂ := diskstreamerNew_lent hlent₁ h₀ hs₂
  exact ⟨[s₃, s₂, s₁], rfl, diskstreamerNew_lent hlent₂ h₀ hs₃⟩

/-- The root directory is not loaded only where its memory is refused. -/
theorem fat16GetRootDir_refused (hclean : Clean r.heap) {disk : Image UInt8}
    {header : FatHeader} {res : Int} {dir : Option FatDir}
    (h : fat16GetRootDir kernelAllocator disk header r = some (res, dir, r'))
    (hres : res ≠ benosAllOk) : r'.heap = r.heap := by
  unfold fat16GetRootDir at h
  obtain ⟨total, -, h⟩ := Option.bind_eq_some_iff.mp h
  rw [kernelAllocator_kzalloc] at h
  split at h
  · next heq =>
      obtain ⟨hptr, rfl⟩ := Prod.mk.inj heq
      obtain ⟨-, hrest⟩ := Prod.mk.inj (Option.some.inj h)
      rw [← (Prod.mk.inj hrest).2]
      split at hptr
      · next hnull => exact (kzalloc_refused hclean hnull).1
      · cases hptr
  · obtain ⟨read, hread, h⟩ := Option.bind_eq_some_iff.mp h
    change diskstreamerRead disk (toInt32 (rootDirPos header)) _ = _ at hread
    rw [rootDir_read] at hread
    rw [← Option.some.inj hread, if_neg (by simp)] at h
    exact absurd (Prod.mk.inj (Option.some.inj h)).1.symm hres

/-- Where the disk is rejected, its boot sector and root directory have
taken no memory. -/
theorem fat16ResolveFrom_rejects (hclean : Clean r.heap) {disk : Image UInt8}
    {res : Int} {vol : Option Volume}
    (h : fat16ResolveFrom kernelAllocator disk r = some (res, vol, r'))
    (hres : res < 0) : r'.heap = r.heap := by
  unfold fat16ResolveFrom at h
  obtain ⟨read, -, h⟩ := Option.bind_eq_some_iff.mp h
  split at h
  · rw [← (Prod.mk.inj (Prod.mk.inj (Option.some.inj h)).2).2]
  · split at h
    · rw [← (Prod.mk.inj (Prod.mk.inj (Option.some.inj h)).2).2]
    · obtain ⟨⟨res', dir, r₁⟩, hroot, h⟩ := Option.bind_eq_some_iff.mp h
      simp only at h
      split at h
      · next hne =>
          rw [← (Prod.mk.inj (Prod.mk.inj (Option.some.inj h)).2).2]
          exact fat16GetRootDir_refused hclean hroot hne
      · have hzero := (Prod.mk.inj (Option.some.inj h)).1
        omega

-- ================================================================== what is left

/-- A disk that is rejected keeps the file system, and the heap the three
streams. -/
theorem resolve_rejected (hclean : Clean r.heap) {fat16Fs : Addr}
    {disk : Image UInt8} {fields fields' : DiskFields} {res : Int}
    {vol : Option Volume}
    (h : fat16ResolveDisk kernelAllocator fat16Fs disk fields r
      = some (res, vol, fields', r'))
    (hres : res < 0) :
    fields' = { fsPrivate := 0#32, filesystem := fat16Fs }
      ∧ ∃ streams : List Addr, streams.length = 3
        ∧ Lent r.heap r'.heap (streams.map fun a => (a, 1)) := by
  unfold fat16ResolveDisk at h
  rw [kernelAllocator_kzalloc] at h
  split at h
  · cases h
  · next fatPrivate r₁ heq =>
      obtain ⟨hptr, rfl⟩ := Prod.mk.inj heq
      split at hptr
      · cases hptr
      · next hne =>
          obtain rfl := Option.some.inj hptr
          have hlent₁ := (Lent.refl r.heap).kzalloc_block hclean (by decide)
            (show sizeofFatPrivate ≤ benosHeapBlockSize by decide) hne
          obtain ⟨r₂, hinit, h⟩ := Option.bind_eq_some_iff.mp h
          obtain ⟨⟨stream, r₃⟩, hstream, h⟩ := Option.bind_eq_some_iff.mp h
          obtain ⟨⟨res', vol', r₄⟩, hfrom, h⟩ := Option.bind_eq_some_iff.mp h
          obtain ⟨streams, hlen, hlent₂⟩ :=
            fat16InitPrivate_lent hlent₁ hclean hinit
          have hlent₃ := diskstreamerNew_lent hlent₂ hclean hstream
          simp only at h hfrom
          split at h
          · next hneg =>
              obtain ⟨-, hrest⟩ := Prod.mk.inj (Option.some.inj h)
              obtain ⟨-, hrest⟩ := Prod.mk.inj hrest
              obtain ⟨hfields, hr'⟩ := Prod.mk.inj hrest
              have hheap :=
                fat16ResolveFrom_rejects (hlent₃.clean hclean) hfrom hneg
              rw [← hheap] at hlent₃
              have hlent₄ := (hlent₃.heapFree hclean).perm
                List.perm_append_comm
              have hlent₅ := hlent₄.heapFree hclean
              refine ⟨hfields.symm, streams, hlen, ?_⟩
              rw [← hr']
              exact hlent₅
          · next hnn =>
              have hval := (Prod.mk.inj (Option.some.inj h)).1
              omega

/-- On every heap the kernel can have, no disk is rejected without a
trace. -/
theorem resolve_leaves_trace (hclean : Clean r.heap) (fat16Fs : Addr)
    (disk : Image UInt8) (fields : DiskFields) :
    ¬ NoTrace fat16Fs disk fields r := by
  rintro ⟨res, vol, fields', r', h, hres, -, hsame⟩
  obtain ⟨-, streams, hlen, hlent⟩ := resolve_rejected hclean h hres
  cases streams with
  | nil => cases hlen
  | cons a streams => exact hlent.not_sameTable hsame

/-- A disk of zeros, probed on the heap the kernel starts with. -/
theorem resolve_leaves_trace_zeros :
    ¬ NoTrace 0x00108000#32 (fun _ _ => 0) ⟨0#32, 0#32⟩
      ⟨emptyHeap, fun _ => 0, true⟩ :=
  resolve_leaves_trace (ramOk_empty _ true).clean _ _ _

/-- A stream is to be had where there is room for it. -/
theorem diskstreamerNew_room {k : Nat} (h : Room r k)
    (hroom : k + 1 ≤ r.heap.table.total) :
    ∃ stream r', diskstreamerNew kernelAllocator r = some (stream, r')
      ∧ Room r' (k + 1) ∧ r'.heap.table.total = r.heap.table.total := by
  obtain ⟨hne, hroom', htotal, -⟩ :=
    h.kzalloc (show 1 ≤ sizeofDiskStream by decide) hroom
  refine ⟨(kzalloc sizeofDiskStream r).1, (kzalloc sizeofDiskStream r).2, ?_,
    hroom', htotal⟩
  unfold diskstreamerNew
  rw [kernelAllocator_kzalloc, if_neg hne]

/-- A disk without the signature is rejected, but stays bound to FAT16, and
three blocks of the heap stay taken. -/
theorem rejected_keeps_streams :
    ∃ r', fat16ResolveDisk kernelAllocator 0x00108000#32 (fun _ _ => 0)
        ⟨0#32, 0#32⟩ ⟨emptyHeap, fun _ => 0, true⟩
        = some (-efsnotus, none, ⟨0#32, 0x00108000#32⟩, r')
      ∧ ¬ SameTable emptyHeap r'.heap
      ∧ ¬ NoTrace 0x00108000#32 (fun _ _ => 0) ⟨0#32, 0#32⟩
        ⟨emptyHeap, fun _ => 0, true⟩ := by
  have hroom := room_empty (fun _ => 0) true
  obtain ⟨hne, hroom₁, htotal₁, -⟩ :=
    hroom.kzalloc (show 1 ≤ sizeofFatPrivate by decide) (by decide)
  obtain ⟨s₁, r₁, hs₁, hroom₂, htotal₂⟩ := diskstreamerNew_room hroom₁ (by
    rw [htotal₁]
    decide)
  obtain ⟨s₂, r₂, hs₂, hroom₃, htotal₃⟩ := diskstreamerNew_room hroom₂ (by
    rw [htotal₂, htotal₁]
    decide)
  obtain ⟨s₃, r₃, hs₃, hroom₄, htotal₄⟩ := diskstreamerNew_room hroom₃ (by
    rw [htotal₃, htotal₂, htotal₁]
    decide)
  obtain ⟨s₄, r₄, hs₄, -, -⟩ := diskstreamerNew_room hroom₄ (by
    rw [htotal₄, htotal₃, htotal₂, htotal₁]
    decide)
  have hread : (diskstreamerRead (fun _ _ => (0 : UInt8)) 0 sizeofFatH).map
      (fun o => (o.res, fatHSignature o.out)) = some (0, 0) := by
    decide +kernel
  obtain ⟨read, hread, hvalues⟩ := Option.map_eq_some_iff.mp hread
  obtain ⟨hres, hsignature⟩ := Prod.mk.inj hvalues
  have hfrom : fat16ResolveFrom kernelAllocator (fun _ _ => 0) r₄
      = some (-efsnotus, none, r₄) := by
    unfold fat16ResolveFrom
    rw [hread, Option.bind_eq_bind, Option.bind_some, if_neg (by rw [hres]; simp),
      if_pos (by rw [hsignature]; decide)]
  have hresolve : ∃ r', fat16ResolveDisk kernelAllocator 0x00108000#32
      (fun _ _ => 0) ⟨0#32, 0#32⟩ ⟨emptyHeap, fun _ => 0, true⟩
        = some (-efsnotus, none, ⟨0#32, 0x00108000#32⟩, r') := by
    unfold fat16ResolveDisk fat16InitPrivate
    rw [kernelAllocator_kzalloc, if_neg hne]
    simp only [hs₁, hs₂, hs₃, hs₄, hfrom, Option.bind_eq_bind, Option.bind_some]
    exact ⟨_, rfl⟩
  have hclean : Clean emptyHeap := (ramOk_empty (fun _ => 0) true).clean
  obtain ⟨r', hout⟩ := hresolve
  obtain ⟨-, streams, hlen, hlent⟩ := resolve_rejected hclean hout (by decide)
  have hother : ¬ SameTable emptyHeap r'.heap := by
    cases streams with
    | nil => cases hlen
    | cons a streams => exact hlent.not_sameTable
  refine ⟨r', hout, hother, ?_⟩
  rintro ⟨res, vol, fields', r'', h, -, -, hsame⟩
  rw [hout] at h
  have hr := congrArg (fun o => o.2.2.2) (Option.some.inj h)
  simp only at hr
  rw [← hr] at hsame
  exact hother hsame

end BenOS.Fs
