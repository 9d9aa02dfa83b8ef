import MoonlightKernel.Process.MemoryAdd
import MoonlightKernel.Process.Search

/-!
# `mmap`

`mmap` looks for room among the maps of the process and hands what it finds to
`process_memory_add`.

* `mmap` — the source function;
* `mmap_keeps_disjoint` — the new map shares nothing with the old ones.
-/

set_option autoImplicit false

namespace Moonlight

open Sys Sys.Bitmap

def ENOSYS : Int := 38

def PROT_READ : Nat := 1
def PROT_WRITE : Nat := 2
def PROT_EXEC : Nat := 1

def MAP_ANON : Nat := 1

/-! ## The source function -/

/-- The page flags that `mmap` derives from `prot`. -/
def mmapFlags (prot : Nat) : Nat :=
  let mflags := PAGE_PRESENT
  let mflags := if prot &&& PROT_READ ≠ 0 then mflags ||| PAGE_USER_SUPERVISOR else mflags
  let mflags := if prot &&& PROT_WRITE ≠ 0 then mflags ||| (PAGE_USER_SUPERVISOR ||| PAGE_WRITE)
    else mflags
  if prot &&& PROT_EXEC ≠ 0 then mflags ||| PAGE_USER_SUPERVISOR else mflags

/-- `mmap`: the address of the new map, or a negative error code. -/
def mmap (L : Layout) (p addr size prot flags : Nat) (fd : Int) (offset : Nat) (k : Kernel) :
    Option (Int × Kernel) :=
  if size = 0 ∨ addr &&& PAGE_FLAG ≠ 0 then some (-EINVAL, k) else
  let size := mmapGetNumberOfPage size
  let pflags := if k.current = some p then PROC_MEM_ADD_HEAP ||| PROC_MEM_ADD_IMEDIATE
    else PROC_MEM_ADD_HEAP
  if flags &&& MAP_ANON = 0 ∨ fd ≠ -1 ∨ offset ≠ 0 then some (-ENOSYS, k) else
  (mmapChoose (k.proc p) addr size flags).map fun addr =>
    if addr < 0 then (addr, k) else
    let r := processMemoryAdd L p (size <<< 12) addr.toNat (mmapFlags prot) pflags k
    if r.1 ≠ 0 then r else (addr, r.2)

/-! ## The call -/

/-- **What a successful `mmap` leaves behind**: a new map in user space, disjoint from the old
ones, on fresh frames of zeros. -/
structure MmapDone (L : Layout) (p : Nat) (new : MapMemory) (k k' : Kernel) : Prop where
  user : 0x1000 ≤ new.vAddr ∧ new.vAddr + new.size * 4096 ≤ 0xC0000000
  disjoint : ∀ q ∈ (k.proc p).maps, new.Disjoint q
  proc : k'.proc p = { k.proc p with mmHeap := new :: (k.proc p).mmHeap }
  pairwise : (k'.proc p).maps.Pairwise MapMemory.Disjoint
  aligned : new.pAddr % 4096 = 0
  fresh : ∀ i < new.size, isFree k.machine.mmBitmap (new.frame i) = true ∧
    isFree k'.machine.mmBitmap (new.frame i) = false
  zero : ∀ i < new.size, ∀ j, k'.machine.ram (new.frame i) j = 0
  mapped : k.current = some p → ∀ i < new.size,
    TranslatesTo L k'.machine (new.page i) (new.frame i * 4096)

theorem mmapFlags_present (prot : Nat) : mmapFlags prot &&& PAGE_PRESENT ≠ 0 := by
  unfold mmapFlags
  dsimp only
  by_cases hr : prot &&& PROT_READ = 0 <;> by_cases hw : prot &&& PROT_WRITE = 0 <;>
    by_cases hx : prot &&& PROT_EXEC = 0 <;> simp [hr, hw, hx] <;> decide

/-- The new map goes to the heap, and is mapped at once for the running process. -/
theorem mmap_pflags (running : Prop) [Decidable running] :
    (if running then PROC_MEM_ADD_HEAP ||| PROC_MEM_ADD_IMEDIATE else PROC_MEM_ADD_HEAP) =
        PROC_MEM_ADD_HEAP ∨
      (if running then PROC_MEM_ADD_HEAP ||| PROC_MEM_ADD_IMEDIATE else PROC_MEM_ADD_HEAP) =
        PROC_MEM_ADD_HEAP ||| PROC_MEM_ADD_IMEDIATE := by
  split
  · exact .inr rfl
  · exact .inl rfl

theorem mmapGetNumberOfPage_spec {size : Nat} (h : size < 2 ^ 32) :
    mmapGetNumberOfPage size < 2 ^ 20 ∧
      (mmapGetNumberOfPage size = (size + 4095) / 4096 ∨ mmapGetNumberOfPage size = 0) := by
  unfold mmapGetNumberOfPage
  split
  · rw [shiftRight_page]
    unfold add32
    omega
  · rw [shiftRight_page]
    omega

/-- **User mappings stay disjoint under `mmap`.** -/
theorem mmap_keeps_disjoint (L : Layout) (p addr size prot flags : Nat) (fd : Int) (offset : Nat)
    (k : Kernel) (haddr : addr < 2 ^ 32) (hsize : size < 2 ^ 32)
    (hflags : flags &&& MAP_KERNEL_SPACE = 0) (hplaced : ∀ pm ∈ (k.proc p).maps, pm.Placed)
    (hdis : (k.proc p).maps.Pairwise MapMemory.Disjoint)
    (hpaging : k.current = some p → PagingOk L k.machine) :
    ∃ r k', mmap L p addr size prot flags fd offset k = some (r, k') ∧
      ((r < 0 ∧ (k'.proc p).maps = (k.proc p).maps) ∨
        ∃ new : MapMemory, r = new.vAddr ∧ new.size = (size + 4095) / 4096 ∧
          MmapDone L p new k k') := by
  unfold mmap
  rw [and_PAGE_FLAG]
  split
  · exact ⟨_, _, rfl, .inl ⟨by decide, rfl⟩⟩
  rename_i hargs
  dsimp only
  split
  · exact ⟨_, _, rfl, .inl ⟨by decide, rfl⟩⟩
  obtain ⟨hn, hpages⟩ := mmapGetNumberOfPage_spec hsize
  obtain ⟨r, hr, hfound⟩ := mmapChoose_spec (k.proc p) haddr (by omega) hn hflags
  rw [hr, Option.map_some]
  rcases hfound with hneg | ⟨a, rfl, hpos, hmod, hlo, hhi, hfree⟩
  · rw [if_pos hneg]
    exact ⟨_, _, rfl, .inl ⟨hneg, rfl⟩⟩
  have hhi : a + mmapGetNumberOfPage size * 4096 ≤ KERNEL_POS := by
    unfold KERNEL_POS at hhi ⊢
    omega
  rw [if_neg (by omega), shiftLeft_page, Int.toNat_natCast]
  have hpf := mmap_pflags (k.current = some p)
  have himm : (if k.current = some p then PROC_MEM_ADD_HEAP ||| PROC_MEM_ADD_IMEDIATE
      else PROC_MEM_ADD_HEAP) &&& PROC_MEM_ADD_IMEDIATE ≠ 0 ↔ k.current = some p := by
    split
    · rename_i hcur
      exact iff_of_true (by decide) hcur
    · rename_i hcur
      exact iff_of_false (by decide) hcur
  generalize (if k.current = some p then PROC_MEM_ADD_HEAP ||| PROC_MEM_ADD_IMEDIATE
    else PROC_MEM_ADD_HEAP) = pflags at hpf himm
  have hadd := processMemoryAdd_spec (L := L) (p := p) hpf (mmapFlags_present prot) hmod hhi
    (fun h => hpaging (himm.mp h))
  generalize processMemoryAdd L p (mmapGetNumberOfPage size * 4096) a (mmapFlags prot) pflags k = r
    at hadd ⊢
  rcases hadd with ⟨hneg, hproc⟩ | ⟨hok, f, hadd⟩
  · rw [if_pos (by omega)]
    exact ⟨_, _, rfl, .inl ⟨hneg, by rw [hproc]⟩⟩
  · rw [if_neg (not_not_intro hok)]
    have hdisj : ∀ q ∈ (k.proc p).maps,
        MapMemory.Disjoint ⟨a, f * 4096, mmapGetNumberOfPage size, mmapFlags prot⟩ q :=
      fun q hq => FreePages.disjoint hmod hfree hq (hplaced q hq)
    refine ⟨_, _, rfl, .inr ⟨_, rfl, hpages.resolve_right (Nat.ne_of_gt hpos),
      ⟨⟨hlo, hhi⟩, hdisj, hadd.proc, ?_, hadd.aligned, hadd.fresh, hadd.zero,
        fun hcur => hadd.mapped (himm.mpr hcur)⟩⟩⟩
    rw [hadd.proc]
    exact List.pairwise_cons.mpr ⟨hdisj, hdis⟩

/-- `Kernel.ready` as the running process, with records to allocate. -/
def Kernel.roomy : Kernel :=
  { Kernel.ready with current := some 1, kmallocs := fun i => some (100 + i) }

theorem roomy_maps : (Kernel.roomy.proc 1).maps =
    [⟨0x40000000, 0x600000, 1, 7⟩, ⟨0xBFFFF000, 0x601000, 1, 7⟩, ⟨0x40001000, 0x602000, 2, 7⟩] := rfl

/-- Three pages are found below the stack. -/
theorem roomy_mmap : ∃ new k', mmap .sample 1 0 0x2001 3 1 (-1) 0 .roomy = some (0xBFFFC000, k') ∧
    new.vAddr = 0xBFFFC000 ∧ new.size = 3 ∧ MmapDone .sample 1 new .roomy k' := by
  obtain ⟨r, k', h, hcase⟩ := mmap_keeps_disjoint .sample 1 0 0x2001 3 1 (-1) 0 .roomy (by decide)
    (by decide) (by decide) (by
      rw [roomy_maps]
      simp only [List.forall_mem_cons, MapMemory.Placed]
      refine ⟨fun _ => by decide, fun _ => by decide, fun _ => by decide, fun q hq => ?_⟩
      cases hq)
    (by
      rw [roomy_maps]
      simp only [MapMemory.Disjoint, MapMemory.Covers, List.pairwise_cons, List.mem_cons,
        List.not_mem_nil, or_false, forall_eq_or_imp, forall_eq]
      refine ⟨⟨fun v h h' => ?_, fun v h h' => ?_⟩, fun v h h' => ?_, by simp⟩ <;> omega)
    (fun _ => ready_paging)
  have hr : (mmap .sample 1 0 0x2001 3 1 (-1) 0 .roomy).map Prod.fst = some 0xBFFFC000 := by
    decide +kernel
  rw [h] at hr
  have hr : r = 0xBFFFC000 := Option.some.inj hr
  subst hr
  rcases hcase with ⟨hneg, -⟩ | ⟨new, hv, hsize, hdone⟩
  · exact absurd hneg (by decide)
  · exact ⟨new, k', h, by omega, hsize, hdone⟩

/-- A process with one heap map. -/
def Kernel.single (pm : MapMemory) (machine : Machine) (current : Option Nat) : Kernel :=
  { Kernel.roomy with
    machine := machine
    current := current
    proc := fun _ => { Process.zero with pid := 1, mmHeap := [pm] } }

theorem single_disjoint (pm : MapMemory) (machine : Machine) (current : Option Nat) :
    ((Kernel.single pm machine current).proc 1).maps.Pairwise MapMemory.Disjoint := by
  refine List.pairwise_pair.mpr fun v _ h => ?_
  have hcode : v < 0 + 0 * 4096 := h.2
  omega

/-- A map that does not start on a page, and one that ends with the address space, are not seen;
and the frame of a page table that is free gets the entry of the page it backs. -/
theorem mmap_overlaps :
    (∀ pm machine current,
      ((Kernel.single pm machine current).proc 1).maps.Pairwise MapMemory.Disjoint) ∧
    (∃ r k', mmap .sample 1 0x40000000 4096 1 3 (-1) 0
        (.single ⟨0x40000800, 0x600000, 1, 7⟩ Kernel.ready.machine none) = some (r, k') ∧ 0 ≤ r ∧
      ¬ (k'.proc 1).maps.Pairwise MapMemory.Disjoint) ∧
    (∃ r k', mmap .sample 1 0 4096 1 1 (-1) 0
        (.single ⟨0xBFFFF000, 0x600000, 0x40001, 7⟩ Kernel.ready.machine none) = some (r, k') ∧
      0 ≤ r ∧ ¬ (k'.proc 1).maps.Pairwise MapMemory.Disjoint) ∧
    (∃ r k', mmap .sample 1 0x40000000 4096 1 3 (-1) 0
        (.single ⟨0x50000000, 0x600000, 1, 7⟩
          (Kernel.ready.machine.setDir 256 0x4F8007) (some 1)) = some (r, k') ∧ 0 ≤ r ∧
      ∃ new, (k'.proc 1).mmHeap.head? = some new ∧ k'.machine.ram (new.frame 0) 0 ≠ 0) := by
  have hout (o : Option (Int × Kernel)) (r : Int) (maps : List MapMemory)
      (h : o.map (fun x => (x.1, (x.2.proc 1).maps)) = some (r, maps)) :
      ∃ k', o = some (r, k') ∧ (k'.proc 1).maps = maps := by
    obtain ⟨⟨r', k'⟩, ho, he⟩ := Option.map_eq_some_iff.mp h
    cases he
    exact ⟨k', ho, rfl⟩
  refine ⟨single_disjoint, ?_, ?_, ?_⟩
  · obtain ⟨k', hk', hmaps⟩ := hout (mmap .sample 1 0x40000000 4096 1 3 (-1) 0
        (.single ⟨0x40000800, 0x600000, 1, 7⟩ Kernel.ready.machine none)) 0x40000000
      [⟨0x40000000, 0x4F8000, 1, 5⟩, ⟨0x40000800, 0x600000, 1, 7⟩, ⟨0, 0, 0, 0⟩]
      (by decide +kernel)
    refine ⟨_, k', hk', by decide, fun hd => ?_⟩
    rw [hmaps] at hd
    exact (List.pairwise_cons.mp hd).1 _ List.mem_cons_self 0x40000800 ⟨by decide, by decide⟩
      ⟨by decide, by decide⟩
  · obtain ⟨k', hk', hmaps⟩ := hout (mmap .sample 1 0 4096 1 1 (-1) 0
        (.single ⟨0xBFFFF000, 0x600000, 0x40001, 7⟩ Kernel.ready.machine none)) 0xBFFFF000
      [⟨0xBFFFF000, 0x4F8000, 1, 5⟩, ⟨0xBFFFF000, 0x600000, 0x40001, 7⟩, ⟨0, 0, 0, 0⟩]
      (by decide +kernel)
    refine ⟨_, k', hk', by decide, fun hd => ?_⟩
    rw [hmaps] at hd
    exact (List.pairwise_cons.mp hd).1 _ List.mem_cons_self 0xBFFFF000 ⟨by decide, by decide⟩
      ⟨by decide, by decide⟩
  · have h : (mmap .sample 1 0x40000000 4096 1 3 (-1) 0
        (.single ⟨0x50000000, 0x600000, 1, 7⟩
          (Kernel.ready.machine.setDir 256 0x4F8007) (some 1))).map
        (fun x => (x.1, (x.2.proc 1).mmHeap.head?, x.2.machine.ram 0x4F8 0)) =
        some (0x40000000, some ⟨0x40000000, 0x4F8000, 1, 5⟩, 0x4F8005) := by decide +kernel
    obtain ⟨⟨r, k'⟩, ho, he⟩ := Option.map_eq_some_iff.mp h
    simp only [Prod.mk.injEq] at he
    obtain ⟨rfl, hhead, hram⟩ := he
    refine ⟨_, k', ho, by decide, _, hhead, ?_⟩
    have hframe : MapMemory.frame ⟨0x40000000, 0x4F8000, 1, 5⟩ 0 = 0x4F8 := rfl
    rw [hframe, hram]
    decide

end Moonlight
