import MoonlightKernel.Process.Inheritance
import MoonlightKernel.Process.Mmap

/-!
# The blocks of a new map

`process_memory_add` takes a block for the record of a new map and frames for its pages.

* `Tracked.processMemoryAdd` — the source function with `kmalloc` and `kfree`;
* `processMemoryFill_kernel`, `processMemoryAdd_kernel` — on the kernel state each is the function
  without them;
* `processMemoryAdd_tracked` — what is done with the record and the frames.
-/

set_option autoImplicit false

namespace Moonlight

open Sys Sys.Bitmap

namespace Tracked

/-! ## The source functions -/

/-- The record `a` of a new map goes to the list of its map; the record of the code map is copied
into the process and freed. -/
def addRecord (p pflags a : Nat) (t : Tracked) : Tracked :=
  if pflags = PROC_MEM_ADD_HEAP then t.record p fun r => { r with heap := a :: r.heap }
  else if pflags = PROC_MEM_ADD_STACK then t.record p fun r => { r with stack := a :: r.stack }
  else t.kfree a

/-- `process_memory_add` once `get_phys_block` has succeeded; the record is at `a`. -/
def processMemoryFill (L : Layout) (p a : Nat) (pm : MapMemory) (pflags : Nat) (t : Tracked) :
    Int × Tracked :=
  let err2 (ret : Int) (m : Machine) : Int × Tracked :=
    (ret, (t.setKernel
      (t.kernel.setMachine (m.setBitmap (freePhysBlock pm.pAddr pm.size m.mmBitmap)))).kfree a)
  let r := physBzero L pm.pAddr pm.size t.kernel.machine
  if r.1 ≠ 0 then err2 r.1 r.2 else
  let r := if pflags &&& PROC_MEM_ADD_IMEDIATE ≠ 0
    then pageMapRange L pm.pAddr pm.vAddr pm.flags pm.size r.2 else (0, r.2)
  if r.1 ≠ 0 then err2 r.1 r.2 else
  let pflags := if pflags &&& PROC_MEM_ADD_IMEDIATE ≠ 0
    then pflags - PROC_MEM_ADD_IMEDIATE else pflags
  match (t.kernel.proc p).addMap pflags pm with
  | some pr =>
    (0, ((t.setKernel (t.kernel.setMachine r.2)).modify p fun _ => pr).addRecord p pflags a)
  | none => err2 (-EINVAL) r.2

/-- `process_memory_add`. -/
def processMemoryAdd (L : Layout) (p size vAddr mflags pflags : Nat) (t : Tracked) : Int × Tracked :=
  let size := add32 size (vAddr - (vAddr &&& PAGE_ADDR))
  let vAddr := vAddr &&& PAGE_ADDR
  let size := if size % 4096 ≠ 0 then (size >>> 12) + 1 else size >>> 12
  let q := pageGetPhys L vAddr t.kernel.machine
  let t := t.setKernel (t.kernel.setMachine q.2)
  if q.1 ≠ 0 then (-ENOMEM, t) else
  if mflags &&& PAGE_PRESENT = 0 then (-EINVAL, t) else
  match t.kmalloc with
  | (none, t) => (-ENOMEM, t)
  | (some a, t) =>
    let new := getPhysBlock size t.kernel.machine.mmBitmap
    let t := t.setKernel (t.kernel.setMachine (t.kernel.machine.setBitmap new.2))
    if new.1 = 0 then (-ENOMEM, t.kfree a)
    else t.processMemoryFill L p a ⟨vAddr, new.1, size, mflags⟩ pflags

/-! ## The kernel state of each function -/

section kernel

variable (t : Tracked)

@[simp] theorem addRecord_kernel (p pflags a : Nat) : (t.addRecord p pflags a).kernel = t.kernel := by
  unfold addRecord
  split
  · rfl
  split
  · rfl
  · rfl

theorem processMemoryFill_kernel (L : Layout) (p a : Nat) (pm : MapMemory) (pflags : Nat) :
    ((t.processMemoryFill L p a pm pflags).1, (t.processMemoryFill L p a pm pflags).2.kernel) =
      Moonlight.processMemoryFill L p pm pflags t.kernel := by
  unfold processMemoryFill Moonlight.processMemoryFill
  generalize physBzero L pm.pAddr pm.size t.kernel.machine = r
  dsimp only
  by_cases h₁ : r.1 ≠ 0
  · rw [if_pos h₁, if_pos h₁]
    rfl
  rw [if_neg h₁, if_neg h₁]
  generalize (if pflags &&& PROC_MEM_ADD_IMEDIATE ≠ 0
    then pageMapRange L pm.pAddr pm.vAddr pm.flags pm.size r.2 else (0, r.2)) = r
  by_cases h₂ : r.1 ≠ 0
  · rw [if_pos h₂, if_pos h₂]
    rfl
  rw [if_neg h₂, if_neg h₂]
  generalize (if pflags &&& PROC_MEM_ADD_IMEDIATE ≠ 0
    then pflags - PROC_MEM_ADD_IMEDIATE else pflags) = pflags
  cases (t.kernel.proc p).addMap pflags pm with
  | none => rfl
  | some pr => exact Prod.ext rfl (addRecord_kernel ..)

theorem processMemoryAdd_kernel (L : Layout) (p size vAddr mflags pflags : Nat) :
    ((t.processMemoryAdd L p size vAddr mflags pflags).1,
      (t.processMemoryAdd L p size vAddr mflags pflags).2.kernel) =
      Moonlight.processMemoryAdd L p size vAddr mflags pflags t.kernel := by
  unfold processMemoryAdd Moonlight.processMemoryAdd
  dsimp only
  generalize (if add32 size (vAddr - (vAddr &&& PAGE_ADDR)) % 4096 ≠ 0
    then (add32 size (vAddr - (vAddr &&& PAGE_ADDR)) >>> 12) + 1
    else add32 size (vAddr - (vAddr &&& PAGE_ADDR)) >>> 12) = n
  generalize pageGetPhys L (vAddr &&& PAGE_ADDR) t.kernel.machine = q
  by_cases h₁ : q.1 ≠ 0
  · rw [if_pos h₁, if_pos h₁]
    rfl
  rw [if_neg h₁, if_neg h₁]
  by_cases h₂ : mflags &&& PAGE_PRESENT = 0
  · rw [if_pos h₂, if_pos h₂]
    rfl
  rw [if_neg h₂, if_neg h₂]
  -- the query moves the window
  generalize hs : t.setKernel (t.kernel.setMachine q.2) = s
  have hk : t.kernel.setMachine q.2 = s.kernel := by rw [← hs, setKernel_kernel]
  rw [hk, ← s.kmalloc_kernel]
  rcases s.kmalloc_spec with ⟨-, he⟩ | ⟨a, -, he⟩
  · rw [he]
  · rw [he]
    dsimp only
    by_cases h₃ : (getPhysBlock n s.kernel.kmalloc.2.machine.mmBitmap).1 = 0
    · rw [if_pos h₃, if_pos h₃]
      rfl
    · rw [if_neg h₃, if_neg h₃]
      exact processMemoryFill_kernel ..

end kernel

end Tracked

/-! ## What is taken -/

/-- `process_memory_add` is refused with nothing but the window moved, or goes on with a record and
frames. -/
theorem processMemoryAdd_tracked (L : Layout) (p size vAddr pflags : Nat) (t : Tracked)
    {mflags : Nat} (hmf : mflags &&& PAGE_PRESENT ≠ 0) :
    (AddRefused L t.kernel (vAddr &&& PAGE_ADDR) (addPages size vAddr) ∧
      (t.processMemoryAdd L p size vAddr mflags pflags).2.kernel.machine =
        (pageGetPhys L (vAddr &&& PAGE_ADDR) t.kernel.machine).2 ∧
      (t.processMemoryAdd L p size vAddr mflags pflags).2.kernel.proc = t.kernel.proc ∧
      (t.processMemoryAdd L p size vAddr mflags pflags).2.recs = t.recs ∧
      (t.processMemoryAdd L p size vAddr mflags pflags).2.live = t.live) ∨
    (¬ AddRefused L t.kernel (vAddr &&& PAGE_ADDR) (addPages size vAddr) ∧
      ∃ (f a : Nat) (s : Tracked), AddStarted t.kernel (addPages size vAddr) f s.kernel ∧
        s.kernel.machine = (pageGetPhys L (vAddr &&& PAGE_ADDR) t.kernel.machine).2.setBitmap
          (clearRun f (addPages size vAddr) t.kernel.machine.mmBitmap) ∧
        s.recs = t.recs ∧ s.live = a ::ₘ t.live ∧
        t.processMemoryAdd L p size vAddr mflags pflags =
          s.processMemoryFill L p a ⟨vAddr &&& PAGE_ADDR, f * 4096, addPages size vAddr, mflags⟩
            pflags) := by
  unfold addPages Tracked.processMemoryAdd
  dsimp only
  generalize (if add32 size (vAddr - (vAddr &&& PAGE_ADDR)) % 4096 ≠ 0 then _ else _ : Nat) = n
  generalize vAddr &&& PAGE_ADDR = v
  by_cases hphys : (pageGetPhys L v t.kernel.machine).1 = 0
  · rw [if_neg (not_not.mpr hphys), if_neg hmf]
    obtain ⟨hdir, hbm⟩ := pageGetPhys_keeps L v t.kernel.machine
    rcases (t.setKernel (t.kernel.setMachine (pageGetPhys L v t.kernel.machine).2)).kmalloc_spec with
      ⟨hno, he⟩ | ⟨a, ha, he⟩
    · rw [he]
      exact .inl ⟨.record hno, rfl, rfl, rfl, rfl⟩
    · rw [he]
      dsimp only
      have hmach : (t.setKernel (t.kernel.setMachine
          (pageGetPhys L v t.kernel.machine).2)).kernel.kmalloc.2.machine =
          (pageGetPhys L v t.kernel.machine).2 := rfl
      rw [hmach, hbm]
      rcases getPhysBlock_spec n t.kernel.machine.mmBitmap with hg | ⟨f, hg, hlo, hhi, hfree⟩
      · rw [hg, if_pos rfl]
        refine .inl ⟨.frames (by rw [hg]), ?_, rfl, rfl, ?_⟩
        · rw [← hbm]
          rfl
        · exact Multiset.erase_cons_head ..
      · rw [hg, if_neg (by dsimp only; omega)]
        refine .inr ⟨?_, f, a, _, ?_, ?_, ?_, ?_, rfl⟩
        · rintro (h | h | h)
          · exact h hphys
          · exact absurd (ha.symm.trans h) (by simp)
          · rw [hg] at h
            dsimp only at h
            omega
        · exact ⟨hlo, hhi, hfree, hg, hdir, rfl, rfl⟩
        · rfl
        · rfl
        · rfl
  · rw [if_pos hphys]
    exact .inl ⟨.present hphys, rfl, rfl, rfl, rfl⟩

end Moonlight
