import MoonlightKernel.Process.Life
import MoonlightKernel.Process.Maps
import MoonlightKernel.UnmapAt

/-!
# The memory of a dead process

`process_die_safe` gives the frames of every map back and, for the running process, asks
`page_unmap_at` to take the pages out of the page tables.  `page_unmap_at` never does
(`pageUnmapAt_state`), and it is given present flags, which it refuses:

* `isFree_freeMaps` — the frames of the maps become free, and no other frame changes;
* `nothing_left_mapped_iff` — the pages of the maps are gone exactly when there are none.
-/

set_option autoImplicit false

namespace Moonlight

open Sys Sys.Bitmap

theorem freeMap_eq (L : Layout) (isCurrent : Bool) (pm : MapMemory) (m : Machine) :
    freeMap L isCurrent pm m = m.setBitmap (freePhysBlock pm.pAddr pm.size m.mmBitmap) := by
  cases isCurrent <;> simp [freeMap, pageUnmapAt_state]

/-- The release of a list of maps changes `mm_bitmap` only. -/
theorem freeMaps_eq (L : Layout) (isCurrent : Bool) (maps : List MapMemory) (m : Machine) :
    ∃ bm, maps.foldl (fun m pm => freeMap L isCurrent pm m) m = m.setBitmap bm := by
  induction maps generalizing m with
  | nil => exact ⟨m.mmBitmap, rfl⟩
  | cons pm maps ih =>
    obtain ⟨bm, h⟩ := ih (freeMap L isCurrent pm m)
    refine ⟨bm, h.trans ?_⟩
    rw [freeMap_eq]
    rfl

theorem mem_frames_iff (pm : MapMemory) (f : Nat) :
    (pm.pAddr / 4096 ≤ f ∧ f < pm.pAddr / 4096 + pm.size) ↔ ∃ i, i < pm.size ∧ f = pm.frame i := by
  constructor
  · exact fun h => ⟨f - pm.pAddr / 4096, by omega, by unfold MapMemory.frame; omega⟩
  · rintro ⟨i, hi, rfl⟩
    unfold MapMemory.frame
    omega

/-- The frames of the maps become free, and no other frame changes. -/
theorem isFree_freeMaps (L : Layout) (isCurrent : Bool) {maps : List MapMemory}
    (hmaps : ∀ pm ∈ maps, pm.pAddr / 4096 + pm.size ≤ 2 ^ 20) (m : Machine) (f : Nat) :
    isFree (maps.foldl (fun m pm => freeMap L isCurrent pm m) m).mmBitmap f = true ↔
      isFree m.mmBitmap f = true ∨ ∃ v, Backs maps v f := by
  induction maps generalizing m with
  | nil => simp [Backs]
  | cons pm maps ih =>
    rw [List.foldl_cons, ih (fun q hq => hmaps q (List.mem_cons_of_mem _ hq)), freeMap_eq]
    have hfree : isFree (m.setBitmap (freePhysBlock pm.pAddr pm.size m.mmBitmap)).mmBitmap f = true ↔
        isFree m.mmBitmap f = true ∨ ∃ i, i < pm.size ∧ f = pm.frame i := by
      show isFree (freePhysBlock pm.pAddr pm.size m.mmBitmap) f = true ↔ _
      rw [isFree_freePhysBlock (hmaps pm List.mem_cons_self), Bool.or_eq_true, decide_eq_true_iff,
        mem_frames_iff]
    have hcons : (∃ v, Backs (pm :: maps) v f) ↔
        (∃ i, i < pm.size ∧ f = pm.frame i) ∨ ∃ v, Backs maps v f := by
      simp only [Backs.cons, exists_or]
      refine or_congr_left ⟨fun h => ?_, fun h => ?_⟩
      · obtain ⟨_, i, h1, -, h3⟩ := h
        exact ⟨i, h1, h3⟩
      · obtain ⟨i, h1, h3⟩ := h
        exact ⟨_, i, h1, rfl, h3⟩
    rw [hfree, hcons, or_assoc]

/-! ## The rest of `process_die_safe` and the machine -/

theorem addSignal_machine (sig : Int) (proc : Option Nat) (type : Nat) (k : Kernel) :
    (addSignal sig proc type k).2.machine = k.machine := by
  rcases addSignal_spec sig proc type k with ⟨p, k', -, rfl, h⟩ | h | h <;> rw [h] <;> rfl

theorem copySignals_machine (new : Nat) (queue : List SigQueue) (k : Kernel) :
    (queue.foldl (fun k s => (addSignal s.sigHandled (some new) s.state k).2) k).machine =
      k.machine := by
  induction queue generalizing k with
  | nil => rfl
  | cons s queue ih => rw [List.foldl_cons, ih, addSignal_machine]

theorem moveOrphans_machine (cs : List Nat) (k : Kernel) :
    (cs.foldl moveOrphan k).machine = k.machine := by
  induction cs generalizing k with
  | nil => rfl
  | cons c cs ih =>
    rw [List.foldl_cons, ih]
    unfold moveOrphan
    split <;> rfl

theorem freeProcess_machine (p : Nat) (k : Kernel) : (freeProcess p k).machine = k.machine := by
  unfold freeProcess
  dsimp only
  rw [Kernel.modify_machine, moveOrphans_machine]
  split <;> rfl

theorem notifyFather_machine (p : Nat) (k : Kernel) : (notifyFather p k).machine = k.machine := by
  unfold notifyFather
  split
  · dsimp only
    split
    · rw [freeProcess_machine, Kernel.modify_machine, addSignal_machine]
    · rw [Kernel.modify_machine, addSignal_machine]
  · rw [freeProcess_machine, Kernel.modify_machine]

theorem processDieSafe_machine (L : Layout) (p : Nat) (k : Kernel) :
    (processDieSafe L p k).machine = (processFreeAllMemory L p k).machine := by
  unfold processDieSafe
  dsimp only
  split
  · exact notifyFather_machine p _
  · exact notifyFather_machine p _

/-! ## What the death of the running process leaves behind -/

/-- Nothing of the maps is left: their frames are free, no other frame but those of page tables
has changed, and none of their pages is present. -/
structure NothingLeft (L : Layout) (maps : List MapMemory) (m m' : Machine) : Prop where
  frames : ∀ v f, Backs maps v f → isFree m'.mmBitmap f = true
  others : ∀ f, (∀ v, ¬ Backs maps v f) → (∀ d, HasTable m d → f ≠ tableFrame m d) →
    isFree m'.mmBitmap f = isFree m.mmBitmap f
  pages : ∀ v f, Backs maps v f → ¬ Present L m' v

/-- **The death of a process leaves nothing mapped exactly when it had no page**, the running
process included.  The frames are given back in any case (`isFree_freeMaps`). -/
theorem nothing_left_mapped_iff (L : Layout) (p : Nat) (k : Kernel)
    (hframes : ∀ pm ∈ (k.proc p).maps, pm.pAddr / 4096 + pm.size ≤ 2 ^ 20)
    (hpresent : ∀ v f, Backs (k.proc p).maps v f → Present L k.machine v) :
    NothingLeft L (k.proc p).maps k.machine (processDieSafe L p k).machine ↔
      ∀ pm ∈ (k.proc p).maps, pm.size = 0 := by
  rw [processDieSafe_machine]
  obtain ⟨bm, hbm⟩ := freeMaps_eq L (decide (k.current = some p)) (k.proc p).maps k.machine
  have hm : (processFreeAllMemory L p k).machine = k.machine.setBitmap bm := hbm
  have hfree := isFree_freeMaps L (decide (k.current = some p)) hframes k.machine
  rw [hbm] at hfree
  rw [hm]
  constructor
  · intro h pm hpm
    by_contra hsize
    -- the first page of a map that has one is present, before and after
    have hb : Backs (k.proc p).maps (pm.page 0) (pm.frame 0) :=
      ⟨pm, hpm, 0, Nat.pos_of_ne_zero hsize, rfl, rfl⟩
    exact h.pages _ _ hb (present_setBitmap.mpr (hpresent _ _ hb))
  · intro hz
    have hno : ∀ v f, ¬ Backs (k.proc p).maps v f := by
      rintro v f ⟨pm, hpm, i, hi, -⟩
      rw [hz pm hpm] at hi
      exact Nat.not_lt_zero i hi
    refine ⟨fun v f hb => absurd hb (hno v f), fun f _ _ => ?_, fun v f hb => absurd hb (hno v f)⟩
    rw [Bool.eq_iff_iff, hfree]
    simp [hno]

/-- A running process with one code page, mapped at 1 GiB. -/
def Kernel.dying : Kernel where
  machine :=
    { mmBitmap := fun _ => 0
      pageDirectory := fun d => if d = 768 then 0x110001 else if d = 256 then 0x300003 else 0
      ram := fun f i => if f = 0x300 ∧ i = 0 then 0x501007 else 0 }
  kmallocs := fun _ => none
  current := some 1
  processList := [1]
  proc := fun _ => { Process.zero with pid := 1, mmCode := ⟨0x40000000, 0x501000, 1, 7⟩ }
  lastPid := 2

/-- Its page is present before and after, and the frame behind it is free. -/
theorem dying_page_stays_present :
    Present .sample Kernel.dying.machine 0x40000000 ∧
      isFree (processDieSafe .sample 1 .dying).machine.mmBitmap 0x501 = true ∧
      ¬ NothingLeft .sample (Kernel.dying.proc 1).maps Kernel.dying.machine
        (processDieSafe .sample 1 .dying).machine := by
  refine ⟨by decide +kernel, by decide +kernel, fun h => ?_⟩
  refine h.pages 0x40000000 0x501 ⟨_, List.mem_singleton_self _, 0, by decide, rfl, rfl⟩ ?_
  decide +kernel

/-- The same process before its pages are added. -/
theorem pageless_process_leaves_nothing :
    let k := Kernel.dying.modify 1 fun _ => Process.zero
    NothingLeft .sample (k.proc 1).maps k.machine (processDieSafe .sample 1 k).machine := by
  refine (nothing_left_mapped_iff .sample 1 _ (by decide) ?_).mpr (by decide)
  rintro v f ⟨pm, hpm, i, hi, -⟩
  rw [List.mem_singleton.mp hpm] at hi
  exact absurd hi (Nat.not_lt_zero i)

end Moonlight
