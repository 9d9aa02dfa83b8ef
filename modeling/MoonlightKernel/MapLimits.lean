import Mathlib.Data.Finset.Card
import Mathlib.Order.Interval.Finset.Nat
import MoonlightKernel.FrameLimits
import MoonlightKernel.Unmap

/-!
# When a run of pages can be mapped

`page_map_range` with `PAGE_PRESENT` fails when it meets a page of four megabytes, or when there is
no frame left for a table that is missing.  Both can be told from the directory and from
`mm_bitmap` before the call.

* `tableRoom` — the frames that can still become tables, and `missing` — the directory entries of a
  run that want one;
* `pageMap_ok_iff` — one page;
* `pageMapLoop_ok_iff` — a run of pages, wherever it starts and whatever it wraps around.
-/

set_option autoImplicit false

namespace Moonlight

open Sys Sys.Bitmap

/-- The frames that `get_phys_block(1)` can hand out. -/
def tableRoom (mmBitmap : Bytes) : Finset Nat :=
  (Finset.Ico firstPage (MAX_RAM_PAGE - 1)).filter fun f => isFree mmBitmap f = true

theorem mem_tableRoom {bm : Bytes} {f : Nat} : f ∈ tableRoom bm ↔
    (firstPage ≤ f ∧ f < MAX_RAM_PAGE - 1) ∧ isFree bm f = true := by
  rw [tableRoom, Finset.mem_filter, Finset.mem_Ico]

theorem getPhysBlock_one_iff (bm : Bytes) :
    (getPhysBlock 1 bm).1 ≠ 0 ↔ 0 < (tableRoom bm).card := by
  rw [getPhysBlock_ne_zero_iff, Finset.card_pos]
  constructor
  · rintro ⟨p, hlo, hhi, hfree⟩
    exact ⟨p, mem_tableRoom.mpr ⟨⟨hlo, hhi⟩, hfree p (Nat.le_refl p) (Nat.lt_succ_self p)⟩⟩
  · rintro ⟨p, hp⟩
    obtain ⟨⟨hlo, hhi⟩, hfree⟩ := mem_tableRoom.mp hp
    refine ⟨p, hlo, hhi, fun q h1 h2 => ?_⟩
    obtain rfl : q = p := by omega
    exact hfree

/-- The directory entries of the pages `i`, …, `i + n - 1` of a run that have no table. -/
def missing (m : Machine) (va i n : Nat) : Finset Nat :=
  ((Finset.Ico i (i + n)).image fun j => dirIndex (runPage va j)).filter fun d =>
    m.pageDirectory d &&& PAGE_PRESENT = 0

theorem mem_missing {m : Machine} {va i n d : Nat} : d ∈ missing m va i n ↔
    (∃ j, (i ≤ j ∧ j < i + n) ∧ dirIndex (runPage va j) = d) ∧
      m.pageDirectory d &&& PAGE_PRESENT = 0 := by
  simp only [missing, Finset.mem_filter, Finset.mem_image, Finset.mem_Ico]

/-- The pages `i`, …, `i + n - 1` of a run can be mapped: no page of four megabytes is in the way,
and there is a frame for every table that is missing. -/
structure RunFits (m : Machine) (va i n : Nat) : Prop where
  small : ∀ j, i ≤ j → j < i + n → m.pageDirectory (dirIndex (runPage va j)) &&& PAGE_SIZE = 0
  frames : (missing m va i n).card ≤ (tableRoom m.mmBitmap).card

variable {L : Layout} {pa va flag : Nat} {m m₁ m' : Machine}

theorem RunFits.zero (m : Machine) (va i : Nat) : RunFits m va i 0 := by
  refine ⟨fun j h1 h2 => by omega, ?_⟩
  have hnone : missing m va i 0 = ∅ := by
    refine Finset.eq_empty_of_forall_notMem fun d hd => ?_
    obtain ⟨⟨j, hj, -⟩, -⟩ := mem_missing.mp hd
    omega
  rw [hnone]
  exact Nat.zero_le _

/-- **One page can be mapped** when its directory entry is no page of four megabytes, and has a
table or gets a frame for one. -/
theorem pageMap_ok_iff (hpa : pa % 4096 = 0) (hva : va % 4096 = 0) (hfa : flag &&& PAGE_ADDR = 0)
    (hflag : flag &&& PAGE_PRESENT ≠ 0) :
    (pageMap L pa va flag m).1 = 0 ↔ m.pageDirectory (dirIndex va) &&& PAGE_SIZE = 0 ∧
      (m.pageDirectory (dirIndex va) &&& PAGE_PRESENT = 0 → (getPhysBlock 1 m.mmBitmap).1 ≠ 0) := by
  constructor
  · intro h
    have hpair : pageMap L pa va flag m = (0, (pageMap L pa va flag m).2) := Prod.ext h rfl
    obtain ⟨-, -, -, t, m₁, hopen, -⟩ := pageMap_ok hflag hpair
    cases hopen with
    | present ht => exact ⟨ht.2, fun habs => absurd habs ht.1⟩
    | fresh habs hsize hget hlo =>
      refine ⟨hsize, fun _ => ?_⟩
      rw [hget]
      dsimp only
      omega
  · rintro ⟨hsize, hget⟩
    unfold pageMap
    rw [and_PAGE_FLAG, and_PAGE_FLAG, if_neg (by omega), if_neg (by omega), if_neg (not_not.mpr hfa),
      if_neg hflag]
    dsimp only
    rw [if_neg (not_not.mpr hsize), if_neg fun h => hget h.1 h.2, PAGE_GET_ADDR_dir,
      accessTable_pageSwap, if_neg (not_not.mpr rfl)]
    unfold pageEntrySet
    rw [and_PAGE_FLAG, if_neg (by omega), if_neg (not_not.mpr hfa),
      if_neg (Nat.not_le.mpr (tableIndex_lt va))]

/-- Opening a table uses up one frame and one of the missing tables, or none of either. -/
theorem OpenTable.runFits_iff {i n t : Nat} (h : OpenTable m (dirIndex (runPage va i)) t m₁)
    (hdir : m'.pageDirectory = m₁.pageDirectory) (hbm : m'.mmBitmap = m₁.mmBitmap) :
    RunFits m va i (n + 1) ↔ RunFits m' va (i + 1) n := by
  have hsize : ∀ d, m'.pageDirectory d &&& PAGE_SIZE = 0 ↔ m.pageDirectory d &&& PAGE_SIZE = 0 := by
    intro d
    rw [hdir]
    by_cases hd : d = dirIndex (runPage va i)
    · subst hd
      refine iff_of_true h.hasTable.1.2 ?_
      cases h with
      | present ht => exact ht.2
      | fresh _ hs => exact hs
    · rw [h.dir_of_ne hd]
  have hfirst : m.pageDirectory (dirIndex (runPage va i)) &&& PAGE_SIZE = 0 :=
    (hsize _).mp (by rw [hdir]; exact h.hasTable.1.2)
  have hsmall : (∀ j, i ≤ j → j < i + (n + 1) →
        m.pageDirectory (dirIndex (runPage va j)) &&& PAGE_SIZE = 0) ↔
      ∀ j, i + 1 ≤ j → j < i + 1 + n →
        m'.pageDirectory (dirIndex (runPage va j)) &&& PAGE_SIZE = 0 := by
    constructor
    · exact fun hall j h1 h2 => (hsize _).mpr (hall j (by omega) (by omega))
    · intro hall j h1 h2
      by_cases hj : j = i
      · rw [hj]
        exact hfirst
      · exact (hsize _).mp (hall j (by omega) (by omega))
  -- the entry that has been opened is missing no longer, the others are as before
  have hmissing : ∀ d, d ∈ missing m' va (i + 1) n ↔
      d ∈ missing m va i (n + 1) ∧ d ≠ dirIndex (runPage va i) := by
    intro d
    rw [mem_missing, mem_missing, hdir]
    by_cases hd : d = dirIndex (runPage va i)
    · subst hd
      refine iff_of_false (fun hm => h.hasTable.1.1 hm.2) fun hm => hm.2 rfl
    · rw [h.dir_of_ne hd, and_iff_left hd]
      refine and_congr_left fun _ => exists_congr fun j => ?_
      constructor
      · rintro ⟨hj, he⟩
        exact ⟨by omega, he⟩
      · rintro ⟨hj, he⟩
        have hne : j ≠ i := fun hji => hd (by rw [← he, hji])
        exact ⟨by omega, he⟩
  have hcard : (missing m va i (n + 1)).card ≤ (tableRoom m.mmBitmap).card ↔
      (missing m' va (i + 1) n).card ≤ (tableRoom m'.mmBitmap).card := by
    have herase : missing m' va (i + 1) n =
        (missing m va i (n + 1)).erase (dirIndex (runPage va i)) := by
      ext d
      rw [hmissing, Finset.mem_erase, and_comm]
    rw [hbm]
    cases h with
    | present ht =>
      have hnot : dirIndex (runPage va i) ∉ missing m va i (n + 1) := fun hm =>
        ht.1 (mem_missing.mp hm).2
      rw [herase, Finset.erase_eq_of_notMem hnot]
    | fresh habs hs hget hlo hhi hfree =>
      have hin : dirIndex (runPage va i) ∈ missing m va i (n + 1) :=
        mem_missing.mpr ⟨⟨i, by omega, rfl⟩, habs⟩
      have ht : t ∈ tableRoom m.mmBitmap :=
        mem_tableRoom.mpr ⟨⟨hlo, by unfold MAX_RAM_PAGE; omega⟩, hfree⟩
      have hroom : tableRoom (clearRun t 1 m.mmBitmap) = (tableRoom m.mmBitmap).erase t := by
        ext f
        rw [mem_tableRoom, Finset.mem_erase, mem_tableRoom, isFree, isFree, isSet_clearRun,
          Bool.and_eq_true, Bool.not_eq_true', decide_eq_false_iff_not]
        have hone : ¬ (t ≤ f ∧ f < t + 1) ↔ f ≠ t := by omega
        rw [hone]
        tauto
      have hpos : 0 < (missing m va i (n + 1)).card := Finset.card_pos.mpr ⟨_, hin⟩
      have hpos' : 0 < (tableRoom m.mmBitmap).card := Finset.card_pos.mpr ⟨_, ht⟩
      rw [herase, Finset.card_erase_of_mem hin]
      show _ ↔ _ ≤ (tableRoom (clearRun t 1 m.mmBitmap)).card
      rw [hroom, Finset.card_erase_of_mem ht]
      omega
  constructor
  · exact fun hf => ⟨hsmall.mp hf.small, hcard.mp hf.frames⟩
  · exact fun hf => ⟨hsmall.mpr hf.small, hcard.mpr hf.frames⟩

theorem runPage_aligned (hva : va % 4096 = 0) (i : Nat) : runPage va i % 4096 = 0 := by
  rw [runPage, shiftLeft_page]
  exact add32_page hva i

theorem pageMapLoop_succ (L : Layout) (pa va flag n i : Nat) (m : Machine) :
    pageMapLoop L pa va flag (n + 1) i m =
      let r := pageMap L (runPage pa i) (runPage va i) flag m
      if r.1 ≠ 0 then (r.1, i, r.2) else pageMapLoop L pa va flag n (i + 1) r.2 := rfl

/-- **A run of pages can be mapped** exactly when it fits. -/
theorem pageMapLoop_ok_iff (hpa : pa % 4096 = 0) (hva : va % 4096 = 0)
    (hfa : flag &&& PAGE_ADDR = 0) (hflag : flag &&& PAGE_PRESENT ≠ 0) (n : Nat) :
    ∀ (i : Nat) (m : Machine), (pageMapLoop L pa va flag n i m).1 = 0 ↔ RunFits m va i n := by
  induction n with
  | zero => exact fun i m => iff_of_true rfl (.zero m va i)
  | succ n ih =>
    intro i m
    have hone : (pageMap L (runPage pa i) (runPage va i) flag m).1 = 0 ↔ _ :=
      pageMap_ok_iff (runPage_aligned hpa i) (runPage_aligned hva i) hfa hflag
    rw [pageMapLoop_succ]
    dsimp only
    by_cases hok : (pageMap L (runPage pa i) (runPage va i) flag m).1 = 0
    · have hpair : pageMap L (runPage pa i) (runPage va i) flag m =
          (0, (pageMap L (runPage pa i) (runPage va i) flag m).2) := Prod.ext hok rfl
      obtain ⟨-, -, -, t, m₁, hopen, heq⟩ := pageMap_ok hflag hpair
      rw [if_neg (not_not.mpr hok), ih]
      exact (hopen.runFits_iff (by rw [heq]; rfl) (by rw [heq]; rfl)).symm
    · rw [if_pos hok]
      refine iff_of_false hok fun hfits => hok (hone.mpr ⟨hfits.small i (Nat.le_refl i) (by omega),
        fun habs => ?_⟩)
      have hin : dirIndex (runPage va i) ∈ missing m va i (n + 1) :=
        mem_missing.mpr ⟨⟨i, by omega, rfl⟩, habs⟩
      have hframes := hfits.frames
      have hpos : 0 < (missing m va i (n + 1)).card := Finset.card_pos.mpr ⟨_, hin⟩
      exact (getPhysBlock_one_iff m.mmBitmap).mpr (by omega)

end Moonlight
