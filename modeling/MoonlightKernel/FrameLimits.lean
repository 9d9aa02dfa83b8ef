import MoonlightKernel.Phys

/-!
# The limits of the frame allocator

What `get_phys_block` and `free_phys_block` do at the end of the bitmap.

* `finds_lowest_run_iff` — `get_phys_block` finds the lowest run of free pages, unless the only one
  ends with the last page;
* `free_stays_in_range_iff` — `free_phys_block` keeps to its pages exactly when they do not run past
  the last one: the guard of its loop compares an address that has wrapped.
-/

set_option autoImplicit false

namespace Moonlight

open Sys Sys.Bitmap

/-! ## The search -/

/-- The page where the search starts, `(LOW_MEMORY_SIZE >> 12) * 8`. -/
def firstPage : Nat := (LOW_MEMORY_SIZE >>> 12) * 8

/-- `p` is the lowest run of `n` free pages at or above the start of the search. -/
structure LowestRun (mmBitmap : Bytes) (n p : Nat) : Prop where
  lo : firstPage ≤ p
  hi : p + n ≤ MAX_RAM_PAGE
  free : ∀ q, p ≤ q → q < p + n → isFree mmBitmap q = true
  least : ∀ p', firstPage ≤ p' → p' < p → ∃ q, p' ≤ q ∧ q < p' + n ∧ isFree mmBitmap q = false

/-- A `get_phys_block` of `n` pages finds the lowest run, if there is one. -/
def FindsLowest (mmBitmap : Bytes) (n : Nat) : Prop :=
  HasRun mmBitmap firstPage MAX_RAM_PAGE n →
    ∃ p, (getPhysBlock n mmBitmap).1 = p * 4096 ∧ (getPhysBlock n mmBitmap).1 ≠ 0 ∧
      LowestRun mmBitmap n p

/-- The `n` pages that end with the last page are free. -/
def LastPagesFree (mmBitmap : Bytes) (n : Nat) : Prop :=
  firstPage + n ≤ MAX_RAM_PAGE ∧
    ∀ q, MAX_RAM_PAGE - n ≤ q → q < MAX_RAM_PAGE → isFree mmBitmap q = true

theorem firstPage_eq : firstPage = 1272 := rfl

/-- The block that is handed out is the lowest run. -/
theorem lowestRun_of_ne_zero {n : Nat} {bm : Bytes} (h : (getPhysBlock n bm).1 ≠ 0) :
    ∃ p, (getPhysBlock n bm).1 = p * 4096 ∧ LowestRun bm n p := by
  rcases getPhysBlock_spec n bm with hnone | ⟨p, hp, hlo, hhi, hfree⟩
  · rw [hnone] at h
    exact absurd rfl h
  refine ⟨p, congrArg Prod.fst hp, hlo, Nat.le_of_lt hhi, hfree, ?_⟩
  -- the scan stands at the run that it found
  unfold getPhysBlock at hp
  split at hp
  · rename_i q hq
    have hpq := congrArg Prod.fst hp
    dsimp only at hpq
    rw [shiftLeft_page] at hpq
    obtain rfl : q = p := by omega
    rw [scanBytes_eq] at hq
    refine findRun_least (Nat.zero_le _) (fun q hlo hq => ?_) hq
    rw [firstPage_eq] at hlo
    exact absurd hq (by unfold LOW_MEMORY_SIZE; omega)
  · have := congrArg Prod.fst hp
    dsimp only at this
    omega

/-- A run that does not end before the last page ends with it. -/
theorem lastPagesFree_of_hasRun {bm : Bytes} {n : Nat} (h : HasRun bm firstPage MAX_RAM_PAGE n)
    (hno : ¬ HasRun bm firstPage (MAX_RAM_PAGE - 1) n) : LastPagesFree bm n := by
  obtain ⟨p, hlo, hhi, hfree⟩ := h
  have hend : p + n = MAX_RAM_PAGE := by
    by_contra hne
    exact hno ⟨p, hlo, by unfold MAX_RAM_PAGE at *; omega, hfree⟩
  exact ⟨by omega, fun q h1 h2 => hfree q (by omega) (by omega)⟩

/-- **`get_phys_block` is complete** exactly when some run ends before the last page, or none ends
with it. -/
theorem finds_lowest_run_iff (mmBitmap : Bytes) (n : Nat) :
    FindsLowest mmBitmap n ↔
      HasRun mmBitmap firstPage (MAX_RAM_PAGE - 1) n ∨ ¬ LastPagesFree mmBitmap n := by
  have hne : (getPhysBlock n mmBitmap).1 ≠ 0 ↔ HasRun mmBitmap firstPage (MAX_RAM_PAGE - 1) n :=
    getPhysBlock_ne_zero_iff n mmBitmap
  constructor
  · intro h
    by_cases hlast : LastPagesFree mmBitmap n
    · obtain ⟨hn, hfree⟩ := hlast
      obtain ⟨-, -, hp, -⟩ := h ⟨MAX_RAM_PAGE - n, by omega, by omega, fun q h1 h2 =>
        hfree q h1 (by omega)⟩
      exact .inl (hne.mp hp)
    · exact .inr hlast
  · rintro hcond hrun
    have hfound : HasRun mmBitmap firstPage (MAX_RAM_PAGE - 1) n := by
      rcases hcond with h | h
      · exact h
      · by_contra hno
        exact h (lastPagesFree_of_hasRun hrun hno)
    obtain ⟨p, hp, hlow⟩ := lowestRun_of_ne_zero (hne.mpr hfound)
    exact ⟨p, hp, hne.mpr hfound, hlow⟩

/-- The bitmap in which the last page alone is free. -/
def lastPageOnly : Bytes := fun i => if i = 131071 then 0x80 else 0

theorem isSet_lastPageOnly (p : Nat) : isSet lastPageOnly p = decide (p = 0xFFFFF) := by
  unfold isSet lastPageOnly
  have hmod : p % 8 < 8 := Nat.mod_lt _ (by decide)
  by_cases hp : p / 8 = 131071
  · have hbits : ∀ j, j < 8 → (0x80 : BitVec 8).getLsbD j = decide (j = 7) := by decide
    rw [if_pos hp, hbits _ hmod, decide_eq_decide]
    omega
  · rw [if_neg hp, decide_eq_false (by omega)]
    exact BitVec.getLsbD_zero

/-- The last page is never handed out alone. -/
theorem last_page_not_found : ¬ FindsLowest lastPageOnly 1 := by
  intro h
  obtain ⟨-, -, hne, -⟩ := h ⟨0xFFFFF, by decide, by decide, fun q h1 h2 => by
    rw [isSet_lastPageOnly]
    exact decide_eq_true (by omega)⟩
  obtain ⟨p, -, hhi, hfree⟩ := (getPhysBlock_ne_zero_iff 1 lastPageOnly).mp hne
  have hp := hfree p (Nat.le_refl _) (by omega)
  rw [isSet_lastPageOnly, decide_eq_true_eq] at hp
  omega

/-! ## The release -/

def UNAVAILABLE : String := "try to free unvalaible physical block\n"

def ALREADY_FREED : String := "try to free already freed block\n"

/-- `free_phys_block` with what it prints. -/
def freePhysBlockPrint : Nat → Nat → Bytes → List String × Bytes
  | _, 0, mmBitmap => ([], mmBitmap)
  | start, size + 1, mmBitmap =>
    if ACCESS_BITMAP_BY_ADDR start ≥ MAX_RAM_PAGE / 8 then ([UNAVAILABLE], mmBitmap)
    else
      let already := (mmBitmap (ACCESS_BITMAP_BY_ADDR start)).getLsbD ((start >>> 12) % 8)
      let r := freePhysBlockPrint (add32 start 4096) size
        (setBit mmBitmap (ACCESS_BITMAP_BY_ADDR start) ((start >>> 12) % 8))
      (if already then ALREADY_FREED :: r.1 else r.1, r.2)

/-- The bitmap is that of `freePhysBlock`. -/
theorem freePhysBlockPrint_snd (size : Nat) : ∀ (start : Nat) (bm : Bytes),
    (freePhysBlockPrint start size bm).2 = freePhysBlock start size bm := by
  induction size with
  | zero => intro start bm; rfl
  | succ size ih =>
    intro start bm
    rw [freePhysBlockPrint, freePhysBlock]
    split
    · rfl
    · exact ih _ _

/-- A 32-bit address is never out of range. -/
theorem unavailable_not_printed (size : Nat) : ∀ {start : Nat} (bm : Bytes), start < 2 ^ 32 →
    UNAVAILABLE ∉ (freePhysBlockPrint start size bm).1 := by
  induction size with
  | zero => intro start bm _; exact List.not_mem_nil
  | succ size ih =>
    intro start bm h
    have hin : ¬ ACCESS_BITMAP_BY_ADDR start ≥ MAX_RAM_PAGE / 8 := by
      rw [ACCESS_BITMAP_BY_ADDR_eq]
      unfold MAX_RAM_PAGE
      omega
    have hnext : add32 start 4096 < 2 ^ 32 := by
      unfold add32
      omega
    have hne : UNAVAILABLE ≠ ALREADY_FREED := by decide
    rw [freePhysBlockPrint, if_neg hin]
    dsimp only
    split
    · rw [List.mem_cons, not_or]
      exact ⟨hne, ih _ hnext⟩
    · exact ih _ hnext

/-- A `free_phys_block` of `n` pages at `a` sets the bits of those that exist, and ends with its
diagnostic when it meets one that does not. -/
structure FreesInRange (a n : Nat) (mmBitmap : Bytes) : Prop where
  bits : ∀ p, isFree (freePhysBlock a n mmBitmap) p = true ↔
    isFree mmBitmap p = true ∨ (a / 4096 ≤ p ∧ p < a / 4096 + n) ∧ p < MAX_RAM_PAGE
  stops : (freePhysBlockPrint a n mmBitmap).1.getLast? = some UNAVAILABLE ↔
    ∃ p, (a / 4096 ≤ p ∧ p < a / 4096 + n) ∧ ¬ p < MAX_RAM_PAGE

/-- **`free_phys_block` stays in its range** exactly when the range ends with the last page at the
latest. -/
theorem free_stays_in_range_iff (mmBitmap : Bytes) (a n : Nat) (ha : a < 2 ^ 32) :
    FreesInRange a n mmBitmap ↔ a / 4096 + n ≤ MAX_RAM_PAGE := by
  have hsilent : (freePhysBlockPrint a n mmBitmap).1.getLast? ≠ some UNAVAILABLE := fun h =>
    unavailable_not_printed n mmBitmap ha (List.mem_of_getLast? h)
  constructor
  · intro h
    by_contra hlt
    exact hsilent (h.stops.mpr ⟨max (a / 4096) MAX_RAM_PAGE, by unfold MAX_RAM_PAGE at *; omega⟩)
  · intro h
    refine ⟨fun p => ?_, iff_of_false hsilent ?_⟩
    · rw [isFree_freePhysBlock h, Bool.or_eq_true, decide_eq_true_eq]
      refine or_congr_right (iff_self_and.mpr fun hp => ?_)
      omega
    · rintro ⟨p, hp, hout⟩
      omega

/-- Releasing the last two pages stays in range. -/
theorem last_pages_stay_in_range : FreesInRange 0xFFFFE000 2 fun _ => 0 :=
  (free_stays_in_range_iff _ _ _ (by decide)).mpr (by decide)

/-- A range that runs past the last page wraps to page 0. -/
theorem wrapped_range_frees_page_zero :
    ¬ FreesInRange 0xFFFFF000 2 (fun _ => 0) ∧
      isFree (freePhysBlock 0xFFFFF000 2 fun _ => 0) 0 = true := by
  have hzero : isFree (freePhysBlock 0xFFFFF000 2 fun _ => 0) 0 = true := by decide +kernel
  refine ⟨fun h => ?_, hzero⟩
  rcases (h.bits 0).mp hzero with h | h
  · exact absurd h (by decide)
  · omega

end Moonlight
