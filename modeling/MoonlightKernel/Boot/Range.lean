import MoonlightKernel.Boot.MemoryInit

/-!
# Which pages `init_mm_bitmap` marks

Single bits are set until the number of pages that are left is a multiple of 8, and then whole bytes
of the bitmap, from the byte of the next page on.  That page need not be the first of its byte.

* `marksPages_iff` — the pages that are marked, below 4 GiB;
* `Overfilled`, `Missed` — those outside the range, and those of the range that are left out;
* `init_mm_bitmap_exact_iff` — when exactly the range is marked.
-/

set_option autoImplicit false

namespace Moonlight

open Sys Sys.Bitmap

/-- The first page of the bytes that are filled, for `n` pages from page `p` on. -/
def firstFilled (p n : Nat) : Nat := 8 * ((p + n % 8) / 8)

/-- Without a wrap: the single pages, and the pages of whole bytes. -/
theorem marksPages_iff {p n : Nat} (h : p + n ≤ 2 ^ 20) (q : Nat) :
    MarksPages p n q ↔ (p ≤ q ∧ q < p + n % 8) ∨
      (firstFilled p n ≤ q ∧ q < firstFilled p n + 8 * (n / 8)) := by
  unfold MarksPages firstFilled
  constructor
  · rintro (⟨i, hi, rfl⟩ | ⟨i, hi, rfl⟩)
    · rw [Nat.mod_eq_of_lt (by omega)]
      omega
    · rw [Nat.mod_eq_of_lt (by omega)]
      omega
  · rintro (⟨hle, hlt⟩ | ⟨hle, hlt⟩)
    · exact .inl ⟨q - p, by omega, by rw [Nat.mod_eq_of_lt] <;> omega⟩
    · exact .inr ⟨q - 8 * ((p + n % 8) / 8), by omega, by rw [Nat.mod_eq_of_lt] <;> omega⟩

/-- A page in front of the range that shares the first byte that is filled. -/
def Overfilled (p n q : Nat) : Prop := 8 ≤ n ∧ firstFilled p n ≤ q ∧ q < p

/-- A page of the range behind the last byte that is filled. -/
def Missed (p n q : Nat) : Prop := 8 ≤ n ∧ firstFilled p n + 8 * (n / 8) ≤ q ∧ q < p + n

/-- There is none of either when there is no byte to fill, or the first one starts with the page that
is next. -/
theorem missed_none_iff (p n : Nat) :
    (∀ q, ¬ (Overfilled p n q ∨ Missed p n q)) ↔ n < 8 ∨ (p + n % 8) % 8 = 0 := by
  unfold Overfilled Missed firstFilled
  constructor
  · intro h
    have := h (p + n - 1)
    omega
  · intro h q
    omega

/-- **Exactly the range is marked** when the pages that are marked outside it, and those of it that
are left out, are free already. -/
theorem init_mm_bitmap_exact_iff (bm : Bytes) (start len : Nat) (haligned : start % 4096 = 0)
    (hstart : start < 2 ^ 32) (hlen : len < 2 ^ 32) (hend : start + len ≤ 2 ^ 32) :
    (∀ q, isFree (initMmBitmap start len bm) q = true ↔ isFree bm q = true ∨
        (start / 4096 ≤ q ∧ q < start / 4096 + len / 4096)) ↔
      ∀ q, Overfilled (start / 4096) (len / 4096) q ∨ Missed (start / 4096) (len / 4096) q →
        isFree bm q = true := by
  have hmarks := fun q => initMmBitmap_spec hstart hlen bm q
  have hpages := marksPages_iff (p := start / 4096) (n := len / 4096) (by omega)
  simp only [hmarks, hpages]
  generalize start / 4096 = p at *
  generalize len / 4096 = n at *
  constructor
  · intro h q hq
    by_contra hfree
    have hiff := h q
    rw [or_iff_right hfree, or_iff_right hfree] at hiff
    unfold Overfilled Missed firstFilled at hq
    unfold firstFilled at hiff
    omega
  · intro h q
    by_cases hfree : isFree bm q = true
    · exact iff_of_true (.inl hfree) (.inl hfree)
    · have hno : ¬ (Overfilled p n q ∨ Missed p n q) := fun hq => hfree (h q hq)
      rw [or_iff_right hfree, or_iff_right hfree]
      unfold Overfilled Missed firstFilled at hno
      unfold firstFilled
      omega

/-- 16 pages from page 8 on: no byte is shared. -/
theorem init_mm_bitmap_aligned :
    isFree (initMmBitmap 0x8000 0x10000 fun _ => 0) 23 = true ∧
      ¬ isFree (initMmBitmap 0x8000 0x10000 fun _ => 0) 24 = true := by
  have hexact := (init_mm_bitmap_exact_iff (fun _ => 0) 0x8000 0x10000 (by decide) (by decide)
    (by decide) (by decide)).mpr fun q hq => absurd hq ((missed_none_iff 8 16).mpr (.inr rfl) q)
  constructor
  · rw [hexact]
    exact .inr (by decide)
  · rw [hexact]
    decide

/-- Eight pages from page 1 on: page 0 is marked, and page 8 is not. -/
theorem init_mm_bitmap_shifted :
    isFree (initMmBitmap 0x1000 0x8000 fun _ => 0) 0 = true ∧
      isFree (initMmBitmap 0x1000 0x8000 fun _ => 0) 8 = false := by
  have hmarks : ∀ q, isFree (initMmBitmap 0x1000 0x8000 fun _ => 0) q = true ↔
      isFree (fun _ => 0) q = true ∨ MarksPages (0x1000 / 4096) (0x8000 / 4096) q :=
    initMmBitmap_spec (by decide) (by decide) fun _ => 0
  have hfree : ∀ q, ¬ isFree (fun _ => 0) q = true := fun q => by simp [isFree, isSet]
  constructor
  · rw [hmarks, marksPages_iff (by decide)]
    exact .inr (.inr (by decide))
  · rw [← Bool.not_eq_true, hmarks, marksPages_iff (by decide)]
    rintro (h | h)
    · exact hfree _ h
    · revert h
      decide

end Moonlight
