import MoonlightKernel.Heap.Simulation

/-!
# The sizes of a request

A request of `n` bytes is rounded three times: to whole pages (`PAGE_ALIGN n`), to the pages of a
new region with its two headers (`regionSize n`), and to 16 bytes (`MALLOC_ALIGN n`).  Each of
the three wraps at a size of its own.

* `regionSize_of_le`, `regionSize_of_lost`, `regionSize_of_wrap` — the size of a new region: the
  pages asked for, nothing, or one page;
* `requestable_iff` — the requests whose region size is not lost;
* `firstFitHead_ne_none_iff` — when a region of the list has room (`HasRoom`);
* `addRegion_ne_zero_iff` — when a new region has room for the request that it was made for;
* `kmalloc_block` — the block that `kmalloc` returns is as large as the rounded request.
-/

set_option autoImplicit false

namespace Moonlight

open Sys Sys.Bitmap Sys.Tiling

/-! ## Rounding -/

theorem PAGE_ALIGN_of_le {p : Nat} (h : p ≤ 2 ^ 32 - 4096) :
    PAGE_ALIGN p = (p + 4095) / 4096 * 4096 := by
  have := PAGE_ALIGN_spec h
  omega

/-- In the last page of the address space there is nothing to round up to. -/
theorem PAGE_ALIGN_of_wrap {p : Nat} (h : 2 ^ 32 - 4096 < p) (hp : p < 2 ^ 32) :
    PAGE_ALIGN p = 0 := by
  unfold PAGE_ALIGN add32
  rw [if_pos (by omega)]
  omega

theorem MALLOC_ALIGN_of_le {p : Nat} (h : p ≤ 2 ^ 32 - 16) :
    MALLOC_ALIGN p = (p + 15) / 16 * 16 := by
  unfold MALLOC_ALIGN
  split
  · rw [add32_of_lt (by omega)]; omega
  · omega

theorem regionSize_eq (n : Nat) : regionSize n = PAGE_ALIGN ((n + 48) % 2 ^ 32) := by
  have h : add32 (add32 n heapListSize) headerSize = (n + 48) % 2 ^ 32 := by
    unfold add32 heapListSize headerSize; omega
  rw [regionSize, h]

theorem regionSize_of_le {n : Nat} (h : n ≤ 2 ^ 32 - 4144) :
    regionSize n = (n + 48 + 4095) / 4096 * 4096 := by
  rw [regionSize_eq, Nat.mod_eq_of_lt (by omega), PAGE_ALIGN_of_le (by omega)]

/-- The request's region size is lost: its round-up to pages is `2 ^ 32`. -/
def Lost (n : Nat) : Prop := 2 ^ 32 - 4144 < n ∧ n ≤ 2 ^ 32 - 48

instance (n : Nat) : Decidable (Lost n) := inferInstanceAs (Decidable (_ ∧ _))

theorem regionSize_of_lost {n : Nat} (h : Lost n) : regionSize n = 0 := by
  unfold Lost at h
  rw [regionSize_eq]
  by_cases he : n = 2 ^ 32 - 48
  · rw [he]; rfl
  · rw [Nat.mod_eq_of_lt (by omega), PAGE_ALIGN_of_wrap (by omega) (by omega)]

theorem regionSize_of_wrap {n : Nat} (h : 2 ^ 32 - 48 < n) (hn : n < 2 ^ 32) :
    regionSize n = 4096 := by
  rw [regionSize_eq, PAGE_ALIGN_of_le (by omega)]
  omega

/-- **The requests that keep a region size.** -/
theorem requestable_iff {n : Nat} (hn : n < 2 ^ 32) : Requestable n ↔ ¬ Lost n := by
  constructor
  · intro h hl
    have := h.pos
    rw [regionSize_of_lost hl] at this
    omega
  · intro hl
    rw [Lost, not_and, Nat.not_le] at hl
    by_cases h : n ≤ 2 ^ 32 - 4144
    · constructor
      · rw [regionSize_of_le h]; omega
      · rw [regionSize_of_le h]; omega
      · rw [regionSize_of_le h, PAGE_ALIGN_of_le (by omega)]; omega
    · have hw := hl (by omega)
      constructor
      · rw [regionSize_of_wrap hw hn]
      · exact Nat.le_of_eq (regionSize_of_wrap hw hn).symm
      · rw [regionSize_of_wrap hw hn, PAGE_ALIGN_of_wrap (by omega) hn]; omega

/-! ## Room in the regions of the list -/

/-- The walk of `try_allocate` gets from the header at `x` to the one at `y`. -/
inductive Walk (limit : Nat) (mem : Mem) : Nat → Nat → Prop
  | here {x : Nat} (h : x < limit) : Walk limit mem x x
  | next {x y : Nat} (h : x < limit) (hw : Walk limit mem (x + headerSize + low31 (mem x)) y) :
      Walk limit mem x y

theorem Walk.le {limit x y : Nat} {mem : Mem} (h : Walk limit mem x y) : x < limit := by
  cases h with
  | here h => exact h
  | next h _ => exact h

/-- The block with its header at `y` is free and larger than the rounded request. -/
def Fits (n : Nat) (mem : Mem) (y : Nat) : Prop :=
  MALLOC_ALIGN n < low31 (mem y) ∧ top1 (mem y) ≠ 0

/-- Region `e` has a block for `n` bytes that the walk gets to. -/
def RegionRoom (n : Nat) (mem : Mem) (e : Nat) : Prop :=
  ∃ y, Walk (walkEnd e mem) mem (e + heapListSize) y ∧ Fits n mem y

/-- A region of kind `virtual` has room for `n` bytes. -/
def HasRoom {σ : Type} (virtual n : Nat) (h : Heap σ) : Prop :=
  ∃ e ∈ h.heapList, top1 (h.mem e) = virtual ∧ low31 (h.mem e) ≠ 0 ∧ RegionRoom n h.mem e

theorem fitHead_ne_none_iff {limit n : Nat} {mem : Mem} : ∀ {fuel x : Nat},
    limit ≤ x + 16 * fuel →
    (fitHead limit (MALLOC_ALIGN n) mem fuel x ≠ none ↔ ∃ y, Walk limit mem x y ∧ Fits n mem y) := by
  intro fuel
  induction fuel with
  | zero =>
    intro x hx
    refine iff_of_false (fun h => h rfl) ?_
    rintro ⟨y, hw, -⟩
    have := hw.le
    omega
  | succ fuel ih =>
    intro x hx
    rw [fitHead]
    split
    · rename_i hlt
      split
      · rename_i hfit
        exact iff_of_true (by simp) ⟨x, .here hlt, hfit⟩
      · rename_i hno
        rw [ih (by unfold headerSize; omega)]
        constructor
        · rintro ⟨y, hw, hy⟩
          exact ⟨y, .next hlt hw, hy⟩
        · rintro ⟨y, hw, hy⟩
          cases hw with
          | here => exact absurd hy hno
          | next _ hw => exact ⟨y, hw, hy⟩
    · rename_i hge
      refine iff_of_false (fun h => h rfl) ?_
      rintro ⟨y, hw, -⟩
      exact hge hw.le

theorem entryFit_ne_none_iff {n e : Nat} {mem : Mem} :
    entryFit e n mem ≠ none ↔ RegionRoom n mem e :=
  fitHead_ne_none_iff (by unfold walkEnd add32; omega)

/-- The search through the list finds room where there is some. -/
theorem firstFitHead_ne_none_iff {virtual n : Nat} {mem : Mem} : ∀ {es : List Nat},
    firstFitHead virtual n mem es ≠ none ↔
      ∃ e ∈ es, top1 (mem e) = virtual ∧ low31 (mem e) ≠ 0 ∧ RegionRoom n mem e := by
  intro es
  induction es with
  | nil => simp [firstFitHead]
  | cons e es ih =>
    have hroom : RegionRoom n mem e ↔ entryFit e n mem ≠ none := entryFit_ne_none_iff.symm
    simp only [List.mem_cons, exists_eq_or_imp]
    rw [firstFitHead, hroom, ← ih]
    split
    · rename_i hv
      cases entryFit e n mem with
      | some y => simp [hv]
      | none => simp
    · rename_i hv
      exact ⟨.inr, fun h => h.resolve_left fun k => hv ⟨k.1, k.2.1⟩⟩

/-! ## Room in a new region -/

/-- The single block of a new region serves a request that is smaller than it is. -/
theorem regionRoom_fresh {v size virtual n : Nat} (hv : virtual < 2) (hlo : 4096 ≤ size)
    (hhi : size < 2 ^ 31) (hend : v + size ≤ 2 ^ 32) (mem : Mem) :
    RegionRoom n (initNewAllocatedBlock v size virtual mem) v ↔ MALLOC_ALIGN n < size - 48 := by
  obtain ⟨hsize, -, hhead, -⟩ := initNewAllocatedBlock_headers (v := v) hv (by omega) hhi mem
  have hblk := size_of_header hhead
  have hfree := (free_of_header hhead).mpr rfl
  dsimp only at hblk
  unfold RegionRoom walkEnd heapListSize
  rw [hsize, add32_of_lt (by omega)]
  constructor
  · rintro ⟨y, hw, hfit⟩
    cases hw with
    | here =>
      have := hfit.1
      rwa [hblk] at this
    | next _ hw =>
      have := hw.le
      rw [hblk] at this
      unfold headerSize at this
      omega
  · intro h
    refine ⟨v + 32, .here (by omega), ?_, hfree⟩
    rw [hblk]; exact h

/-- **A new region serves the request** that it was made for when the rounded request is smaller
than its block. -/
theorem addRegion_ne_zero_iff {σ : Type} {virtual n v : Nat} (hv : virtual < 2)
    (hlo : 4096 ≤ regionSize n) (hhi : regionSize n < 2 ^ 31) (hend : v + regionSize n ≤ 2 ^ 32)
    (B : Backing σ) (h : Heap σ) :
    (addRegion B virtual v n h).1 ≠ 0 ↔ MALLOC_ALIGN n < regionSize n - 48 := by
  rw [← regionRoom_fresh (v := v) hv hlo hhi hend (reveal B h.low v (regionSize n) h.mem),
    ← entryFit_ne_none_iff, addRegion]
  dsimp only
  rw [tryAllocate_eq]
  cases entryFit v n (initNewAllocatedBlock v (regionSize n) virtual
      (reveal B h.low v (regionSize n) h.mem)) with
  | none => simp
  | some y => simp [headerSize]

/-! ## The block of an allocation -/

/-- The size of the block at the pointer that an allocation returned, from the header in front. -/
def blockSize {σ : Type} (r : Nat × Heap σ) : Nat := low31 (r.2.mem (r.1 - headerSize))

section block

variable {n y : Nat} {mem : Mem}

theorem fitHead_fits {limit : Nat} {fuel x : Nat}
    (h : fitHead limit (MALLOC_ALIGN n) mem fuel x = some y) : Fits n mem y := by
  induction fuel generalizing x with
  | zero => cases h
  | succ fuel ih =>
    rw [fitHead] at h
    split at h
    · split at h
      · rename_i hfit
        cases h
        exact hfit
      · exact ih h
    · cases h

/-- The header of the block that is handed out says how large it is. -/
theorem place_block (h : Fits n mem y) :
    MALLOC_ALIGN n ≤ low31 (place (MALLOC_ALIGN n) y mem y) := by
  have hlt := h.1
  unfold place
  split
  · have hsmall : low31 (mem y) < 2 ^ 31 := Nat.mod_lt _ (by decide)
    rw [low31_setTop1, low31_setLow31]
    exact Nat.le_of_eq (Nat.mod_eq_of_lt (Nat.lt_trans hlt hsmall)).symm
  · rw [low31_setTop1]
    exact Nat.le_of_lt hlt

theorem firstFitHead_fits {virtual e : Nat} {es : List Nat}
    (h : firstFitHead virtual n mem es = some (e, y)) : Fits n mem y := by
  induction es with
  | nil => cases h
  | cons e' es ih =>
    rw [firstFitHead] at h
    split at h
    · split at h
      · rename_i hfit
        cases h
        exact fitHead_fits hfit
      · exact ih h
    · exact ih h

/-- A request that a region of the list has room for is served there. -/
theorem kmalloc_served {σ : Type} {L : Layout} {B : Backing σ} {h : Heap σ} {e : Nat} (hn : n ≠ 0)
    (hfit : firstFitHead 0 n h.mem h.heapList = some (e, y)) :
    kmalloc L B n h = (y + headerSize, { h with mem := place (MALLOC_ALIGN n) y h.mem }) := by
  rw [kmalloc, if_neg hn, firstFit_eq, hfit]
  rfl

/-- **The block that `kmalloc` returns** is at least as large as the rounded request. -/
theorem kmalloc_block {σ : Type} {L : Layout} {B : Backing σ} {h : Heap σ}
    (hp : (kmalloc L B n h).1 ≠ 0) : MALLOC_ALIGN n ≤ blockSize (kmalloc L B n h) := by
  have hout := kmalloc_outcome L B n h
  generalize kmalloc L B n h = r at hp hout
  obtain ⟨p, h'⟩ := r
  cases hout with
  | nothing => exact absurd rfl hp
  | failed => exact absurd rfl hp
  | served hfit => exact place_block (firstFitHead_fits hfit)
  | grown =>
    rename_i v s _ _ _
    dsimp only [addRegion] at hp ⊢
    rw [tryAllocate_eq] at hp ⊢
    cases hfit : entryFit v n (initNewAllocatedBlock v (regionSize n) 0
        (reveal B s v (regionSize n) h.mem)) with
    | none =>
      rw [hfit] at hp
      exact absurd rfl hp
    | some y =>
      unfold blockSize
      dsimp only
      rw [Nat.add_sub_cancel]
      exact place_block (fitHead_fits hfit)

end block

end Moonlight
