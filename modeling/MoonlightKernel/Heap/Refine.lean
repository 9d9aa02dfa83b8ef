import MoonlightKernel.Heap.Alloc
import MoonlightKernel.Lib.Tiling

/-!
# Regions as lists of blocks

The abstract heap is a list of regions, each a tiling of its pages by blocks.  This file says
when memory shows a region (`Region.Shown`), and what each loop over the headers does to one:

* `fitHead_spec`, `place_spec` — no block fits, or the first one that does is split;
* `defragLoop_spec` — the blocks are coalesced;
* `findHead_some`, `findHead_none` — the walk for the header of a pointer.

The walks stop 32 bytes before the end of a region, since `page_size` does not count the
`heap_list` in front.  Every specification is about all the blocks, with `slack = 32` for those
that the walk does not reach.
-/

set_option autoImplicit false

namespace Moonlight

open Sys Sys.Bitmap Sys.Tiling

/-! ## Headers -/

/-- The `alloc_header` at an address. -/
def Mem.header (mem : Mem) (a : Nat) : Block := ⟨low31 (mem a), decide (top1 (mem a) ≠ 0)⟩

theorem low31_setLow31 (mem : Mem) (a v : Nat) : low31 (mem.setLow31 a v a) = v % 2 ^ 31 := by
  rw [Mem.setLow31, Function.update_self, low31]; omega

theorem top1_setLow31 (mem : Mem) (a v : Nat) : top1 (mem.setLow31 a v a) = top1 (mem a) := by
  rw [Mem.setLow31, Function.update_self, top1, top1]; omega

theorem low31_setTop1 (mem : Mem) (a v : Nat) : low31 (mem.setTop1 a v a) = low31 (mem a) := by
  rw [Mem.setTop1, Function.update_self, low31, low31]; omega

theorem top1_setTop1 (mem : Mem) (a v : Nat) : top1 (mem.setTop1 a v a) = v % 2 := by
  rw [Mem.setTop1, Function.update_self, top1, low31]; omega

theorem setLow31_of_ne {mem : Mem} {a b v : Nat} (h : b ≠ a) : mem.setLow31 a v b = mem b :=
  Function.update_of_ne h _ _

theorem setTop1_of_ne {mem : Mem} {a b v : Nat} (h : b ≠ a) : mem.setTop1 a v b = mem b :=
  Function.update_of_ne h _ _

theorem header_congr {mem mem' : Mem} {a : Nat} (h : mem' a = mem a) :
    mem'.header a = mem.header a := by rw [Mem.header, Mem.header, h]

@[simp] theorem header_setLow31 (mem : Mem) (a v : Nat) :
    (mem.setLow31 a v).header a = ⟨v % 2 ^ 31, (mem.header a).free⟩ := by
  rw [Mem.header, low31_setLow31, top1_setLow31, Mem.header]

@[simp] theorem header_setTop1 (mem : Mem) (a v : Nat) :
    (mem.setTop1 a v).header a = ⟨(mem.header a).size, decide (v % 2 ≠ 0)⟩ := by
  rw [Mem.header, low31_setTop1, top1_setTop1, Mem.header]

theorem header_setLow31_of_ne {mem : Mem} {a b v : Nat} (h : b ≠ a) :
    (mem.setLow31 a v).header b = mem.header b := header_congr (setLow31_of_ne h)

theorem header_setTop1_of_ne {mem : Mem} {a b v : Nat} (h : b ≠ a) :
    (mem.setTop1 a v).header b = mem.header b := header_congr (setTop1_of_ne h)

theorem size_of_header {mem : Mem} {a : Nat} {b : Block} (h : mem.header a = b) :
    low31 (mem a) = b.size := by rw [← h]; rfl

theorem free_of_header {mem : Mem} {a : Nat} {b : Block} (h : mem.header a = b) :
    top1 (mem a) ≠ 0 ↔ b.free = true := by rw [← h]; simp [Mem.header]

theorem MALLOC_ALIGN_mod (p : Nat) : MALLOC_ALIGN p % 16 = 0 := by
  unfold MALLOC_ALIGN
  split
  · unfold add32; omega
  · omega

/-- Without wrap-around, `MALLOC_ALIGN` is the least multiple of 16 that is not below its
argument. -/
theorem MALLOC_ALIGN_spec {p : Nat} (h : p ≤ 2 ^ 32 - 32) :
    p ≤ MALLOC_ALIGN p ∧ MALLOC_ALIGN p < p + 16 := by
  unfold MALLOC_ALIGN
  split
  · rw [add32_of_lt (by omega)]; omega
  · omega

/-! ## The search and the write of `try_allocate` -/

/-- The header that the loop of `try_allocate` stops at. -/
def fitHead (limit allocSize : Nat) (mem : Mem) : Nat → Nat → Option Nat
  | 0, _ => none
  | fuel + 1, head =>
    if head < limit then
      if allocSize < low31 (mem head) ∧ top1 (mem head) ≠ 0 then some head
      else fitHead limit allocSize mem fuel (head + headerSize + low31 (mem head))
    else none

/-- What it writes there. -/
def place (allocSize head : Nat) (mem : Mem) : Mem :=
  let mem :=
    if low31 (mem head) > headerSize + 16 then
      let newHead := head + headerSize + allocSize
      let mem := mem.setTop1 newHead 1
      let mem := mem.setLow31 newHead (sub32 (low31 (mem head)) (add32 headerSize allocSize))
      mem.setLow31 head allocSize
    else mem
  mem.setTop1 head 0

theorem tryAllocateLoop_eq (limit allocSize : Nat) (mem : Mem) : ∀ (fuel head : Nat),
    tryAllocateLoop limit allocSize fuel head mem =
      match fitHead limit allocSize mem fuel head with
      | some y => (y + headerSize, place allocSize y mem)
      | none => (0, mem) := by
  intro fuel
  induction fuel with
  | zero => intro head; rfl
  | succ fuel ih =>
    intro head
    rw [tryAllocateLoop, fitHead]
    split
    · split
      · rfl
      · exact ih _
    · rfl

/-- The header at which `try_allocate` stops in one region. -/
def entryFit (heapEntry size : Nat) (mem : Mem) : Option Nat :=
  fitHead (walkEnd heapEntry mem) (MALLOC_ALIGN size) mem (low31 (mem heapEntry))
    (heapEntry + heapListSize)

theorem tryAllocate_eq (heapEntry size : Nat) (mem : Mem) :
    tryAllocate heapEntry size mem =
      match entryFit heapEntry size mem with
      | some y => (y + headerSize, place (MALLOC_ALIGN size) y mem)
      | none => (0, mem) := tryAllocateLoop_eq _ _ _ _ _

/-- The region and the header at which `kmalloc` (`virtual = 0`) or `vmalloc` (`virtual = 1`)
finds room for `size` bytes. -/
def firstFitHead (virtual size : Nat) (mem : Mem) : List Nat → Option (Nat × Nat)
  | [] => none
  | heapEntry :: rest =>
    if top1 (mem heapEntry) = virtual ∧ low31 (mem heapEntry) ≠ 0 then
      match entryFit heapEntry size mem with
      | some y => some (heapEntry, y)
      | none => firstFitHead virtual size mem rest
    else firstFitHead virtual size mem rest

theorem firstFit_eq (virtual size : Nat) (mem : Mem) (entries : List Nat) :
    firstFit virtual size entries mem =
      (firstFitHead virtual size mem entries).map
        fun f => (f.2 + headerSize, place (MALLOC_ALIGN size) f.2 mem) := by
  induction entries with
  | nil => rfl
  | cons e rest ih =>
    rw [firstFit, firstFitHead, tryAllocate_eq]
    split
    · cases entryFit e size mem with
      | none => exact ih
      | some y => rfl
    · exact ih

theorem fitHead_spec {limit allocSize : Nat} {mem : Mem} : ∀ {bs : List Block} {fuel x : Nat},
    Tiles 16 mem.header x bs → span 16 bs ≤ 16 * fuel + 32 → limit + 32 = x + span 16 bs →
    fitHead limit allocSize mem fuel x = none ∨
      ∃ l b t, bs = l ++ b :: t ∧ fitHead limit allocSize mem fuel x = some (x + span 16 l) ∧
        b.free = true ∧ allocSize < b.size ∧ x + span 16 l < limit := by
  intro bs
  induction bs with
  | nil =>
    intro fuel x _ _ hlim
    rw [span_nil] at hlim
    cases fuel with
    | zero => exact .inl rfl
    | succ fuel => rw [fitHead, if_neg (by omega)]; exact .inl rfl
  | cons b bs ih =>
    intro fuel x ht hfuel hlim
    rw [span_cons] at hfuel hlim
    cases fuel with
    | zero => exact .inl rfl
    | succ fuel =>
      rw [fitHead, size_of_header ht.1]
      split
      · rename_i hx
        split
        · rename_i hb
          exact .inr ⟨[], b, bs, rfl, by simp, (free_of_header ht.1).mp hb.2, hb.1,
            by simpa using hx⟩
        · rcases @ih fuel (x + 16 + b.size) ht.2 (by omega) (by omega) with h | ⟨l, c, t, rfl, h, hc⟩
          · exact .inl h
          · refine .inr ⟨b :: l, c, t, rfl, ?_, ?_⟩
            · rw [show x + span 16 (b :: l) = x + 16 + b.size + span 16 l by
                rw [span_cons]; omega]
              exact h
            · rw [show x + span 16 (b :: l) = x + 16 + b.size + span 16 l by
                rw [span_cons]; omega]
              exact hc
      · exact .inl rfl

/-- The write of `try_allocate` splits one block. -/
theorem place_spec {allocSize x : Nat} {mem : Mem} {l t : List Block} {b : Block}
    (ht : Tiles 16 mem.header x (l ++ b :: t)) (hfit : allocSize < b.size)
    (hA : allocSize % 16 = 0) (hb : 16 ∣ b.size) (hlt : b.size < 2 ^ 31) :
    Tiles 16 (place allocSize (x + span 16 l) mem).header x
        (l ++ (splitBlock 16 32 allocSize b.size ++ t)) ∧
      ∀ a, (a < x + span 16 l ∨ x + span 16 l + 16 + b.size ≤ a) →
        place allocSize (x + span 16 l) mem a = mem a := by
  rw [tiles_append] at ht
  obtain ⟨hl, hy, ht⟩ := ht
  generalize hyy : x + span 16 l = y at *
  have hsz := size_of_header hy
  have hb16 : b.size % 16 = 0 := Nat.mod_eq_zero_of_dvd hb
  have hframe : ∀ a, (a < y ∨ y + 16 + b.size ≤ a) → place allocSize y mem a = mem a := by
    intro a ha
    unfold place headerSize
    rw [setTop1_of_ne (by omega)]
    dsimp only
    split
    · rw [setLow31_of_ne (by omega), setLow31_of_ne (by omega), setTop1_of_ne (by omega)]
    · rfl
  refine ⟨?_, hframe⟩
  have hmid : Tiles 16 (place allocSize y mem).header y (splitBlock 16 32 allocSize b.size) := by
    unfold place splitBlock headerSize
    rw [hsz]
    by_cases hk : 32 < b.size
    · rw [if_pos (by omega), if_pos hk]
      have hne : y ≠ y + 16 + allocSize := by omega
      refine ⟨?_, ?_, trivial⟩
      · rw [header_setTop1, header_setLow31, Nat.mod_eq_of_lt (by omega)]
        rfl
      · dsimp only
        rw [header_setTop1_of_ne hne.symm, header_setLow31_of_ne hne.symm, header_setLow31,
          header_setTop1, setTop1_of_ne hne, hsz, add32_of_lt (by omega),
          sub32_of_le (by omega) (by omega), Nat.mod_eq_of_lt (by omega)]
        rfl
    · rw [if_neg (by omega), if_neg hk]
      refine ⟨?_, trivial⟩
      rw [header_setTop1, hy]
      rfl
  rw [tiles_append, tiles_append, hyy, span_splitBlock (by omega)]
  refine ⟨hl.congr fun z c hz => header_congr (hframe z (.inl ?_)), hmid, ?_⟩
  · have := hz.bounds; omega
  · rw [← Nat.add_assoc]
    exact ht.congr fun z c hz => header_congr (hframe z (.inr hz.bounds.1))

/-! ## The walks of `_free` -/

theorem findHead_none {limit ptr : Nat} {mem : Mem} : ∀ {bs : List Block} {fuel x : Nat},
    Tiles 16 mem.header x bs → limit + 32 = x + span 16 bs →
    (∀ y b, At 16 x bs y b → ptr ≠ y + 16) → findHead limit ptr mem fuel x = none := by
  intro bs
  induction bs with
  | nil =>
    intro fuel x _ hlim _
    rw [span_nil] at hlim
    cases fuel with
    | zero => rfl
    | succ fuel => rw [findHead, if_neg (by omega)]
  | cons b bs ih =>
    intro fuel x ht hlim hne
    rw [span_cons] at hlim
    cases fuel with
    | zero => rfl
    | succ fuel =>
      rw [findHead, size_of_header ht.1]
      unfold headerSize
      split
      · rw [if_neg (hne x b (.inl ⟨rfl, rfl⟩))]
        exact ih ht.2 (by omega) fun y c hc => hne y c (.inr hc)
      · rfl

theorem findHead_some {limit y : Nat} {b : Block} {mem : Mem} :
    ∀ {bs : List Block} {fuel x : Nat}, Tiles 16 mem.header x bs →
    span 16 bs ≤ 16 * fuel + 32 → limit + 32 = x + span 16 bs → At 16 x bs y b → y < limit →
    findHead limit (y + 16) mem fuel x = some y := by
  intro bs
  induction bs with
  | nil => intro fuel x _ _ _ hy _; exact absurd hy (at_nil x y b)
  | cons c bs ih =>
    intro fuel x ht hfuel hlim hy hlt
    have hxy := hy.bounds.1
    rw [span_cons] at hfuel hlim
    cases fuel with
    | zero => omega
    | succ fuel =>
      rw [findHead, if_pos (by omega), size_of_header ht.1]
      unfold headerSize
      rcases hy with ⟨rfl, rfl⟩ | hy
      · rw [if_pos rfl]
      · have := hy.bounds.1
        rw [if_neg (by omega)]
        exact ih ht.2 (by omega) (by omega) hy hlt

/-! ## The loops of the coalescers -/

theorem absorbLoop_spec {limit head : Nat} : ∀ {bs : List Block} {fuel s : Nat} {mem : Mem},
    mem.header head = ⟨s, true⟩ → Tiles 16 mem.header (head + 16 + s) bs →
    span 16 bs ≤ 16 * fuel + 32 → limit + 32 = head + 16 + s + span 16 bs →
    s + span 16 bs < 2 ^ 31 →
    (absorbLoop limit head fuel (head + 16 + s) mem).header head = ⟨(absorb 16 32 s bs).1, true⟩ ∧
      ∀ a, a ≠ head → absorbLoop limit head fuel (head + 16 + s) mem a = mem a := by
  intro bs
  induction bs with
  | nil =>
    intro fuel s mem hh _ _ hlim _
    rw [span_nil] at hlim
    cases fuel with
    | zero => exact ⟨hh, fun a _ => rfl⟩
    | succ fuel => rw [absorbLoop, if_neg (by omega)]; exact ⟨hh, fun a _ => rfl⟩
  | cons b bs ih =>
    intro fuel s mem hh ht hfuel hlim hlt
    have hcond : head + 16 + s < limit ∧ top1 (mem (head + 16 + s)) ≠ 0 ↔
        32 < span 16 (b :: bs) ∧ b.free = true := by
      rw [free_of_header ht.1]; exact and_congr_left' ⟨fun _ => by omega, fun _ => by omega⟩
    rw [span_cons] at hfuel hlim hlt
    cases fuel with
    | zero =>
      rw [absorb, if_neg (by rw [span_cons]; omega)]
      exact ⟨hh, fun a _ => rfl⟩
    | succ fuel =>
      rw [absorbLoop, absorb]
      split
      · rename_i hc
        rw [if_pos (hcond.mp hc), size_of_header hh, size_of_header ht.1]
        dsimp only
        rw [setLow31_of_ne (by omega), size_of_header ht.1]
        unfold headerSize
        have hh' : (mem.setLow31 head (s + (b.size + 16))).header head =
            ⟨s + (b.size + 16), true⟩ := by
          rw [header_setLow31, hh, Nat.mod_eq_of_lt (by omega)]
        have ht' : Tiles 16 (mem.setLow31 head (s + (b.size + 16))).header
            (head + 16 + (s + (b.size + 16))) bs := by
          rw [show head + 16 + (s + (b.size + 16)) = head + 16 + s + 16 + b.size by omega]
          refine ht.2.congr fun y c hy => header_setLow31_of_ne ?_
          have := hy.bounds.1; omega
        have := @ih fuel _ _ hh' ht' (by omega) (by omega) (by omega)
        rw [show head + 16 + s + 16 + b.size = head + 16 + (s + (b.size + 16)) by omega]
        exact ⟨this.1, fun a ha => (this.2 a ha).trans (setLow31_of_ne ha)⟩
      · rename_i hc
        rw [if_neg (mt hcond.mpr hc)]
        exact ⟨hh, fun a _ => rfl⟩

/-- What is left of a tiling after `absorb` starts where the absorbed block ends. -/
theorem tiles_absorb {hd : Nat → Block} {x : Nat} : ∀ {bs : List Block} {s : Nat},
    Tiles 16 hd (x + 16 + s) bs →
      Tiles 16 hd (x + 16 + (absorb 16 32 s bs).1) (absorb 16 32 s bs).2 := by
  intro bs
  induction bs with
  | nil => intro s _; trivial
  | cons b bs ih =>
    intro s h
    rw [absorb]
    split
    · refine ih ?_
      rw [show x + 16 + (s + (b.size + 16)) = x + 16 + s + 16 + b.size by omega]
      exact h.2
    · exact h

/-- **The outer loop coalesces the blocks** and writes inside their range only. -/
theorem defragLoop_spec {limit : Nat} : ∀ {fuel x : Nat} {bs : List Block} {mem : Mem},
    Tiles 16 mem.header x bs → span 16 bs ≤ 16 * fuel + 32 → limit + 32 = x + span 16 bs →
    span 16 bs < 2 ^ 31 →
    Tiles 16 (defragLoop limit fuel x mem).header x (coalesce 16 32 bs) ∧
      ∀ a, (a < x ∨ x + span 16 bs ≤ a) → defragLoop limit fuel x mem a = mem a := by
  intro fuel
  induction fuel with
  | zero =>
    intro x bs mem ht hfuel _ _
    rw [coalesce_unseen (by omega)]
    exact ⟨ht, fun a _ => rfl⟩
  | succ fuel ih =>
    intro x bs mem ht hfuel hlim hlt
    rw [defragLoop]
    split
    · rename_i hx
      cases bs with
      | nil => rw [span_nil] at hlim; omega
      | cons b bs =>
        have hsz := size_of_header ht.1
        have hspan := @span_cons 16 b bs
        split
        · -- a used block: the walk goes on behind it
          rename_i hu
          have hb : b.free = false := by
            rw [← Bool.not_eq_true, ← free_of_header ht.1]; exact not_not.mpr hu
          rw [hsz]
          unfold headerSize
          obtain ⟨h1, h2⟩ := ih ht.2 (by omega) (by omega) (by omega)
          refine ⟨?_, fun a ha => h2 a (by omega)⟩
          have hg : coalesce 16 32 (b :: bs) = b :: coalesce 16 32 bs := by
            rw [coalesce]
            cases coalesce 16 32 bs with
            | nil => rfl
            | cons c cs => rw [glue, if_neg (by simp [hb])]
          rw [hg]
          exact ⟨by rw [header_congr (h2 x (by omega)), ht.1], h1⟩
        · -- a free block: it absorbs its free successors first
          rename_i hu
          obtain ⟨s, fb⟩ := b
          have hb : fb = true := (free_of_header ht.1).mp hu
          subst hb
          dsimp only at hsz hspan
          rw [hsz]
          unfold headerSize
          dsimp only
          obtain ⟨h1, h2⟩ := @absorbLoop_spec limit x bs (limit - (x + 16 + s)) s mem
            ht.1 ht.2 (by omega) (by omega) (by omega)
          generalize hm : absorbLoop limit x (limit - (x + 16 + s)) (x + 16 + s) mem = mem₁ at *
          have hrest : Tiles 16 mem₁.header (x + 16 + (absorb 16 32 s bs).1)
              (absorb 16 32 s bs).2 := by
            refine (tiles_absorb ht.2).congr fun y c hy => header_congr (h2 y ?_)
            have := hy.bounds.1; omega
          have hsa := @span_absorb 16 32 s bs
          have hge : s ≤ (absorb 16 32 s bs).1 := by
            have := @absorb_add 16 32 s 0 bs
            rw [Nat.add_zero] at this
            rw [this]; exact Nat.le_add_right _ _
          rw [size_of_header h1]
          obtain ⟨k1, k2⟩ := ih hrest (by omega) (by omega) (by omega)
          rw [coalesce_cons_free]
          refine ⟨⟨by rw [header_congr (k2 x (by omega)), h1], k1⟩, fun a ha => ?_⟩
          rw [k2 a (by omega), h2 a (by omega)]
    · rw [coalesce_unseen (by omega)]
      exact ⟨ht, fun a _ => rfl⟩

end Moonlight
