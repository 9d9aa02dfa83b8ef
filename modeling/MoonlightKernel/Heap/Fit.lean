import MoonlightKernel.Heap.Sizes

/-!
# The free space of a region

`try_allocate` should hand out the first free block that holds the request.  Its test compares with
`<` where it means `≤`, so a hole of exactly the rounded size is passed over.

* `FirstFit` — the first block that holds a request;
* `UsableFor` — `try_allocate` hands it out, and changes nothing else in the region;
* `usable_iff` — it does exactly when that block is larger than the request.
-/

set_option autoImplicit false

namespace Moonlight

open Sys Sys.Bitmap Sys.Tiling Region

variable {L : Layout}

/-- A size rounded up to 16. -/
def roundUp16 (n : Nat) : Nat := (n + 15) / 16 * 16

/-- `b`, between the blocks `l` and `t`, is the first free block of at least `size` bytes. -/
structure FirstFit (size : Nat) (bs l : List Block) (b : Block) (t : List Block) : Prop where
  split : bs = l ++ b :: t
  free : b.free = true
  holds : size ≤ b.size
  earlier : ∀ c ∈ l, ¬ (c.free = true ∧ size ≤ c.size)

/-- The blocks that `try_allocate` leaves of `b`: `b` marked used, or a used block in its place and
a free one behind it. -/
inductive Carved (size : Nat) (b : Block) : List Block → Prop
  | whole : Carved size b [⟨b.size, false⟩]
  | cut (s k : Nat) (hs : size ≤ s) (hk : s + 16 + k = b.size) :
      Carved size b [⟨s, false⟩, ⟨k, true⟩]

/-- `try_allocate` hands out the first block that holds `n` bytes, if there is one, and leaves
every other block of the region as it is. -/
structure UsableFor (r : Region L) (n : Nat) (mem : Mem) : Prop where
  found : (tryAllocate r.base n mem).1 ≠ 0 ↔ ∃ b ∈ r.blocks, b.free = true ∧ roundUp16 n ≤ b.size
  first : ∀ l b t, FirstFit (roundUp16 n) r.blocks l b t →
    (tryAllocate r.base n mem).1 = r.base + 32 + span 16 l + 16 ∧
      ∃ (r' : Region L) (mid : List Block), r'.Shown (tryAllocate r.base n mem).2 ∧
        r'.base = r.base ∧ r'.virtual = r.virtual ∧ r'.blocks = l ++ (mid ++ t) ∧
        Carved (roundUp16 n) b mid

/-- A list with a block that holds the size has a first one. -/
theorem exists_firstFit {size : Nat} {bs : List Block}
    (h : ∃ b ∈ bs, b.free = true ∧ size ≤ b.size) : ∃ l b t, FirstFit size bs l b t := by
  induction bs with
  | nil =>
    obtain ⟨b, hb, -⟩ := h
    exact absurd hb List.not_mem_nil
  | cons c bs ih =>
    by_cases hc : c.free = true ∧ size ≤ c.size
    · exact ⟨[], c, bs, rfl, hc.1, hc.2, by simp⟩
    · obtain ⟨b, hb, hfit⟩ := h
      rcases List.mem_cons.mp hb with rfl | hb
      · exact absurd hfit hc
      · obtain ⟨l, d, t, h⟩ := ih ⟨b, hb, hfit⟩
        exact ⟨c :: l, d, t, by rw [h.split, List.cons_append], h.free, h.holds,
          List.forall_mem_cons.mpr ⟨hc, h.earlier⟩⟩

/-- **The walk stops at the first block that it takes.** -/
theorem fitHead_first {limit allocSize : Nat} {mem : Mem} {b : Block} {t : List Block}
    (hb : b.free = true) (hfit : allocSize < b.size) : ∀ {l : List Block} {fuel x : Nat},
    Tiles 16 mem.header x (l ++ b :: t) → span 16 (l ++ b :: t) ≤ 16 * fuel + 32 →
    limit + 32 = x + span 16 (l ++ b :: t) → x + span 16 l < limit →
    (∀ c ∈ l, ¬ (c.free = true ∧ allocSize < c.size)) →
    fitHead limit allocSize mem fuel x = some (x + span 16 l) := by
  intro l
  induction l with
  | nil =>
    intro fuel x ht hfuel hlim hlt _
    rw [List.nil_append, span_cons] at hfuel hlim
    rw [span_nil] at hlt ⊢
    cases fuel with
    | zero => omega
    | succ fuel =>
      rw [fitHead, if_pos (by omega), size_of_header ht.1,
        if_pos ⟨hfit, (free_of_header ht.1).mpr hb⟩, Nat.add_zero]
  | cons c l ih =>
    intro fuel x ht hfuel hlim hlt hearlier
    obtain ⟨hc, hl⟩ := List.forall_mem_cons.mp hearlier
    rw [List.cons_append, span_cons] at hfuel hlim
    rw [span_cons] at hlt
    cases fuel with
    | zero => omega
    | succ fuel =>
      have hno : ¬ (allocSize < c.size ∧ top1 (mem x) ≠ 0) := fun k =>
        hc ⟨(free_of_header ht.1).mp k.2, k.1⟩
      rw [fitHead, if_pos (by omega), size_of_header ht.1, if_neg hno, headerSize,
        ih ht.2 (by omega) (by omega) (by omega) hl, span_cons]
      congr 1
      omega

/-- Where `try_allocate` stops in a region whose first block for the request is larger. -/
theorem entryFit_first {r : Region L} {mem : Mem} (hr : r.Shown mem) {n : Nat} (hn : 1 ≤ n)
    (hn' : n ≤ HEAP_SIZE) {l t : List Block} {b : Block}
    (h : FirstFit (roundUp16 n) r.blocks l b t) (hne : b.size ≠ roundUp16 n) :
    entryFit r.base n mem = some (r.base + 32 + span 16 l) := by
  have halign : MALLOC_ALIGN n = roundUp16 n := MALLOC_ALIGN_of_le (by
    unfold HEAP_SIZE at hn'
    omega)
  have hdvd : 16 ∣ b.size := r.sizes b (by rw [h.split]; simp)
  have hholds := h.holds
  have hsize : r.size = span 16 l + (16 + b.size + span 16 t) := by
    rw [size, h.split, span_append, span_cons]
  have ht := hr.tiles
  rw [h.split] at ht
  have hspan : span 16 (l ++ b :: t) = r.size := by rw [← h.split, size]
  unfold entryFit
  rw [hr.walkEnd_eq, hr.pageSize, heapListSize, halign]
  -- a block with room for the request and a header is not in the last 32 bytes
  refine fitHead_first h.free ?_ ht ?_ ?_ ?_ fun c hc k => h.earlier c hc ⟨k.1, Nat.le_of_lt k.2⟩
  · omega
  · omega
  · omega
  · unfold roundUp16 at hholds hne
    omega

/-- **The free space of a region is usable** exactly when the first block that holds the request is
not of the rounded size itself. -/
theorem usable_iff (r : Region L) (n : Nat) (mem : Mem) (hr : r.Shown mem) (hn : 1 ≤ n)
    (hn' : n ≤ HEAP_SIZE) :
    UsableFor r n mem ↔
      ∀ l b t, FirstFit (roundUp16 n) r.blocks l b t → b.size ≠ roundUp16 n := by
  have halign : MALLOC_ALIGN n = roundUp16 n := MALLOC_ALIGN_of_le (by
    unfold HEAP_SIZE at hn'
    omega)
  constructor
  · intro h l b t hfirst hsize
    obtain ⟨hptr, -⟩ := h.first l b t hfirst
    rw [tryAllocate_eq] at hptr
    rcases entryFit_spec hr n with hnone | ⟨r', l', b', t', hhand, hsome, -⟩
    · rw [hnone] at hptr
      dsimp only at hptr
      omega
    · -- the block handed out would be that one, and it is too small
      rw [hsome, headerSize] at hptr
      dsimp only at hptr
      obtain ⟨-, rfl, -⟩ := append_cons_inj (by decide : 0 < 16)
        (hfirst.split.symm.trans hhand.before) (by omega)
      have hfits := hhand.fits
      omega
  · intro h
    refine ⟨⟨fun hne => ?_, fun hex => ?_⟩, fun l b t hfirst => ?_⟩
    · rw [tryAllocate_eq] at hne
      rcases entryFit_spec hr n with hnone | ⟨r', l, b, t, hhand, -⟩
      · rw [hnone] at hne
        exact absurd rfl hne
      · have hfits := hhand.fits
        exact ⟨b, by rw [hhand.before]; simp, hhand.free, by omega⟩
    · obtain ⟨l, b, t, hfirst⟩ := exists_firstFit hex
      rw [tryAllocate_eq, entryFit_first hr hn hn' hfirst (h l b t hfirst), headerSize]
      dsimp only
      omega
    · have hentry := entryFit_first hr hn hn' hfirst (h l b t hfirst)
      rw [tryAllocate_eq, hentry]
      refine ⟨rfl, ?_⟩
      rcases entryFit_spec hr n with hnone | ⟨r', l', b', t', hhand, hsome, hshown, -⟩
      · rw [hentry] at hnone
        cases hnone
      · rw [hentry, Option.some.injEq] at hsome
        obtain ⟨rfl, rfl, rfl⟩ := append_cons_inj (by decide : 0 < 16)
          (hfirst.split.symm.trans hhand.before) (by omega)
        refine ⟨r', _, hshown, hhand.base, hhand.virtual, hhand.after, ?_⟩
        have hfits := hhand.fits
        have hdvd := hhand.dvd
        have hal := hhand.aligned
        rw [halign] at hfits hal ⊢
        unfold splitBlock
        split
        · exact .cut _ _ (Nat.le_refl _) (by omega)
        · exact .whole

/-- The region of one page with a hole of 112 bytes, as `kmalloc` of 100 and of 3900 bytes and a
release of the first leave it. -/
def Region.withHole : Region .sample where
  base := 0xC0780000
  virtual := 0
  blocks := [⟨112, true⟩, ⟨3904, false⟩, ⟨0, true⟩]
  sizes := by decide
  aligned := by decide
  pages := by decide
  lo := by decide
  hi := by decide

/-- The four headers of the region. -/
def memWithHole (a : Nat) : Nat :=
  if a = 0xC0780000 then 4064
  else if a = 0xC0780020 then 112 + 2 ^ 31
  else if a = 0xC07800A0 then 3904
  else if a = 0xC0780FF0 then 2 ^ 31
  else 0

theorem shown_withHole : Region.withHole.Shown memWithHole :=
  ⟨by decide, by decide, by decide, by decide, by decide, trivial⟩

/-- A smaller request is served from the hole. -/
theorem hole_is_usable_for_less : UsableFor Region.withHole 90 memWithHole := by
  refine (usable_iff _ _ _ shown_withHole (by decide) (by decide)).mpr fun l b t h => ?_
  have hb : b ∈ Region.withHole.blocks := by
    rw [h.split]
    simp
  have hall : ∀ c ∈ Region.withHole.blocks, c.size ≠ roundUp16 90 := by decide
  exact hall b hb

/-- The request whose hole it is gets nothing. -/
theorem hole_is_not_usable_again :
    Region.withHole.Shown memWithHole ∧ (tryAllocate 0xC0780000 100 memWithHole).1 = 0 ∧
      ¬ UsableFor Region.withHole 100 memWithHole := by
  have hnull : (tryAllocate 0xC0780000 100 memWithHole).1 = 0 := by decide +kernel
  refine ⟨shown_withHole, hnull, fun h => ?_⟩
  exact h.found.mpr ⟨⟨112, true⟩, by decide, rfl, by decide⟩ hnull

end Moonlight
