import Mathlib.Order.Basic

/-!
# Blocks that tile a range

A range of addresses is cut into blocks.  Each block is a header of `hdr` bytes and `size`
payload bytes, and the next header follows at once, so a list of blocks is a tiling of the range
that starts where its first header does.

* `span` — the length of a tiling; `At x bs y b` — laid out from `x` on, block `b` of `bs` has
  its header at `y`.  Two blocks of a tiling do not overlap (`At.disjoint`).
* `Tiles hd x bs` — the headers read from memory by `hd` are those of `bs`.
* `splitBlock` — a block handed out, with the remainder as a free block of its own.
* `coalesce` — merging of adjacent free blocks, by a walk that does not see the last `slack`
  bytes of the range.  It keeps the used blocks where they are (`at_coalesce_used`), and makes a
  single block of a tiling that is free and seen as a whole (`coalesce_all_free`).
-/

set_option autoImplicit false

namespace Sys

/-- What a header says about its block. -/
structure Block where
  size : Nat
  free : Bool
  deriving DecidableEq, Repr

namespace Tiling

variable {hdr slack : Nat}

/-- Length of the range that the blocks tile. -/
def span (hdr : Nat) : List Block → Nat
  | [] => 0
  | b :: bs => hdr + b.size + span hdr bs

/-- Laid out from `x` on, block `b` has its header at `y`. -/
def At (hdr : Nat) : Nat → List Block → Nat → Block → Prop
  | _, [], _, _ => False
  | x, c :: bs, y, b => y = x ∧ b = c ∨ At hdr (x + hdr + c.size) bs y b

/-- Memory holds the headers of the blocks. -/
def Tiles (hdr : Nat) (hd : Nat → Block) : Nat → List Block → Prop
  | _, [] => True
  | x, b :: bs => hd x = b ∧ Tiles hdr hd (x + hdr + b.size) bs

@[simp] theorem span_nil : span hdr [] = 0 := rfl

@[simp] theorem span_cons (b : Block) (bs : List Block) :
    span hdr (b :: bs) = hdr + b.size + span hdr bs := rfl

@[simp] theorem span_append (l r : List Block) : span hdr (l ++ r) = span hdr l + span hdr r := by
  induction l with
  | nil => simp
  | cons b l ih => simp [ih, Nat.add_assoc]

/-! ## Positions -/

@[simp] theorem at_nil (x y : Nat) (b : Block) : ¬ At hdr x [] y b := id

@[simp] theorem at_cons (x y : Nat) (b c : Block) (bs : List Block) :
    At hdr x (c :: bs) y b ↔ y = x ∧ b = c ∨ At hdr (x + hdr + c.size) bs y b := Iff.rfl

@[simp] theorem at_append {x y : Nat} {b : Block} (l r : List Block) :
    At hdr x (l ++ r) y b ↔ At hdr x l y b ∨ At hdr (x + span hdr l) r y b := by
  induction l generalizing x with
  | nil => simp
  | cons c l ih =>
    rw [List.cons_append, at_cons, at_cons, ih, span_cons, or_assoc]
    simp only [← Nat.add_assoc]

theorem At.bounds {x y : Nat} {b : Block} {bs : List Block} (h : At hdr x bs y b) :
    x ≤ y ∧ y + hdr + b.size ≤ x + span hdr bs := by
  induction bs generalizing x with
  | nil => exact absurd h (at_nil x y b)
  | cons c bs ih =>
    rw [span_cons]
    rcases h with ⟨rfl, rfl⟩ | h
    · omega
    · have := ih h; omega

/-- **Blocks of a tiling do not overlap.** -/
theorem At.disjoint {x y z : Nat} {b c : Block} {bs : List Block} (hb : At hdr x bs y b)
    (hc : At hdr x bs z c) :
    (y = z ∧ b = c) ∨ y + hdr + b.size ≤ z ∨ z + hdr + c.size ≤ y := by
  induction bs generalizing x with
  | nil => exact absurd hb (at_nil x y b)
  | cons d bs ih =>
    rcases hb with ⟨rfl, rfl⟩ | hb <;> rcases hc with ⟨rfl, rfl⟩ | hc
    · exact .inl ⟨rfl, rfl⟩
    · exact .inr (.inl hc.bounds.1)
    · exact .inr (.inr hb.bounds.1)
    · exact ih hb hc

theorem At.mem {x y : Nat} {b : Block} {bs : List Block} (h : At hdr x bs y b) : b ∈ bs := by
  induction bs generalizing x with
  | nil => exact absurd h (at_nil x y b)
  | cons c bs ih =>
    rcases h with ⟨-, rfl⟩ | h
    · exact List.mem_cons_self
    · exact List.mem_cons_of_mem _ (ih h)

theorem At.split {x y : Nat} {b : Block} {bs : List Block} (h : At hdr x bs y b) :
    ∃ l r, bs = l ++ b :: r ∧ y = x + span hdr l := by
  induction bs generalizing x with
  | nil => exact absurd h (at_nil x y b)
  | cons c bs ih =>
    rcases h with ⟨rfl, rfl⟩ | h
    · exact ⟨[], bs, rfl, rfl⟩
    · obtain ⟨l, r, rfl, hy⟩ := ih h
      exact ⟨c :: l, r, rfl, by rw [hy, span_cons]; omega⟩

/-- A block of a tiling is determined by what lies before it. -/
theorem append_cons_inj (hpos : 0 < hdr) {b b' : Block} {t t' : List Block} : ∀ {l l' : List Block},
    l ++ b :: t = l' ++ b' :: t' → span hdr l = span hdr l' → l = l' ∧ b = b' ∧ t = t' := by
  intro l
  induction l with
  | nil =>
    intro l' h hspan
    cases l' with
    | nil => exact ⟨rfl, List.cons.inj h⟩
    | cons c l' => rw [span_nil, span_cons] at hspan; omega
  | cons c l ih =>
    intro l' h hspan
    cases l' with
    | nil => rw [span_nil, span_cons] at hspan; omega
    | cons c' l' =>
      rw [List.cons_append, List.cons_append, List.cons.injEq] at h
      obtain ⟨rfl, htail⟩ := h
      rw [span_cons, span_cons] at hspan
      obtain ⟨rfl, hb⟩ := ih htail (by omega)
      exact ⟨rfl, hb⟩

theorem exists_at {b : Block} {bs : List Block} (x : Nat) (h : b ∈ bs) : ∃ y, At hdr x bs y b := by
  obtain ⟨l, r, rfl⟩ := List.append_of_mem h
  exact ⟨x + span hdr l, by simp⟩

/-! ## Headers in memory -/

theorem tiles_iff {hd : Nat → Block} {x : Nat} {bs : List Block} :
    Tiles hdr hd x bs ↔ ∀ y b, At hdr x bs y b → hd y = b := by
  induction bs generalizing x with
  | nil => simp [Tiles]
  | cons c bs ih =>
    rw [Tiles, ih]
    constructor
    · rintro ⟨h1, h2⟩ y b (⟨rfl, rfl⟩ | h)
      · exact h1
      · exact h2 y b h
    · exact fun h => ⟨h x c (.inl ⟨rfl, rfl⟩), fun y b hb => h y b (.inr hb)⟩

theorem tiles_append {hd : Nat → Block} {x : Nat} (l r : List Block) :
    Tiles hdr hd x (l ++ r) ↔ Tiles hdr hd x l ∧ Tiles hdr hd (x + span hdr l) r := by
  simp only [tiles_iff, at_append]
  exact ⟨fun h => ⟨fun y b hb => h y b (.inl hb), fun y b hb => h y b (.inr hb)⟩,
    fun h y b hb => hb.elim (h.1 y b) (h.2 y b)⟩

/-- A tiling depends on the headers inside its range only. -/
theorem Tiles.congr {hd hd' : Nat → Block} {x : Nat} {bs : List Block} (h : Tiles hdr hd x bs)
    (heq : ∀ y b, At hdr x bs y b → hd' y = hd y) : Tiles hdr hd' x bs :=
  tiles_iff.mpr fun y b hb => (heq y b hb).trans (tiles_iff.mp h y b hb)

/-- Memory holds the headers of one tiling of a range only. -/
theorem Tiles.unique {hd : Nat → Block} (hpos : 0 < hdr) {bs : List Block} : ∀ {x : Nat}
    {cs : List Block}, Tiles hdr hd x bs → Tiles hdr hd x cs → span hdr bs = span hdr cs →
    bs = cs := by
  induction bs with
  | nil =>
    intro x cs _ _ hspan
    cases cs with
    | nil => rfl
    | cons c cs => rw [span_nil, span_cons] at hspan; omega
  | cons b bs ih =>
    intro x cs hb hc hspan
    cases cs with
    | nil => rw [span_nil, span_cons] at hspan; omega
    | cons c cs =>
      obtain rfl : b = c := hb.1.symm.trans hc.1
      rw [span_cons, span_cons] at hspan
      rw [ih hb.2 hc.2 (by omega)]

/-! ## The blocks that a walk sees -/

/-- A walk that stops `slack` bytes before the end of the range sees every block. -/
def Seen (hdr slack : Nat) : List Block → Prop
  | [] => True
  | b :: bs => slack < span hdr (b :: bs) ∧ Seen hdr slack bs

theorem seen_append {l r : List Block} (hr : r ≠ []) :
    Seen hdr slack (l ++ r) ↔ Seen hdr slack r := by
  induction l with
  | nil => rfl
  | cons b l ih =>
    rw [List.cons_append, Seen, ih]
    refine ⟨And.right, fun h => ⟨?_, h⟩⟩
    cases r with
    | nil => exact absurd rfl hr
    | cons c r => have := h.1; simp only [span_cons, span_append] at this ⊢; omega

/-! ## Splitting -/

/-- The blocks that a free block of `size` bytes becomes when `n` bytes of it are handed out:
a block of more than `keep` bytes is cut in two. -/
def splitBlock (hdr keep n size : Nat) : List Block :=
  if keep < size then [⟨n, false⟩, ⟨size - (hdr + n), true⟩] else [⟨size, false⟩]

theorem span_splitBlock {keep n size : Nat} (h : hdr + n ≤ size) :
    span hdr (splitBlock hdr keep n size) = hdr + size := by
  unfold splitBlock
  split
  · simp only [span_cons, span_nil]; omega
  · rfl

theorem dvd_size_splitBlock {k keep n size : Nat} (hk : k ∣ hdr) (hn : k ∣ n) (hs : k ∣ size) :
    ∀ c ∈ splitBlock hdr keep n size, k ∣ c.size := by
  unfold splitBlock
  split
  · exact List.forall_mem_cons.mpr
      ⟨hn, List.forall_mem_cons.mpr ⟨Nat.dvd_sub hs (Nat.dvd_add hk hn), by simp⟩⟩
  · exact List.forall_mem_cons.mpr ⟨hs, by simp⟩

/-! ## Coalescing -/

/-- Put a block in front of a tiling, as one with its first block if both are free and the walk
sees that one. -/
def glue (hdr slack : Nat) (b : Block) : List Block → List Block
  | [] => [b]
  | c :: cs =>
    if b.free ∧ c.free ∧ slack < span hdr (c :: cs) then ⟨b.size + (c.size + hdr), true⟩ :: cs
    else b :: c :: cs

/-- Merge adjacent free blocks. -/
def coalesce (hdr slack : Nat) : List Block → List Block
  | [] => []
  | b :: bs => glue hdr slack b (coalesce hdr slack bs)

/-- What the free blocks in front of a tiling add to a free block of `s` bytes before them, and
what is left of the tiling. -/
def absorb (hdr slack : Nat) : Nat → List Block → Nat × List Block
  | s, [] => (s, [])
  | s, b :: bs =>
    if slack < span hdr (b :: bs) ∧ b.free then absorb hdr slack (s + (b.size + hdr)) bs
    else (s, b :: bs)

theorem span_glue (b : Block) (bs : List Block) :
    span hdr (glue hdr slack b bs) = span hdr (b :: bs) := by
  cases bs with
  | nil => rfl
  | cons c cs =>
    rw [glue]
    split
    · simp only [span_cons]; omega
    · rfl

theorem span_coalesce (bs : List Block) : span hdr (coalesce hdr slack bs) = span hdr bs := by
  induction bs with
  | nil => rfl
  | cons b bs ih => rw [coalesce, span_glue, span_cons, span_cons, ih]

theorem at_glue_used {x y s : Nat} {b : Block} {bs : List Block} :
    At hdr x (glue hdr slack b bs) y ⟨s, false⟩ ↔ At hdr x (b :: bs) y ⟨s, false⟩ := by
  cases bs with
  | nil => rfl
  | cons c cs =>
    rw [glue]
    split
    · rename_i h
      obtain ⟨n, fb⟩ := b
      obtain ⟨m, fc⟩ := c
      obtain ⟨rfl, rfl, -⟩ := h
      simp only [at_cons, Block.mk.injEq, Bool.false_eq_true, and_false, false_or]
      rw [show x + hdr + (n + (m + hdr)) = x + hdr + n + hdr + m by omega]
    · rfl

/-- **Used blocks stay where they are.** -/
theorem at_coalesce_used {x y s : Nat} {bs : List Block} :
    At hdr x (coalesce hdr slack bs) y ⟨s, false⟩ ↔ At hdr x bs y ⟨s, false⟩ := by
  induction bs generalizing x with
  | nil => rfl
  | cons b bs ih => rw [coalesce, at_glue_used, at_cons, at_cons, ih]

theorem dvd_size_glue {k : Nat} (hk : k ∣ hdr) {b : Block} {bs : List Block} (hb : k ∣ b.size)
    (hbs : ∀ c ∈ bs, k ∣ c.size) : ∀ c ∈ glue hdr slack b bs, k ∣ c.size := by
  cases bs with
  | nil => simpa [glue] using hb
  | cons c cs =>
    obtain ⟨hc, hcs⟩ := List.forall_mem_cons.mp hbs
    rw [glue]
    split
    · exact List.forall_mem_cons.mpr ⟨Nat.dvd_add hb (Nat.dvd_add hc hk), hcs⟩
    · exact List.forall_mem_cons.mpr ⟨hb, hbs⟩

theorem dvd_size_coalesce {k : Nat} (hk : k ∣ hdr) {bs : List Block} (h : ∀ b ∈ bs, k ∣ b.size) :
    ∀ b ∈ coalesce hdr slack bs, k ∣ b.size := by
  induction bs with
  | nil => exact h
  | cons b bs ih =>
    obtain ⟨hb, hbs⟩ := List.forall_mem_cons.mp h
    exact dvd_size_glue hk hb (ih hbs)

theorem seen_glue {b : Block} {bs : List Block} (h : Seen hdr slack (b :: bs)) :
    Seen hdr slack (glue hdr slack b bs) := by
  cases bs with
  | nil => exact h
  | cons c cs =>
    rw [glue]
    split
    · refine ⟨?_, h.2.2⟩
      have := h.1
      simp only [span_cons] at this ⊢
      omega
    · exact h

theorem seen_coalesce {bs : List Block} (h : Seen hdr slack bs) :
    Seen hdr slack (coalesce hdr slack bs) := by
  induction bs with
  | nil => trivial
  | cons b bs ih =>
    refine seen_glue ⟨?_, ih h.2⟩
    rw [span_cons, span_coalesce]
    exact h.1

theorem seen_of_glue {b : Block} {bs : List Block} (h : Seen hdr slack (glue hdr slack b bs)) :
    Seen hdr slack (b :: bs) := by
  cases bs with
  | nil => exact h
  | cons c cs =>
    rw [glue] at h
    split at h
    · rename_i hc
      refine ⟨?_, hc.2.2, h.2⟩
      have := hc.2.2
      simp only [span_cons] at this ⊢
      omega
    · exact h

/-- Coalescing does not bring an unseen block into sight. -/
theorem seen_of_coalesce {bs : List Block} (h : Seen hdr slack (coalesce hdr slack bs)) :
    Seen hdr slack bs := by
  induction bs with
  | nil => trivial
  | cons b bs ih =>
    obtain ⟨h1, h2⟩ := seen_of_glue h
    refine ⟨?_, ih h2⟩
    rwa [span_cons, span_coalesce] at h1

/-- **A tiling that is free and seen as a whole becomes one block.** -/
theorem coalesce_all_free {b : Block} {bs : List Block} (hseen : Seen hdr slack (b :: bs))
    (hfree : ∀ c ∈ b :: bs, c.free = true) :
    ∃ s, coalesce hdr slack (b :: bs) = [⟨s, true⟩] := by
  induction bs generalizing b with
  | nil => exact ⟨b.size, by rw [← hfree b List.mem_cons_self]; rfl⟩
  | cons c cs ih =>
    obtain ⟨hb, hcs⟩ := List.forall_mem_cons.mp hfree
    obtain ⟨s, hs⟩ := ih hseen.2 hcs
    refine ⟨b.size + (s + hdr), ?_⟩
    have hsp : slack < span hdr [⟨s, true⟩] := by rw [← hs, span_coalesce]; exact hseen.2.1
    rw [coalesce, hs, glue, if_pos ⟨hb, rfl, hsp⟩]

/-- A walk that sees nothing of a tiling leaves it as it is. -/
theorem coalesce_unseen {bs : List Block} (h : span hdr bs ≤ slack) :
    coalesce hdr slack bs = bs := by
  induction bs with
  | nil => rfl
  | cons b bs ih =>
    rw [span_cons] at h
    rw [coalesce, ih (by omega)]
    cases bs with
    | nil => rfl
    | cons c cs => rw [glue, if_neg (fun k => by omega)]

theorem absorb_add (s t : Nat) (bs : List Block) :
    absorb hdr slack (s + t) bs = (s + (absorb hdr slack t bs).1, (absorb hdr slack t bs).2) := by
  induction bs generalizing t with
  | nil => rfl
  | cons b bs ih =>
    simp only [absorb]
    split
    · rw [Nat.add_assoc, ih]
    · rfl

theorem span_absorb (s : Nat) (bs : List Block) :
    (absorb hdr slack s bs).1 + span hdr (absorb hdr slack s bs).2 = s + span hdr bs := by
  induction bs generalizing s with
  | nil => rfl
  | cons b bs ih =>
    rw [absorb]
    split
    · rw [ih, span_cons]; omega
    · rfl

/-- The first block and the free blocks after it are merged in one go. -/
theorem coalesce_cons_free (s : Nat) (bs : List Block) :
    coalesce hdr slack (⟨s, true⟩ :: bs) =
      ⟨(absorb hdr slack s bs).1, true⟩ :: coalesce hdr slack (absorb hdr slack s bs).2 := by
  induction bs generalizing s with
  | nil => rfl
  | cons b bs ih =>
    have hlen : span hdr (coalesce hdr slack (b :: bs)) = span hdr (b :: bs) := span_coalesce _
    by_cases h : slack < span hdr (b :: bs) ∧ b.free = true
    · obtain ⟨n, fb⟩ := b
      obtain ⟨h1, rfl⟩ := h
      rw [absorb, if_pos ⟨h1, rfl⟩, coalesce, ih n]
      rw [ih n] at hlen
      rw [glue, if_pos ⟨rfl, rfl, by rw [hlen]; exact h1⟩,
        show s + (n + hdr) = s + hdr + n by omega, absorb_add]
      simp only [Nat.add_assoc, Nat.add_comm, Nat.add_left_comm]
    · rw [absorb, if_neg h, coalesce]
      by_cases hsp : slack < span hdr (b :: bs)
      · -- the next block is used: it stays in front
        have hb : b.free = false := by simpa using not_and.mp h hsp
        have : ∃ cs, coalesce hdr slack (b :: bs) = b :: cs := by
          rw [coalesce]
          cases coalesce hdr slack bs with
          | nil => exact ⟨[], rfl⟩
          | cons c cs => exact ⟨c :: cs, by rw [glue, if_neg (by simp [hb])]⟩
        obtain ⟨cs, hcs⟩ := this
        rw [hcs, glue, if_neg (by simp [hb])]
      · rw [coalesce_unseen (by omega), glue, if_neg (fun k => hsp k.2.2)]

end Tiling

end Sys
