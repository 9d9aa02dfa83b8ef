import MoonlightKernel.Lib.Bitmap
import MoonlightKernel.Lib.Run
import MoonlightKernel.Word

/-!
# Physical frames: `kernel/mem/phys_mem_management.c`

`mm_bitmap` has one bit for each of the `MAX_RAM_PAGE` physical pages; a set bit marks a free
page.  The file models `alloc_phys_block`, `free_phys_block` and `get_phys_block`
(`phys_bzero` writes page contents and is in `MoonlightKernel.Paging`), and proves

* `getPhysBlock_spec` — what a call returns and what it does to the bitmap, and
  `getPhysBlock_ne_zero_iff`, when it returns a block;
* `frames_conserved` — over every sequence of allocations and matching releases the free set
  is the initial free set minus the live blocks.

The messages that the source prints on a double allocation or a double release change no
state and are left out.
-/

set_option autoImplicit false

namespace Moonlight

open Sys Sys.Bitmap

def MAX_RAM_PAGE : Nat := 0x100000

def LOW_MEMORY_SIZE : Nat := 0x9FC00

/-- Page `p` is marked free in `mm_bitmap`. -/
abbrev isFree (mmBitmap : Bytes) (p : Nat) : Bool := isSet mmBitmap p

/-- `alloc_phys_block`. -/
def allocPhysBlock : Nat → Nat → Bytes → Bytes
  | _, 0, mmBitmap => mmBitmap
  | start, size + 1, mmBitmap =>
    allocPhysBlock (add32 start 4096) size
      (clearBit mmBitmap (ACCESS_BITMAP_BY_ADDR start) ((start >>> 12) % 8))

/-- `free_phys_block`. -/
def freePhysBlock : Nat → Nat → Bytes → Bytes
  | _, 0, mmBitmap => mmBitmap
  | start, size + 1, mmBitmap =>
    if ACCESS_BITMAP_BY_ADDR start ≥ MAX_RAM_PAGE / 8 then mmBitmap
    else
      freePhysBlock (add32 start 4096) size
        (setBit mmBitmap (ACCESS_BITMAP_BY_ADDR start) ((start >>> 12) % 8))

/-- `get_phys_block`; `0` is the null pointer. -/
def getPhysBlock (nbPages : Nat) (mmBitmap : Bytes) : Nat × Bytes :=
  match scanBytes mmBitmap nbPages (MAX_RAM_PAGE / 8 - LOW_MEMORY_SIZE >>> 12)
      (LOW_MEMORY_SIZE >>> 12) 0 with
  | some p => (p <<< 12, allocPhysBlock (p <<< 12) nbPages mmBitmap)
  | none => (0, mmBitmap)

/-! ## The release and the reservation as runs of bits -/

theorem allocPhysBlock_eq (size : Nat) : ∀ (start : Nat) (bm : Bytes),
    start / 4096 + size ≤ 2 ^ 20 →
      allocPhysBlock start size bm = clearRun (start / 4096) size bm := by
  induction size with
  | zero => intro start bm _; rw [allocPhysBlock, clearRun]
  | succ size ih =>
    intro start bm h
    rw [allocPhysBlock, clearRun, ACCESS_BITMAP_BY_ADDR_eq, shiftRight_page]
    cases size with
    | zero => rw [allocPhysBlock, clearRun]
    | succ size =>
      rw [add32_of_lt (by omega), ih _ _ (by omega),
        show (start + 4096) / 4096 = start / 4096 + 1 by omega]

theorem freePhysBlock_eq (size : Nat) : ∀ (start : Nat) (bm : Bytes),
    start / 4096 + size ≤ 2 ^ 20 →
      freePhysBlock start size bm = setRun (start / 4096) size bm := by
  induction size with
  | zero => intro start bm _; rw [freePhysBlock, setRun]
  | succ size ih =>
    intro start bm h
    have hin : ¬ start / 4096 / 8 ≥ MAX_RAM_PAGE / 8 := by unfold MAX_RAM_PAGE; omega
    rw [freePhysBlock, setRun, ACCESS_BITMAP_BY_ADDR_eq, if_neg hin, shiftRight_page]
    cases size with
    | zero => rw [freePhysBlock, setRun]
    | succ size =>
      rw [add32_of_lt (by omega), ih _ _ (by omega),
        show (start + 4096) / 4096 = start / 4096 + 1 by omega]

theorem isFree_freePhysBlock {start size : Nat} (h : start / 4096 + size ≤ 2 ^ 20) (bm : Bytes)
    (p : Nat) : isFree (freePhysBlock start size bm) p =
      (isFree bm p || decide (start / 4096 ≤ p ∧ p < start / 4096 + size)) := by
  rw [freePhysBlock_eq _ _ _ h]; exact isSet_setRun _ _ _ _

/-- The two outcomes of `get_phys_block`: the null pointer and an unchanged bitmap, or a run
of free pages at or above the start of the search, now allocated. -/
theorem getPhysBlock_spec (n : Nat) (bm : Bytes) :
    getPhysBlock n bm = (0, bm) ∨
      ∃ p, getPhysBlock n bm = (p * 4096, clearRun p n bm) ∧ 1272 ≤ p ∧ p + n < 2 ^ 20 ∧
        ∀ q, p ≤ q → q < p + n → isFree bm q = true := by
  unfold getPhysBlock
  split
  · rename_i p hp
    rw [scanBytes_eq] at hp
    obtain ⟨h1, h2, h3⟩ := findRun_some 1272 (by decide)
      (fun q hq hq' => absurd hq (by simp [LOW_MEMORY_SIZE] at hq' ⊢; omega)) hp
    have h2' : p + n < 2 ^ 20 := Nat.lt_of_lt_of_eq h2 (by decide)
    refine Or.inr ⟨p, ?_, h1, h2', h3⟩
    rw [shiftLeft_page, allocPhysBlock_eq _ _ _ (by omega), Nat.mul_div_cancel _ (by decide)]
  · exact Or.inl rfl

/-- `get_phys_block` succeeds on a run of free pages, if the run does not end with the last page:
the length is tested before the bit of the page is looked at. -/
theorem getPhysBlock_ne_zero_iff (n : Nat) (bm : Bytes) :
    (getPhysBlock n bm).1 ≠ 0 ↔ HasRun bm 1272 (2 ^ 20 - 1) n := by
  have hscan : scanBytes bm n (MAX_RAM_PAGE / 8 - LOW_MEMORY_SIZE >>> 12) (LOW_MEMORY_SIZE >>> 12) 0
      ≠ none ↔ HasRun bm 1272 (2 ^ 20 - 1) n := scanBytes_ne_none_iff (by decide)
  rw [← hscan, getPhysBlock]
  cases hs : scanBytes bm n (MAX_RAM_PAGE / 8 - LOW_MEMORY_SIZE >>> 12) (LOW_MEMORY_SIZE >>> 12) 0 with
  | none => simp
  | some p =>
    rw [scanBytes_eq] at hs
    have hp := (findRun_some 1272 (by decide)
      (fun q hq hq' => absurd hq (by simp [LOW_MEMORY_SIZE] at hq' ⊢; omega)) hs).1
    simp only [shiftLeft_page, ne_eq, reduceCtorEq, not_false_eq_true, iff_true]
    omega

/-! ## Conservation of frames over runs -/

/-- The bitmap together with the blocks `(address, pages)` that have been handed out and not
released yet. -/
structure PhysState where
  mmBitmap : Bytes
  live : List (Nat × Nat)

/-- A call of a client of the frame allocator. -/
inductive PhysOp where
  | get (nbPages : Nat)
  | free (addr nbPages : Nat)

/-- One call.  A client asks for at least one page and releases live blocks only. -/
def physStep (s : PhysState) : PhysOp → PhysState → Prop
  | .get n, t => 1 ≤ n ∧ t.mmBitmap = (getPhysBlock n s.mmBitmap).2 ∧
      t.live = if (getPhysBlock n s.mmBitmap).1 = 0 then s.live
        else ((getPhysBlock n s.mmBitmap).1, n) :: s.live
  | .free a n, t => (a, n) ∈ s.live ∧ t.mmBitmap = freePhysBlock a n s.mmBitmap ∧
      t.live = s.live.erase (a, n)

/-- Page `p` belongs to the block `b`. -/
def InBlock (b : Nat × Nat) (p : Nat) : Prop := b.1 / 4096 ≤ p ∧ p < b.1 / 4096 + b.2

/-- The state of the allocator accounts for every frame of the initial bitmap. -/
structure Conserved (bm : Bytes) (s : PhysState) : Prop where
  aligned : ∀ b ∈ s.live, b.1 ≠ 0 ∧ b.1 % 4096 = 0
  inRange : ∀ b ∈ s.live, b.1 / 4096 + b.2 ≤ 2 ^ 20
  disjoint : s.live.Pairwise fun b c => ∀ p, InBlock b p → ¬ InBlock c p
  initial : ∀ b ∈ s.live, ∀ p, InBlock b p → isFree bm p = true
  free : ∀ p, isFree s.mmBitmap p = true ↔ isFree bm p = true ∧ ∀ b ∈ s.live, ¬ InBlock b p

/-- What a call of `get_phys_block` may return in a state. -/
def HandsOutFree (bm : Bytes) (s : PhysState) (n : Nat) : Prop :=
  let r := getPhysBlock n s.mmBitmap
  if r.1 = 0 then r.2 = s.mmBitmap
  else r.1 % 4096 = 0 ∧ r.1 / 4096 + n ≤ 2 ^ 20 ∧
    ∀ p, InBlock (r.1, n) p → isFree s.mmBitmap p = true ∧ isFree bm p = true

theorem Conserved.init (bm : Bytes) : Conserved bm ⟨bm, []⟩ :=
  ⟨by simp, by simp, .nil, by simp, by simp⟩

theorem Conserved.handsOut {bm : Bytes} {s : PhysState} (hs : Conserved bm s) (n : Nat) :
    HandsOutFree bm s n := by
  unfold HandsOutFree
  rcases getPhysBlock_spec n s.mmBitmap with h | ⟨p, h, hlo, hhi, hfree⟩
  · simp [h]
  · simp only [h]
    rw [if_neg (by omega)]
    refine ⟨by omega, by omega, fun q hq => ?_⟩
    have hq' : isFree s.mmBitmap q = true := by
      unfold InBlock at hq
      exact hfree q (by simp at hq; omega) (by simp at hq; omega)
    exact ⟨hq', ((hs.free q).mp hq').1⟩

theorem Conserved.get {bm : Bytes} {s t : PhysState} {n : Nat} (hs : Conserved bm s)
    (h : physStep s (.get n) t) : Conserved bm t := by
  obtain ⟨-, hbm, hlive⟩ := h
  rcases getPhysBlock_spec n s.mmBitmap with hg | ⟨p, hg, hlo, hhi, hfree⟩
  · rw [hg] at hbm hlive
    obtain ⟨tbm, tlive⟩ := t
    simp only [↓reduceIte] at hbm hlive
    subst hbm hlive
    exact hs
  · rw [hg] at hbm hlive
    simp only at hbm
    rw [if_neg (by simp only; omega)] at hlive
    have hin : ∀ q, InBlock (p * 4096, n) q ↔ p ≤ q ∧ q < p + n := fun q => by
      unfold InBlock; rw [Nat.mul_div_cancel _ (by decide)]
    have hfresh : ∀ q, InBlock (p * 4096, n) q → isFree s.mmBitmap q = true := fun q hq => by
      rw [hin] at hq; exact hfree q hq.1 hq.2
    constructor
    · rw [hlive]
      exact List.forall_mem_cons.mpr ⟨⟨by simp only; omega, by simp only; omega⟩, hs.aligned⟩
    · rw [hlive]
      exact List.forall_mem_cons.mpr ⟨by simp only; omega, hs.inRange⟩
    · rw [hlive]
      refine .cons (fun c hc q hq hqc => ?_) hs.disjoint
      exact ((hs.free q).mp (hfresh q hq)).2 c hc hqc
    · rw [hlive]
      exact List.forall_mem_cons.mpr
        ⟨fun q hq => ((hs.free q).mp (hfresh q hq)).1, hs.initial⟩
    · intro q
      have hnew : (!decide (p ≤ q ∧ q < p + n)) = true ↔ ¬ InBlock (p * 4096, n) q := by
        rw [hin, Bool.not_eq_true', decide_eq_false_iff_not]
      rw [hbm, hlive, isFree, isSet_clearRun, Bool.and_eq_true, hnew, List.forall_mem_cons]
      exact ⟨fun k => ⟨((hs.free q).mp k.1).1, k.2, ((hs.free q).mp k.1).2⟩,
        fun k => ⟨(hs.free q).mpr ⟨k.1, k.2.2⟩, k.2.1⟩⟩

theorem Conserved.release {bm : Bytes} {s t : PhysState} {a n : Nat} (hs : Conserved bm s)
    (h : physStep s (.free a n) t) : Conserved bm t := by
  obtain ⟨hmem, hbm, hlive⟩ := h
  have hsub : ∀ b, b ∈ t.live → b ∈ s.live := fun b hb => by
    rw [hlive] at hb; exact List.mem_of_mem_erase hb
  have hperm : s.live.Perm ((a, n) :: t.live) := by rw [hlive]; exact List.perm_cons_erase hmem
  have hpair : ((a, n) :: t.live).Pairwise fun b c => ∀ p, InBlock b p → ¬ InBlock c p :=
    hperm.pairwise hs.disjoint fun hbc p hc hb => hbc p hb hc
  constructor
  · exact fun b hb => hs.aligned b (hsub b hb)
  · exact fun b hb => hs.inRange b (hsub b hb)
  · exact (List.pairwise_cons.mp hpair).2
  · exact fun b hb => hs.initial b (hsub b hb)
  · intro p
    have hall : (∀ b ∈ s.live, ¬ InBlock b p) ↔
        ¬ InBlock (a, n) p ∧ ∀ b ∈ t.live, ¬ InBlock b p := by
      simp only [hperm.mem_iff, List.forall_mem_cons]
    rw [hbm, isFree_freePhysBlock (hs.inRange _ hmem), Bool.or_eq_true, hs.free p, hall,
      decide_eq_true_eq]
    by_cases hp : InBlock (a, n) p
    · -- a page of the released block: free now, free at the start, in no other block
      have hother := (List.pairwise_cons.mp hpair).1
      exact ⟨fun _ => ⟨hs.initial _ hmem p hp, fun b hb => hother b hb p hp⟩, fun _ => .inr hp⟩
    · exact ⟨fun k => k.elim (fun k => ⟨k.1, k.2.2⟩) (fun k => absurd k hp),
        fun k => .inl ⟨k.1, hp, k.2⟩⟩

/-- **Frame conservation**: over every sequence of allocations and matching releases the live
blocks are aligned, inside the bitmap and pairwise disjoint, the free set is the initial one
minus the live blocks, a further call hands out free pages only, and once every block has been
released the bitmap is the initial one. -/
theorem frames_conserved (bm : Bytes) (ops : List PhysOp) (s : PhysState)
    (h : Run physStep ⟨bm, []⟩ ops s) :
    Conserved bm s ∧ (∀ n, 1 ≤ n → HandsOutFree bm s n) ∧ (s.live = [] → s.mmBitmap = bm) := by
  have hs : Conserved bm s := by
    refine h.invariant (Conserved bm) (fun s op t hs hstep => ?_) (Conserved.init bm)
    cases op with
    | get n => exact hs.get hstep
    | free a n => exact hs.release hstep
  refine ⟨hs, fun n _ => hs.handsOut n, fun hl => ext_isSet fun p => ?_⟩
  have := hs.free p
  rw [hl] at this
  rw [Bool.eq_iff_iff]
  simpa using this

/-- Two allocations and one release, on a bitmap with every page free. -/
theorem frames_conserved_two_blocks :
    Conserved (fun _ => 0xFF) ⟨freePhysBlock 0x4F8000 2
      (getPhysBlock 1 (getPhysBlock 2 fun _ => 0xFF).2).2, [(0x4FA000, 1)]⟩ :=
  (frames_conserved _ [.get 2, .get 1, .free 0x4F8000 2] _
    (.cons (t := ⟨(getPhysBlock 2 fun _ => 0xFF).2, [(0x4F8000, 2)]⟩)
      ⟨by decide, rfl, by decide +kernel⟩
      (.cons (t := ⟨(getPhysBlock 1 (getPhysBlock 2 fun _ => 0xFF).2).2,
          [(0x4FA000, 1), (0x4F8000, 2)]⟩)
        ⟨by decide, rfl, by decide +kernel⟩
        (.single ⟨by decide, rfl, by decide⟩)))).1

end Moonlight
