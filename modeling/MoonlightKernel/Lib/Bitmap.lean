import Mathlib.Algebra.Group.Nat.Defs
import Mathlib.Logic.Function.Basic

/-!
# Bitmaps stored as arrays of bytes

A bitmap is an array of bytes; bit `p` of the bitmap is bit `p % 8` of byte `p / 8`.  The
file has

* `isSet`, `setBit`, `clearBit` and how a write of one bit reads back (`isSet_setBit`,
  `isSet_clearBit`), and extensionality (`ext_isSet`);
* `setRun`, `clearRun` — writes of a run of consecutive bits;
* `scanBytes` — the first-fit scan for a run of set bits, byte by byte and bit by bit, and
  `findRun`, the same scan over a flat sequence of bits.  `scanBytes_eq` says that they
  agree, `findRun_some` what a successful scan has found and `findRun_least` that it is the first;
* `HasRun` — there is a run of set bits, and `scanBytes_ne_none_iff`: which runs the scan finds.
-/

set_option autoImplicit false

namespace Sys

/-- An array of bytes, by index. -/
abbrev Bytes := Nat → BitVec 8

namespace Bitmap

/-- Bit `p` of the bitmap. -/
def isSet (m : Bytes) (p : Nat) : Bool := (m (p / 8)).getLsbD (p % 8)

/-- `m[i] |= 1 << j`. -/
def setBit (m : Bytes) (i j : Nat) : Bytes := Function.update m i (m i ||| 1#8 <<< j)

/-- `m[i] &= ~(1 << j)`. -/
def clearBit (m : Bytes) (i j : Nat) : Bytes := Function.update m i (m i &&& ~~~(1#8 <<< j))

theorem getLsbD_one_shiftLeft {j k : Nat} (hk : k < 8) :
    (1#8 <<< j).getLsbD k = decide (k = j) := by
  rw [BitVec.getLsbD_shiftLeft, BitVec.getLsbD_one]
  by_cases h : k = j
  · subst h; simp [hk]
  · by_cases hj : k < j
    · simp [hk, hj, h]
    · simp [hk, hj, h]; omega

theorem isSet_setBit (m : Bytes) {i j : Nat} (hj : j < 8) (p : Nat) :
    isSet (setBit m i j) p = (isSet m p || decide (p = 8 * i + j)) := by
  unfold isSet setBit
  have hp : p % 8 < 8 := Nat.mod_lt _ (by decide)
  by_cases h : p / 8 = i
  · subst h
    rw [Function.update_self, BitVec.getLsbD_or, getLsbD_one_shiftLeft hp]
    congr 1
    simp only [decide_eq_decide]
    omega
  · rw [Function.update_of_ne h]
    have : p ≠ 8 * i + j := by omega
    simp [this]

theorem isSet_clearBit (m : Bytes) {i j : Nat} (hj : j < 8) (p : Nat) :
    isSet (clearBit m i j) p = (isSet m p && !decide (p = 8 * i + j)) := by
  unfold isSet clearBit
  have hp : p % 8 < 8 := Nat.mod_lt _ (by decide)
  by_cases h : p / 8 = i
  · subst h
    rw [Function.update_self, BitVec.getLsbD_and, BitVec.getLsbD_not, getLsbD_one_shiftLeft hp]
    have : (p % 8 = j) ↔ (p = 8 * (p / 8) + j) := by omega
    simp [hp, this]
  · rw [Function.update_of_ne h]
    have : p ≠ 8 * i + j := by omega
    simp [this]

/-- `m[i] = -1`. -/
def fillByte (m : Bytes) (i : Nat) : Bytes := Function.update m i (BitVec.allOnes 8)

theorem isSet_fillByte (m : Bytes) (i p : Nat) :
    isSet (fillByte m i) p = (isSet m p || decide (p / 8 = i)) := by
  unfold isSet fillByte
  by_cases h : p / 8 = i
  · rw [h, Function.update_self, BitVec.getLsbD_allOnes, decide_eq_true (Nat.mod_lt _ (by decide))]
    simp
  · rw [Function.update_of_ne h]
    simp [h]

/-- Two bitmaps with the same bits are the same array. -/
theorem ext_isSet {m m' : Bytes} (h : ∀ p, isSet m p = isSet m' p) : m = m' := by
  funext i
  apply BitVec.eq_of_getLsbD_eq
  intro j hj
  have hi := h (8 * i + j)
  unfold isSet at hi
  rw [show (8 * i + j) / 8 = i by omega, show (8 * i + j) % 8 = j by omega] at hi
  exact hi

/-! ## Runs of bits -/

/-- The bits `p, …, p + n - 1` set, one after the other. -/
def setRun : Nat → Nat → Bytes → Bytes
  | _, 0, m => m
  | p, n + 1, m => setRun (p + 1) n (setBit m (p / 8) (p % 8))

/-- The bits `p, …, p + n - 1` cleared, one after the other. -/
def clearRun : Nat → Nat → Bytes → Bytes
  | _, 0, m => m
  | p, n + 1, m => clearRun (p + 1) n (clearBit m (p / 8) (p % 8))

theorem isSet_setRun (n : Nat) : ∀ (p : Nat) (m : Bytes) (q : Nat),
    isSet (setRun p n m) q = (isSet m q || decide (p ≤ q ∧ q < p + n)) := by
  induction n with
  | zero =>
    intro p m q
    rw [setRun, decide_eq_false (by omega), Bool.or_false]
  | succ n ih =>
    intro p m q
    rw [setRun, ih, isSet_setBit m (Nat.mod_lt _ (by decide)), Nat.div_add_mod, Bool.or_assoc,
      ← Bool.decide_or]
    congr 1
    simp only [decide_eq_decide]
    omega

theorem isSet_clearRun (n : Nat) : ∀ (p : Nat) (m : Bytes) (q : Nat),
    isSet (clearRun p n m) q = (isSet m q && !decide (p ≤ q ∧ q < p + n)) := by
  induction n with
  | zero =>
    intro p m q
    rw [clearRun, decide_eq_false (by omega), Bool.not_false, Bool.and_true]
  | succ n ih =>
    intro p m q
    rw [clearRun, ih, isSet_clearBit m (Nat.mod_lt _ (by decide)), Nat.div_add_mod, Bool.and_assoc,
      ← Bool.not_or, ← Bool.decide_or]
    congr 2
    simp only [decide_eq_decide]
    omega

/-- A run of set bits that is cleared and set again in part. -/
theorem setRun_clearRun_eq_iff {m : Bytes} {p j k : Nat} (hj : j ≤ k)
    (hset : ∀ q, p ≤ q → q < p + k → isSet m q = true) :
    setRun p j (clearRun p k m) = m ↔ j = k := by
  constructor
  · intro h
    by_contra hne
    -- the bit after the part that is set again stays clear
    have hbit := congrArg (fun b => isSet b (p + j)) h
    simp only [isSet_setRun, isSet_clearRun, hset (p + j) (by omega) (by omega)] at hbit
    simp at hbit
    omega
  · rintro rfl
    refine ext_isSet fun q => ?_
    rw [isSet_setRun, isSet_clearRun]
    by_cases hq : p ≤ q ∧ q < p + j
    · rw [hset q hq.1 hq.2, decide_eq_true hq, Bool.or_true]
    · rw [decide_eq_false hq, Bool.not_false, Bool.and_true, Bool.or_false]

/-! ## The first-fit scan -/

/-- The inner loop: the bits `j, j + 1, …` of byte `i`, `k` of them left.  The length of the
run is tested before the current bit is looked at. -/
def scanByte (byte : BitVec 8) (i size : Nat) : Nat → Nat → Nat → Nat ⊕ Nat
  | 0, _, following => .inr following
  | k + 1, j, following =>
    if following = size then .inl (i * 8 + j - following)
    else scanByte byte i size k (j + 1) (if byte.getLsbD j then following + 1 else 0)

/-- The outer loop: the bytes `i, i + 1, …`, `k` of them left. -/
def scanBytes (m : Bytes) (size : Nat) : Nat → Nat → Nat → Option Nat
  | 0, _, _ => none
  | k + 1, i, following =>
    match scanByte (m i) i size 8 0 following with
    | .inl p => some p
    | .inr following => scanBytes m size k (i + 1) following

/-- The scan over a flat sequence of bits, `k` of them left. -/
def findRun (bit : Nat → Bool) (size : Nat) : Nat → Nat → Nat → Option Nat
  | 0, _, _ => none
  | k + 1, pos, following =>
    if following = size then some (pos - following)
    else findRun bit size k (pos + 1) (if bit pos then following + 1 else 0)

theorem findRun_scanByte (m : Bytes) (i size r : Nat) : ∀ (k j following : Nat), j + k = 8 →
    findRun (isSet m) size (k + r) (8 * i + j) following =
      match scanByte (m i) i size k j following with
      | .inl p => some p
      | .inr f => findRun (isSet m) size r (8 * (i + 1)) f := by
  intro k
  induction k with
  | zero =>
    intro j following hj
    obtain rfl : j = 8 := by omega
    rw [scanByte, Nat.zero_add]
    rfl
  | succ k ih =>
    intro j following hj
    rw [show k + 1 + r = (k + r) + 1 by omega, findRun, scanByte]
    by_cases h : following = size
    · rw [if_pos h, if_pos h, Nat.mul_comm]
    · have hbit : isSet m (8 * i + j) = (m i).getLsbD j := by
        unfold isSet
        rw [show (8 * i + j) / 8 = i by omega, show (8 * i + j) % 8 = j by omega]
      rw [if_neg h, if_neg h, Nat.add_assoc, ih (j + 1) _ (by omega), hbit]

/-- **The nested loops are one scan over the bits.** -/
theorem scanBytes_eq (m : Bytes) (size : Nat) : ∀ (k i following : Nat),
    scanBytes m size k i following = findRun (isSet m) size (8 * k) (8 * i) following := by
  intro k
  induction k with
  | zero => intro i following; rfl
  | succ k ih =>
    intro i following
    have := findRun_scanByte m i size (8 * k) 8 0 following rfl
    rw [Nat.add_zero] at this
    rw [show 8 * (k + 1) = 8 + 8 * k by omega, this, scanBytes]
    cases scanByte (m i) i size 8 0 following with
    | inl p => rfl
    | inr f => exact ih (i + 1) f

/-- A successful scan has found a run of set bits that ends before the last bit scanned. -/
theorem findRun_some {bit : Nat → Bool} {size : Nat} (lo : Nat) : ∀ {k pos following p : Nat},
    lo + following ≤ pos → (∀ q, pos ≤ q + following → q < pos → bit q = true) →
    findRun bit size k pos following = some p →
    lo ≤ p ∧ p + size < pos + k ∧ ∀ q, p ≤ q → q < p + size → bit q = true := by
  intro k
  induction k with
  | zero => intro pos following p _ _ h; cases h
  | succ k ih =>
    intro pos following p hlo hrun h
    rw [findRun] at h
    split at h
    · rename_i he
      cases h
      exact ⟨by omega, by omega, fun q h1 h2 => hrun q (by omega) (by omega)⟩
    · cases hb : bit pos with
      | true =>
        rw [hb, if_pos rfl] at h
        obtain ⟨h1, h2, h3⟩ := ih (by omega) (fun q hq hq' => by
          by_cases he : q = pos
          · rw [he, hb]
          · exact hrun q (by omega) (by omega)) h
        exact ⟨h1, by omega, h3⟩
      | false =>
        rw [hb, if_neg (by decide)] at h
        obtain ⟨h1, h2, h3⟩ := ih (by omega) (fun q hq hq' => by omega) h
        exact ⟨h1, by omega, h3⟩

/-- **The scan finds the first run**: before the run found, every window of `size` bits has a clear
one. -/
theorem findRun_least {bit : Nat → Bool} {size lo : Nat} : ∀ {k pos following p : Nat},
    following ≤ size →
    (∀ q, lo ≤ q → q + following < pos → ∃ i, q ≤ i ∧ i < q + size ∧ bit i = false) →
    findRun bit size k pos following = some p →
    ∀ q, lo ≤ q → q < p → ∃ i, q ≤ i ∧ i < q + size ∧ bit i = false := by
  intro k
  induction k with
  | zero => intro pos following p _ _ h; cases h
  | succ k ih =>
    intro pos following p hf hmiss h
    rw [findRun] at h
    split at h
    · cases h
      exact fun q hlo hq => hmiss q hlo (by omega)
    · rename_i hne
      cases hb : bit pos with
      | true =>
        rw [hb, if_pos rfl] at h
        exact ih (by omega) (fun q hlo hq => hmiss q hlo (by omega)) h
      | false =>
        rw [hb, if_neg (by decide)] at h
        refine ih (by omega) (fun q hlo hq => ?_) h
        -- a window that starts after the last clear bit contains this one
        by_cases hq' : q + following < pos
        · exact hmiss q hlo hq'
        · exact ⟨pos, by omega, by omega, hb⟩

/-- There are `size` consecutive set bits among `lo, …, hi - 1`. -/
def HasRun (m : Bytes) (lo hi size : Nat) : Prop :=
  ∃ p, lo ≤ p ∧ p + size ≤ hi ∧ ∀ q, p ≤ q → q < p + size → isSet m q = true

/-- The scan does not miss a run that ends before the last bit scanned. -/
theorem findRun_complete {bit : Nat → Bool} {size p : Nat} : ∀ {k pos following : Nat},
    following ≤ size → pos ≤ p + following → p + size < pos + k →
    (∀ q, pos ≤ q → p ≤ q → q < p + size → bit q = true) →
    findRun bit size k pos following ≠ none := by
  intro k
  induction k with
  | zero => intro pos following hf hpos hend _; omega
  | succ k ih =>
    intro pos following hf hpos hend hrun
    rw [findRun]
    split
    · simp
    · rename_i hne
      cases hb : bit pos with
      | true =>
        rw [if_pos rfl]
        exact ih (by omega) (by omega) (by omega) fun q hq => hrun q (by omega)
      | false =>
        -- the clear bit lies before the run
        have hlt : pos < p := by
          by_contra hge
          have := hrun pos (Nat.le_refl _) (by omega) (by omega)
          simp [hb] at this
        rw [if_neg (by decide)]
        exact ih (by omega) (by omega) (by omega) fun q hq => hrun q (by omega)

/-- **What the scan finds**: every run but those that end with the last bit scanned. -/
theorem scanBytes_ne_none_iff {m : Bytes} {size k i : Nat} (hk : 0 < k) :
    scanBytes m size k i 0 ≠ none ↔ HasRun m (8 * i) (8 * (i + k) - 1) size := by
  rw [scanBytes_eq]
  constructor
  · intro h
    obtain ⟨p, hp⟩ := Option.ne_none_iff_exists'.mp h
    obtain ⟨h1, h2, h3⟩ := findRun_some (8 * i) (by omega) (fun q hq hq' => by omega) hp
    exact ⟨p, h1, by omega, h3⟩
  · rintro ⟨p, h1, h2, h3⟩
    exact findRun_complete (by omega) (by omega) (by omega) fun q _ => h3 q

end Bitmap

end Sys
