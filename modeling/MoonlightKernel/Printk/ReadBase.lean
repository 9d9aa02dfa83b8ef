import Mathlib.Data.List.TakeWhile
import MoonlightKernel.Printk.Numbers

/-!
# What `atoi_base` reads

The loop goes on while `char_to_base` knows the character, which it does for the digits of base 16
in every base.  The number should end at the first character that is no digit of the base.

* `readDigits_takeWhile` — the loop reads the run of digits that it tests for;
* `numberPart`, `tooLarge` — the digits of the base, and the rest of the run;
* `atoi_base_longest_iff` — when the rest of the run leaves the value as it is.
-/

set_option autoImplicit false

namespace Moonlight

open Sys

/-- **The loop** reads the run of its digits. -/
theorem readDigits_takeWhile {isDigit : UInt8 → Bool} {value : UInt8 → BitVec 32}
    {base res : BitVec 32} {str : List UInt8} (hend : ∃ c ∈ str, isDigit c = false) :
    readDigits isDigit value base str res =
      some ((str.takeWhile isDigit).foldl (fun r c => r * base + value c) res) := by
  induction str generalizing res with
  | nil =>
    obtain ⟨c, hc, -⟩ := hend
    exact absurd hc List.not_mem_nil
  | cons c str ih =>
    rw [readDigits, List.takeWhile_cons]
    by_cases hdigit : isDigit c = true
    · have hrest : ∃ c ∈ str, isDigit c = false := by
        obtain ⟨e, he, hno⟩ := hend
        rcases List.mem_cons.mp he with rfl | he
        · rw [hdigit] at hno
          exact absurd hno (by decide)
        · exact ⟨e, he, hno⟩
      rw [if_pos hdigit, if_pos hdigit, ih hrest, List.foldl_cons]
    · rw [if_neg hdigit, if_neg hdigit, List.foldl_nil]

/-! ## The number that should be read -/

/-- The digits of base 16. -/
def isHex (c : UInt8) : Bool := charToBase c ≠ -1

/-- The digits of base `b`. -/
def isDigitOf (b : Nat) (c : UInt8) : Bool := isHex c && charToBase c < b

/-- The value in base `b` of a row of digits. -/
def valueOf (b : Nat) (s : List UInt8) : Nat := (s.map digitValue).foldl (fun r d => r * b + d) 0

/-- The text after one optional sign. -/
def afterSign : List UInt8 → List UInt8
  | [] => []
  | c :: str => if c = 43 ∨ c = 45 then str else c :: str

/-- The sign. -/
def signOf (str : List UInt8) : BitVec 32 := if str.head? = some 45 then -1 else 1

/-- The longest prefix of digits of the base. -/
def numberPart (b : Nat) (str : List UInt8) : List UInt8 := (afterSign str).takeWhile (isDigitOf b)

/-- The run of digits of base 16. -/
def hexRun (str : List UInt8) : List UInt8 := (afterSign str).takeWhile isHex

/-- The run from the first digit on that is too large for the base. -/
def tooLarge (b : Nat) (str : List UInt8) : List UInt8 := (hexRun str).dropWhile (isDigitOf b)

/-- `char_to_base` is the value of a digit of base 16, or -1. -/
theorem charToBase_cases (c : UInt8) : charToBase c = -1 ∨ (0 ≤ charToBase c ∧ charToBase c < 16) := by
  unfold charToBase
  simp only [UInt8.le_iff_toNat_le]
  split
  · rename_i h
    have : c.toNat ≤ 57 := h.2
    have : 48 ≤ c.toNat := h.1
    omega
  · split
    · rename_i h
      have : c.toNat ≤ 102 := h.2
      have : 97 ≤ c.toNat := h.1
      omega
    · split
      · rename_i h
        have : c.toNat ≤ 70 := h.2
        have : 65 ≤ c.toNat := h.1
        omega
      · exact .inl rfl

/-- A digit of base 16 is the word of its value. -/
theorem charToBase_of_isHex {c : UInt8} (h : isHex c = true) : charToBase c = digitValue c := by
  have hne : charToBase c ≠ -1 := of_decide_eq_true h
  unfold digitValue
  rcases charToBase_cases c with h | h <;> omega

section run

variable {b : Nat} {str : List UInt8}

/-- The end of the string is behind the sign. -/
theorem zero_mem_afterSign (hend : 0 ∈ str) : 0 ∈ afterSign str := by
  cases str with
  | nil => exact absurd hend List.not_mem_nil
  | cons c str =>
    rw [afterSign]
    split
    · rename_i hsign
      rcases List.mem_cons.mp hend with hzero | hend
      · rw [← hzero] at hsign
        exact absurd hsign (by decide)
      · exact hend
    · exact hend

/-- The run begins with the number. -/
theorem numberPart_append_tooLarge : numberPart b str ++ tooLarge b str = hexRun str := by
  have hpart : numberPart b str = (hexRun str).takeWhile (isDigitOf b) := by
    unfold numberPart hexRun
    rw [List.takeWhile_takeWhile]
    congr 1
    funext c
    unfold isDigitOf
    cases isHex c <;> simp
  rw [hpart]
  exact List.takeWhile_append_dropWhile

theorem valueOf_append (s t : List UInt8) :
    valueOf b (s ++ t) = valueOf b s * b ^ t.length + valueOf b t := by
  unfold valueOf
  rw [List.map_append, foldl_append_digits, List.length_map]

/-- The value of a row of digits, as the loop adds it up. -/
theorem foldl_isHex {s : List UInt8} (hs : ∀ c ∈ s, isHex c = true) (r : Nat) :
    s.foldl (fun r c => r * BitVec.ofNat 32 b + BitVec.ofInt 32 (charToBase c)) (BitVec.ofNat 32 r) =
      BitVec.ofNat 32 ((s.map digitValue).foldl (fun r d => r * b + d) r) := by
  rw [← foldl_word, List.foldl_map]
  refine List.foldl_ext _ _ _ fun r c hc => ?_
  rw [charToBase_of_isHex (hs c hc)]
  rfl

/-- **What is read**: the run with its sign. -/
theorem atoiBase_hexRun (hend : 0 ∈ str) : atoiBase str (BitVec.ofNat 32 b) =
    some (signOf str * BitVec.ofNat 32 (valueOf b (hexRun str))) := by
  have hread : readDigits isHex (fun c => BitVec.ofInt 32 (charToBase c)) (BitVec.ofNat 32 b)
      (afterSign str) 0 = some (BitVec.ofNat 32 (valueOf b (hexRun str))) := by
    rw [readDigits_takeWhile ⟨0, zero_mem_afterSign hend, rfl⟩]
    exact congrArg some (foldl_isHex (fun c hc => List.mem_takeWhile_imp hc) 0)
  cases str with
  | nil => exact absurd hend List.not_mem_nil
  | cons c str =>
    have hsign : signOf (c :: str) = if c = 45 then -1 else 1 := by
      unfold signOf
      simp only [List.head?_cons, Option.some.injEq]
    rw [hsign]
    exact congrArg (Option.map _) hread

/-- A sign can be taken off. -/
theorem signOf_mul_inj {x y : BitVec 32} : signOf str * x = signOf str * y ↔ x = y := by
  unfold signOf
  split
  · rw [neg_one_mul, neg_one_mul, neg_inj]
  · rw [one_mul, one_mul]

/-- Reading the whole run gives the number when the rest of the run cancels. -/
theorem atoiBase_number_iff (hend : 0 ∈ str) :
    atoiBase str (BitVec.ofNat 32 b) =
        some (signOf str * BitVec.ofNat 32 (valueOf b (numberPart b str))) ↔
      valueOf b (numberPart b str) * b ^ (tooLarge b str).length + valueOf b (tooLarge b str) ≡
        valueOf b (numberPart b str) [MOD 2 ^ 32] := by
  rw [atoiBase_hexRun hend, Option.some.injEq, signOf_mul_inj,
    ← numberPart_append_tooLarge (b := b), valueOf_append, ← BitVec.toNat_inj, BitVec.toNat_ofNat,
    BitVec.toNat_ofNat]
  rfl

theorem number_modEq_of_none (h : tooLarge b str = []) :
    valueOf b (numberPart b str) * b ^ (tooLarge b str).length + valueOf b (tooLarge b str) ≡
      valueOf b (numberPart b str) [MOD 2 ^ 32] := by
  rw [h, List.length_nil, pow_zero, mul_one]
  exact Nat.ModEq.refl _

/-- **The longest numeral is read** exactly when no digit of the run is too large for the base, or
the digits from the first such one on leave the value as it is, modulo `2 ^ 32`. -/
theorem atoi_base_longest_iff (b : Nat) (str : List UInt8) (hend : 0 ∈ str) :
    atoiBase str (BitVec.ofNat 32 b) =
        some (signOf str * BitVec.ofNat 32 (valueOf b (numberPart b str))) ↔
      tooLarge b str = [] ∨
        valueOf b (numberPart b str) * b ^ (tooLarge b str).length + valueOf b (tooLarge b str) ≡
          valueOf b (numberPart b str) [MOD 2 ^ 32] := by
  rw [atoiBase_number_iff hend, iff_or_self]
  exact number_modEq_of_none

/-- `"-101z"` in base 2. -/
theorem atoi_base_binary : atoiBase [45, 49, 48, 49, 122, 0] (BitVec.ofNat 32 2) = some (-5) :=
  (atoi_base_longest_iff 2 [45, 49, 48, 49, 122, 0] (by decide)).mpr (.inl (by decide))

/-- `"12"` in base 2: the number is `"1"`, and 4 is read. -/
theorem large_digit_read : numberPart 2 [49, 50, 0] = [49] ∧
    atoiBase [49, 50, 0] (BitVec.ofNat 32 2) = some 4 ∧
    ¬ atoiBase [49, 50, 0] (BitVec.ofNat 32 2) =
      some (signOf [49, 50, 0] * BitVec.ofNat 32 (valueOf 2 (numberPart 2 [49, 50, 0]))) := by
  decide

end run

end Moonlight
