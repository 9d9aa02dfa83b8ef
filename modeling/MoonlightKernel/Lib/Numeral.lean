import Mathlib.Data.Nat.Digits.Lemmas
import Mathlib.Tactic.Ring

/-!
# Numerals

The digits of a number as they are written: the most significant one first, at least one digit, and
no zero in front.

* `numeral` — the digits; `numeral_of_lt`, `numeral_of_le` — the recursion that a printing loop
  follows;
* `numeral_lt`, `numeral_ne_nil`, `numeral_head`, `numeral_length_le` — what a reader sees;
* `foldl_numeral` — reading the digits from the left gives the number back;
* `foldl_append_digits` — the value of any row of digits, cut in two.
-/

set_option autoImplicit false

namespace Sys

/-- The digits of `n` in base `b`. -/
def numeral (b n : Nat) : List Nat := if n = 0 then [0] else (Nat.digits b n).reverse

variable {b n : Nat}

/-- One digit. -/
theorem numeral_of_lt (h : n < b) : numeral b n = [n] := by
  unfold numeral
  split
  · rename_i h0
    rw [h0]
  · rename_i h0
    rw [Nat.digits_of_lt b n h0 h, List.reverse_singleton]

/-- The digits of the quotient, then the remainder. -/
theorem numeral_of_le (hb : 1 < b) (h : b ≤ n) : numeral b n = numeral b (n / b) ++ [n % b] := by
  have hn : n ≠ 0 := by omega
  have hq : n / b ≠ 0 := (Nat.div_pos h (by omega)).ne'
  unfold numeral
  rw [if_neg hn, if_neg hq, Nat.digits_def' hb (Nat.pos_of_ne_zero hn), List.reverse_cons]

theorem numeral_ne_nil : numeral b n ≠ [] := by
  unfold numeral
  split
  · exact List.cons_ne_nil _ _
  · rename_i hn
    rw [ne_eq, List.reverse_eq_nil_iff]
    exact Nat.digits_ne_nil_iff_ne_zero.mpr hn

theorem numeral_lt (hb : 1 < b) {d : Nat} (hd : d ∈ numeral b n) : d < b := by
  unfold numeral at hd
  split at hd
  · rw [List.mem_singleton.mp hd]
    omega
  · exact Nat.digits_lt_base hb (List.mem_reverse.mp hd)

/-- Only the number zero starts with a zero. -/
theorem numeral_head (h : (numeral b n).head? = some 0) : numeral b n = [0] := by
  unfold numeral at h ⊢
  split
  · rfl
  · rename_i hn
    rw [if_neg hn, List.head?_reverse,
      List.getLast?_eq_some_getLast (Nat.digits_ne_nil_iff_ne_zero.mpr hn)] at h
    exact absurd (Option.some.inj h) (Nat.getLast_digit_ne_zero b hn)

/-- A number below `b ^ k` has at most `k` digits. -/
theorem numeral_length_le {k : Nat} (hb : 1 < b) (hk : 1 ≤ k) (h : n < b ^ k) :
    (numeral b n).length ≤ k := by
  unfold numeral
  split
  · exact hk
  · rw [List.length_reverse]
    exact (Nat.digits_length_le_iff hb n).mpr h

/-- **Reading a numeral** from the left. -/
theorem foldl_numeral (b n : Nat) : (numeral b n).foldl (fun r d => r * b + d) 0 = n := by
  unfold numeral
  split
  · rename_i hn
    rw [hn, List.foldl_cons, List.foldl_nil, zero_mul]
  · rw [List.foldl_reverse]
    calc (Nat.digits b n).foldr (fun d r => r * b + d) 0
        = (Nat.digits b n).foldr (fun d r => d + b * r) 0 := by
          congr 1
          exact funext₂ fun d r => by rw [mul_comm, add_comm]
      _ = Nat.ofDigits b (Nat.digits b n) := (Nat.ofDigits_eq_foldr b _).symm
      _ = n := Nat.ofDigits_digits b n

/-- What was read before the digits of a row moves up by their number. -/
theorem foldl_digits_from (b r : Nat) (ds : List Nat) :
    ds.foldl (fun r d => r * b + d) r = r * b ^ ds.length + ds.foldl (fun r d => r * b + d) 0 := by
  induction ds generalizing r with
  | nil => simp
  | cons d ds ih =>
    rw [List.foldl_cons, List.foldl_cons, ih, ih (0 * b + d), List.length_cons, pow_succ]
    ring

/-- A row of digits that is cut in two. -/
theorem foldl_append_digits (b : Nat) (ds es : List Nat) :
    (ds ++ es).foldl (fun r d => r * b + d) 0 =
      ds.foldl (fun r d => r * b + d) 0 * b ^ es.length +
        es.foldl (fun r d => r * b + d) 0 := by
  rw [List.foldl_append]
  exact foldl_digits_from b _ es

end Sys
