import Mathlib.Algebra.Group.Nat.Defs

/-!
# 32-bit words and the alignment macros

Sizes and addresses of the kernel are 32-bit words.  They are natural numbers here, and the
operations that can wrap are written with an explicit `% 2 ^ 32`.
-/

set_option autoImplicit false

namespace Moonlight

/-- `a + b` on 32-bit words. -/
@[irreducible] def add32 (a b : Nat) : Nat := (a + b) % 2 ^ 32

/-- `a - b` on 32-bit words. -/
@[irreducible] def sub32 (a b : Nat) : Nat := (a + 2 ^ 32 - b % 2 ^ 32) % 2 ^ 32

/-- `PAGE_ALIGN`. -/
def PAGE_ALIGN (p : Nat) : Nat := if p % 4096 ≠ 0 then add32 (p - p % 4096) 4096 else p

/-- `ACCESS_BITMAP_BY_ADDR`. -/
def ACCESS_BITMAP_BY_ADDR (x : Nat) : Nat := x >>> 15

theorem add32_lt (a b : Nat) : add32 a b < 2 ^ 32 := by
  unfold add32
  exact Nat.mod_lt _ (by decide)

theorem add32_of_lt {a b : Nat} (h : a + b < 2 ^ 32) : add32 a b = a + b := by
  rw [add32, Nat.mod_eq_of_lt h]

theorem sub32_of_le {a b : Nat} (h : b ≤ a) (ha : a < 2 ^ 32) : sub32 a b = a - b := by
  unfold sub32
  rw [Nat.mod_eq_of_lt (show b < 2 ^ 32 by omega)]
  omega

theorem PAGE_ALIGN_of_dvd {p : Nat} (h : p % 4096 = 0) : PAGE_ALIGN p = p := by
  simp [PAGE_ALIGN, h]

/-- Without wrap-around, `PAGE_ALIGN` is the least multiple of 4096 that is not below its
argument. -/
theorem PAGE_ALIGN_spec {p : Nat} (h : p ≤ 2 ^ 32 - 4096) :
    PAGE_ALIGN p % 4096 = 0 ∧ p ≤ PAGE_ALIGN p ∧ PAGE_ALIGN p < p + 4096 ∧
      PAGE_ALIGN p ≤ 2 ^ 32 - 4096 := by
  unfold PAGE_ALIGN
  split
  · rw [add32_of_lt (by omega)]; omega
  · omega

theorem shiftRight_page (a : Nat) : a >>> 12 = a / 4096 := Nat.shiftRight_eq_div_pow a 12

theorem shiftLeft_page (p : Nat) : p <<< 12 = p * 4096 := Nat.shiftLeft_eq p 12

theorem ACCESS_BITMAP_BY_ADDR_eq (x : Nat) : ACCESS_BITMAP_BY_ADDR x = x / 4096 / 8 := by
  rw [ACCESS_BITMAP_BY_ADDR, Nat.shiftRight_eq_div_pow, Nat.div_div_eq_div_mul]

end Moonlight
