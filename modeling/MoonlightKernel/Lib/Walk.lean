import Mathlib.Data.Fintype.Card
import Mathlib.Data.Int.GCD
import Mathlib.Data.Nat.ModEq
import Mathlib.Data.Set.Finite.Basic
import Mathlib.Logic.Relation
import Mathlib.Order.WellFounded

/-!
# Walks that end

* `acc_iff_no_return` — a walk that comes to finitely many places ends exactly when none of them
  leads back to itself;
* `exists_le_mod_iff` — steps of one length around a ring of `N` numbers, and when they get to a
  number from a limit on.
-/

set_option autoImplicit false

namespace Sys

open Relation

section walk

variable {α : Type*} {r : α → α → Prop} {a : α}

theorem not_transGen_self_of_acc {b : α} (h : Acc (Function.swap r) b) : ¬ TransGen r b b := by
  have htrans := h.transGen
  clear h
  induction htrans with
  | intro b _ ih =>
    intro hbb
    exact ih b (transGen_swap.mpr hbb) hbb

/-- **A walk ends** exactly when nothing on it leads back to itself. -/
theorem acc_iff_no_return (hfin : {b | ReflTransGen r a b}.Finite) :
    Acc (Function.swap r) a ↔ ∀ b, ReflTransGen r a b → ¬ TransGen r b b := by
  constructor
  · intro hacc b hab
    refine not_transGen_self_of_acc ?_
    induction hab with
    | refl => exact hacc
    | tail _ hstep ih => exact ih.inv hstep
  · intro hno
    have hfinite : Finite {b // ReflTransGen r a b} := hfin.to_subtype
    let later : {b // ReflTransGen r a b} → {b // ReflTransGen r a b} → Prop :=
      fun x y => TransGen r y.val x.val
    have htrans : IsTrans _ later := ⟨fun _ _ _ hxy hyz => hyz.trans hxy⟩
    have hirrefl : Std.Irrefl later := ⟨fun x => hno x.val x.property⟩
    have hwf : WellFounded later := Finite.wellFounded_of_trans_of_irrefl later
    have hall : ∀ x : {b // ReflTransGen r a b}, Acc (Function.swap r) x.val := by
      intro x
      induction x using hwf.induction with
      | _ x ih => exact .intro _ fun y hxy => ih ⟨y, x.property.tail hxy⟩ (.single hxy)
    exact hall ⟨a, .refl⟩

end walk

section ring

variable {N a e s : Nat}

/-- The places that steps of length `e` come to. -/
theorem exists_add_mul_mod_iff (hN : 0 < N) {x : Nat} (hx : x < N) :
    (∃ k, (a + k * e) % N = x) ↔ x % Nat.gcd e N = a % Nat.gcd e N := by
  have hdvd : Nat.gcd e N ∣ N := Nat.gcd_dvd_right e N
  constructor
  · rintro ⟨k, rfl⟩
    rw [Nat.mod_mod_of_dvd _ hdvd, Nat.add_mod, Nat.mul_mod,
      Nat.mod_eq_zero_of_dvd (Nat.gcd_dvd_left e N), Nat.mul_zero, Nat.zero_mod, Nat.add_zero,
      Nat.mod_mod]
  · intro h
    by_cases hg : Nat.gcd e N < N
    · -- some number of steps moves by the greatest common divisor
      obtain ⟨m, -, hm⟩ := Nat.exists_mul_mod_eq_gcd hg
      have hlt : a % N < N := Nat.mod_lt _ hN
      have hmod : x + (N - a % N) ≡ 0 [MOD Nat.gcd e N] := by
        have hsum : x + (N - a % N) + a % N = x + N := by omega
        have hN0 : N ≡ 0 [MOD Nat.gcd e N] := Nat.modEq_zero_iff_dvd.mpr hdvd
        have ha : a % N ≡ a [MOD Nat.gcd e N] := (Nat.mod_modEq a N).of_dvd hdvd
        refine Nat.ModEq.add_right_cancel ha ?_
        rw [hsum, Nat.zero_add]
        exact (hN0.add_left x).trans h
      obtain ⟨c, hc⟩ := Nat.modEq_zero_iff_dvd.mp hmod
      refine ⟨m * c, ?_⟩
      have hstep : m * c * e ≡ Nat.gcd e N * c [MOD N] := by
        have := Nat.ModEq.mul_right c (show e * m ≡ Nat.gcd e N [MOD N] from
          hm.trans (Nat.mod_eq_of_lt hg).symm)
        rwa [Nat.mul_comm e m, Nat.mul_right_comm] at this
      have hsum : a + m * c * e ≡ a % N + (x + (N - a % N)) [MOD N] := by
        rw [hc]
        exact (Nat.mod_modEq a N).symm.add hstep
      have hall : a % N + (x + (N - a % N)) = x + N := by omega
      rw [hall] at hsum
      calc (a + m * c * e) % N = (x + N) % N := hsum
        _ = x := by rw [Nat.add_mod_right, Nat.mod_eq_of_lt hx]
    · have hge : Nat.gcd e N = N := Nat.le_antisymm (Nat.le_of_dvd hN hdvd) (not_lt.mp hg)
      rw [hge, Nat.mod_eq_of_lt hx] at h
      exact ⟨0, by rw [Nat.zero_mul, Nat.add_zero, h]⟩

/-- **Steps around a ring** get to a number from `s` on exactly when the largest number of their
residue is one. -/
theorem exists_le_mod_iff (hN : 0 < N) :
    (∃ k, s ≤ (a + k * e) % N) ↔ s ≤ N - Nat.gcd e N + a % Nat.gcd e N := by
  have hg : 0 < Nat.gcd e N := Nat.gcd_pos_of_pos_right e hN
  obtain ⟨q, hq⟩ := Nat.gcd_dvd_right e N
  have hlt : a % Nat.gcd e N < Nat.gcd e N := Nat.mod_lt _ hg
  generalize hgcd : Nat.gcd e N = g at hg hq hlt
  have hq0 : 0 < q := Nat.pos_of_ne_zero fun h0 => by rw [h0, Nat.mul_zero] at hq; omega
  obtain ⟨p, rfl⟩ := Nat.exists_eq_add_of_lt hq0
  have hN' : N = g * p + g := by rw [hq, Nat.zero_add, Nat.mul_succ]
  constructor
  · rintro ⟨k, hk⟩
    have hxlt : (a + k * e) % N < N := Nat.mod_lt _ hN
    have hres := (exists_add_mul_mod_iff hN hxlt).mp ⟨k, rfl⟩
    rw [hgcd] at hres
    generalize (a + k * e) % N = x at hk hxlt hres
    have hdiv := Nat.div_add_mod x g
    have hle : x / g ≤ p := Nat.le_of_lt_succ (Nat.div_lt_of_lt_mul (by rw [Nat.mul_succ]; omega))
    have := Nat.mul_le_mul_left g hle
    omega
  · intro hs
    have hxlt : g * p + a % g < N := by omega
    have hres : (g * p + a % g) % Nat.gcd e N = a % Nat.gcd e N := by
      rw [hgcd, Nat.mul_add_mod, Nat.mod_mod]
    obtain ⟨k, hk⟩ := (exists_add_mul_mod_iff hN hxlt).mpr hres
    exact ⟨k, by rw [hk]; omega⟩

end ring

end Sys
