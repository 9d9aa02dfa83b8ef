import Mathlib.Data.List.Nodup
import Mathlib.Logic.Function.Basic

/-!
# The replies that a waiting parent gets

An abstract account of a parent and its children.  A child that has exited has a value; its
parent is told of it either at once (`report`), or in two steps through a reply slot, the pair
`(waitingPid, waitingReturn)`: `collect` fills the slot, `reply` empties it.  A slot whose value
is `0` counts as empty.

* `Family.Step` — the moves under which no reply is lost: the slot is filled only when it is
  empty and only with a value other than `0`;
* `Family.Ok` — what they preserve: every exit is reported at most once, with its own value, and
  is either reported, or held by a dead child, or in the slot.
-/

set_option autoImplicit false

namespace Moonlight

/-- A parent's children and its reply slot. -/
structure Family where
  kids : List Nat
  pid : Nat → Int
  /-- The value of a child that has exited. -/
  value : Nat → Option Int
  waitingPid : Int
  waitingReturn : Int

/-- The exits so far and the reports to the parent so far, as pairs of a pid and a value. -/
structure Books where
  exited : List (Int × Int)
  reported : List (Int × Int)
  deriving DecidableEq

namespace Family

/-- The moves that lose no reply. -/
inductive Step (F : Family) (B : Books) : Family → Books → Prop
  | idle : Step F B F B
  | exit {c : Nat} {v : Int} (hc : c ∈ F.kids) (hv : F.value c = none) :
      Step F B { F with value := Function.update F.value c (some v) }
        { B with exited := (F.pid c, v) :: B.exited }
  | collect {c : Nat} {v : Int} (hc : c ∈ F.kids) (hv : F.value c = some v) (hv0 : v ≠ 0)
      (hslot : F.waitingReturn = 0) :
      Step F B { F with kids := F.kids.erase c, waitingPid := F.pid c, waitingReturn := v } B
  | reply (hslot : F.waitingReturn ≠ 0) :
      Step F B { F with waitingReturn := 0 }
        { B with reported := (F.waitingPid, F.waitingReturn) :: B.reported }
  | report {c : Nat} {v : Int} (hc : c ∈ F.kids) (hv : F.value c = some v)
      (hslot : F.waitingReturn = 0) :
      Step F B { F with kids := F.kids.erase c, waitingPid := F.pid c, waitingReturn := 0 }
        { B with reported := (F.pid c, v) :: B.reported }
  | block {q : Int} (hslot : F.waitingReturn = 0) : Step F B { F with waitingPid := q } B

/-- The books agree with the family. -/
structure Ok (F : Family) (B : Books) : Prop where
  nodup : F.kids.Nodup
  pidPos : ∀ c ∈ F.kids, 0 < F.pid c
  pidInj : ∀ c ∈ F.kids, ∀ d ∈ F.kids, F.pid c = F.pid d → c = d
  fresh : ∀ c ∈ F.kids, F.pid c ∉ B.reported.map Prod.fst
  dead : ∀ c ∈ F.kids, ∀ v, F.value c = some v → (F.pid c, v) ∈ B.exited
  slot : F.waitingReturn ≠ 0 → (F.waitingPid, F.waitingReturn) ∈ B.exited ∧
    F.waitingPid ∉ B.reported.map Prod.fst ∧ 0 < F.waitingPid ∧
    ∀ c ∈ F.kids, F.pid c ≠ F.waitingPid
  once : (B.reported.map Prod.fst).Nodup
  sound : ∀ r ∈ B.reported, r ∈ B.exited
  complete : ∀ e ∈ B.exited, e ∈ B.reported ∨
    (∃ c ∈ F.kids, F.pid c = e.1 ∧ F.value c = some e.2) ∨
    (F.waitingReturn ≠ 0 ∧ e = (F.waitingPid, F.waitingReturn))

variable {F : Family} {B : Books}

/-- Another child than the one that is taken out of the family has another pid. -/
theorem Ok.pid_ne (h : Ok F B) {c d : Nat} (hc : c ∈ F.kids) (hd : d ∈ F.kids.erase c) :
    d ∈ F.kids ∧ F.pid d ≠ F.pid c := by
  obtain ⟨hdc, hd⟩ := h.nodup.mem_erase_iff.mp hd
  exact ⟨hd, fun he => hdc (h.pidInj d hd c hc he)⟩

/-- An exit that is accounted for by a dead child is still accounted for by one, or is the exit
of the child that is taken out. -/
theorem Ok.complete_erase (h : Ok F B) {c : Nat} {v : Int} (hc : c ∈ F.kids)
    (hv : F.value c = some v) (hslot : F.waitingReturn = 0) {e : Int × Int} (he : e ∈ B.exited) :
    e ∈ B.reported ∨ (∃ d ∈ F.kids.erase c, F.pid d = e.1 ∧ F.value d = some e.2) ∨
      e = (F.pid c, v) := by
  rcases h.complete e he with hr | ⟨d, hd, h1, h2⟩ | ⟨hw, -⟩
  · exact .inl hr
  · by_cases hdc : d = c
    · subst hdc
      refine .inr (.inr (Prod.ext h1.symm ?_))
      exact Option.some.inj (h2.symm.trans hv)
    · exact .inr (.inl ⟨d, h.nodup.mem_erase_iff.mpr ⟨hdc, hd⟩, h1, h2⟩)
  · exact absurd hslot hw

theorem Ok.exit (h : Ok F B) {c : Nat} {v : Int} (hc : c ∈ F.kids) (hv : F.value c = none) :
    Ok { F with value := Function.update F.value c (some v) }
      { B with exited := (F.pid c, v) :: B.exited } := by
  refine ⟨h.nodup, h.pidPos, h.pidInj, h.fresh, fun d hd w hw => ?_, fun hr => ?_, h.once,
    fun r hr => List.mem_cons_of_mem _ (h.sound r hr), fun e he => ?_⟩
  · dsimp only at hw
    by_cases hdc : d = c
    · subst hdc
      rw [Function.update_self] at hw
      cases hw
      exact List.mem_cons_self
    · rw [Function.update_of_ne hdc] at hw
      exact List.mem_cons_of_mem _ (h.dead d hd w hw)
  · obtain ⟨h1, h2, h3, h4⟩ := h.slot hr
    exact ⟨List.mem_cons_of_mem _ h1, h2, h3, h4⟩
  · rcases List.mem_cons.mp he with rfl | he
    · exact .inr (.inl ⟨c, hc, rfl, Function.update_self ..⟩)
    · refine (h.complete e he).imp_right (Or.imp_left ?_)
      rintro ⟨d, hd, h1, h2⟩
      have hdc : d ≠ c := by rintro rfl; rw [hv] at h2; cases h2
      exact ⟨d, hd, h1, (Function.update_of_ne hdc ..).trans h2⟩

theorem Ok.collect (h : Ok F B) {c : Nat} {v : Int} (hc : c ∈ F.kids) (hv : F.value c = some v)
    (hv0 : v ≠ 0) (hslot : F.waitingReturn = 0) :
    Ok { F with kids := F.kids.erase c, waitingPid := F.pid c, waitingReturn := v } B := by
  have hsub : ∀ {d}, d ∈ F.kids.erase c → d ∈ F.kids := fun hd => List.mem_of_mem_erase hd
  refine ⟨h.nodup.erase c, fun d hd => h.pidPos d (hsub hd),
    fun d hd e he => h.pidInj d (hsub hd) e (hsub he), fun d hd => h.fresh d (hsub hd),
    fun d hd => h.dead d (hsub hd), fun _ => ?_, h.once, h.sound, fun e he => ?_⟩
  · exact ⟨h.dead c hc v hv, h.fresh c hc, h.pidPos c hc, fun d hd => (h.pid_ne hc hd).2⟩
  · exact (h.complete_erase hc hv hslot he).imp_right (Or.imp_right fun he => ⟨hv0, he⟩)

theorem Ok.reply (h : Ok F B) (hslot : F.waitingReturn ≠ 0) :
    Ok { F with waitingReturn := 0 }
      { B with reported := (F.waitingPid, F.waitingReturn) :: B.reported } := by
  obtain ⟨h1, h2, -, h4⟩ := h.slot hslot
  refine ⟨h.nodup, h.pidPos, h.pidInj, fun c hc => ?_, h.dead, fun hr => absurd rfl hr,
    List.nodup_cons.mpr ⟨h2, h.once⟩, List.forall_mem_cons.mpr ⟨h1, h.sound⟩, fun e he => ?_⟩
  · rw [List.map_cons, List.mem_cons, not_or]
    exact ⟨h4 c hc, h.fresh c hc⟩
  · rcases h.complete e he with hr | hd | ⟨-, rfl⟩
    · exact .inl (List.mem_cons_of_mem _ hr)
    · exact .inr (.inl hd)
    · exact .inl List.mem_cons_self

theorem Ok.report (h : Ok F B) {c : Nat} {v : Int} (hc : c ∈ F.kids) (hv : F.value c = some v)
    (hslot : F.waitingReturn = 0) :
    Ok { F with kids := F.kids.erase c, waitingPid := F.pid c, waitingReturn := 0 }
      { B with reported := (F.pid c, v) :: B.reported } := by
  have hsub : ∀ {d}, d ∈ F.kids.erase c → d ∈ F.kids := fun hd => List.mem_of_mem_erase hd
  refine ⟨h.nodup.erase c, fun d hd => h.pidPos d (hsub hd),
    fun d hd e he => h.pidInj d (hsub hd) e (hsub he), fun d hd => ?_,
    fun d hd => h.dead d (hsub hd), fun hr => absurd rfl hr,
    List.nodup_cons.mpr ⟨h.fresh c hc, h.once⟩,
    List.forall_mem_cons.mpr ⟨h.dead c hc v hv, h.sound⟩, fun e he => ?_⟩
  · rw [List.map_cons, List.mem_cons, not_or]
    exact ⟨(h.pid_ne hc hd).2, h.fresh d (hsub hd)⟩
  · rcases h.complete_erase hc hv hslot he with hr | hd | rfl
    · exact .inl (List.mem_cons_of_mem _ hr)
    · exact .inr (.inl hd)
    · exact .inl List.mem_cons_self

theorem Ok.block (h : Ok F B) {q : Int} (hslot : F.waitingReturn = 0) :
    Ok { F with waitingPid := q } B := by
  refine ⟨h.nodup, h.pidPos, h.pidInj, h.fresh, h.dead, fun hr => absurd hslot hr, h.once, h.sound,
    fun e he => ?_⟩
  exact (h.complete e he).imp_right (Or.imp_right fun hw => absurd hslot hw.1)

/-- **Every move keeps the books.** -/
theorem Ok.step {F' : Family} {B' : Books} (h : Ok F B) (hs : Step F B F' B') : Ok F' B' := by
  cases hs with
  | idle => exact h
  | exit hc hv => exact h.exit hc hv
  | collect hc hv hv0 hslot => exact h.collect hc hv hv0 hslot
  | reply hslot => exact h.reply hslot
  | report hc hv hslot => exact h.report hc hv hslot
  | block hslot => exact h.block hslot

end Family

end Moonlight
