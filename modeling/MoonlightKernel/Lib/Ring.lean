import Mathlib.Data.List.Basic

/-!
# Walking a circular list

A circular list with a head is a list `l` of its members; `after l cur` is what follows the
member `cur` (`none` stands for the head, both as an argument and as a result), and `next l cur`
is the same with the head skipped.

* `Stops` — a walk meets a member on which it stops, or has no member to visit;
* `stops_iff` — when that is the case, from any starting point;
* `turn` — one turn around the list, the starting point last; `follows_turn` says that a walk takes
  it;
* `turn_of_turn` — the turn from a member of a turn is the rest of it, and then its beginning;
* `place` — how many members come before a given one in the turn: it does not grow when others leave
  the list, grows by those that come into it, and falls when the turn starts from a member before it.
-/

set_option autoImplicit false

namespace Sys.Ring

variable {α : Type*}

/-- The members that follow `cur` are `rest`. -/
def Ahead (l : List α) (cur : Option α) (rest : List α) : Prop :=
  (cur = none ∧ rest = l) ∨ ∃ l₁ p, cur = some p ∧ l = l₁ ++ p :: rest

theorem Ahead.cons {l : List α} {cur : Option α} {x : α} {rest : List α}
    (h : Ahead l cur (x :: rest)) : Ahead l (some x) rest := by
  rcases h with ⟨-, rfl⟩ | ⟨l₁, p, -, rfl⟩
  · exact .inr ⟨[], x, rfl, rfl⟩
  · exact .inr ⟨l₁ ++ [p], x, rfl, by simp⟩

/-- Every member is the start of a walk. -/
theorem exists_ahead {l : List α} {cur : Option α} (hc : ∀ p, cur = some p → p ∈ l) :
    ∃ rest, Ahead l cur rest := by
  cases cur with
  | none => exact ⟨l, .inl ⟨rfl, rfl⟩⟩
  | some p =>
    obtain ⟨l₁, l₂, rfl⟩ := List.append_of_mem (hc p rfl)
    exact ⟨l₂, .inr ⟨l₁, p, rfl, rfl⟩⟩

variable [DecidableEq α]

/-- What follows `cur` in the circular list; `none` is the list head. -/
def after (l : List α) : Option α → Option α
  | none => l.head?
  | some p => (l.dropWhile (· ≠ p)).tail.head?

/-- What follows `cur`, with the list head skipped; `none` only when there is no member. -/
def next (l : List α) (cur : Option α) : Option α := (after l cur).or l.head?

/-- A walk from `cur` ends. -/
inductive Stops (l : List α) (stop : α → Prop) : Option α → Prop
  | empty {cur : Option α} (h : next l cur = none) : Stops l stop cur
  | here {cur : Option α} {x : α} (h : next l cur = some x) (hx : stop x) : Stops l stop cur
  | later {cur : Option α} {x : α} (h : next l cur = some x) (hx : Stops l stop (some x)) :
      Stops l stop cur

variable {l : List α} {stop : α → Prop}

theorem after_append {l₁ l₂ : List α} {p : α} (hp : p ∉ l₁) :
    after (l₁ ++ p :: l₂) (some p) = l₂.head? := by
  rw [after, List.dropWhile_append_of_pos, List.dropWhile_cons_of_neg (by simp), List.tail_cons]
  intro a ha
  simp only [ne_eq, decide_not, Bool.not_eq_true', decide_eq_false_iff_not]
  rintro rfl
  exact hp ha

theorem Ahead.after_eq (hl : l.Nodup) {cur : Option α} {rest : List α} (h : Ahead l cur rest) :
    after l cur = rest.head? := by
  rcases h with ⟨rfl, rfl⟩ | ⟨l₁, p, rfl, rfl⟩
  · rfl
  · exact after_append fun hp => (List.nodup_append.mp hl).2.2 p hp p List.mem_cons_self rfl

theorem Ahead.next_cons (hl : l.Nodup) {cur : Option α} {x : α} {rest : List α}
    (h : Ahead l cur (x :: rest)) : next l cur = some x := by
  rw [next, h.after_eq hl, List.head?_cons, Option.some_or]

/-- The last member is followed by the first one, as the list head is. -/
theorem Ahead.next_end (hl : l.Nodup) {cur : Option α} (h : Ahead l cur []) :
    next l cur = next l none := by
  rw [next, h.after_eq hl, next, after, Option.or_self, List.head?_nil, Option.none_or]

/-- A member ahead on which the walk stops is met. -/
theorem stops_of_ahead (hl : l.Nodup) {rest : List α} : ∀ {cur : Option α}, Ahead l cur rest →
    (∃ x ∈ rest, stop x) → Stops l stop cur := by
  induction rest with
  | nil => rintro cur - ⟨x, hx, -⟩; cases hx
  | cons y rest ih =>
    rintro cur h ⟨x, hx, hs⟩
    rcases List.mem_cons.mp hx with rfl | hx
    · exact .here (h.next_cons hl) hs
    · exact .later (h.next_cons hl) (ih h.cons ⟨x, hx, hs⟩)

/-- The walk goes on past the end of the list. -/
theorem stops_of_wrap (hl : l.Nodup) (h0 : Stops l stop none) {rest : List α} :
    ∀ {cur : Option α}, Ahead l cur rest → Stops l stop cur := by
  induction rest with
  | nil =>
    intro cur h
    have hn := h.next_end hl
    cases h0 with
    | empty h => exact .empty (hn.trans h)
    | here h hx => exact .here (hn.trans h) hx
    | later h hx => exact .later (hn.trans h) hx
  | cons y rest ih => exact fun h => .later (h.next_cons hl) (ih h.cons)

theorem next_mem {cur : Option α} {x : α} (h : next l cur = some x) : x ∈ l := by
  rw [next, Option.or_eq_some_iff] at h
  rcases h with h | ⟨-, h⟩
  · cases cur with
    | none => exact List.mem_of_head? h
    | some p =>
      exact (List.dropWhile_sublist _).subset (List.mem_of_mem_tail (List.mem_of_head? h))
  · exact List.mem_of_head? h

/-- **When a walk ends**: the list is empty, or it has a member on which the walk stops. -/
theorem stops_iff (hl : l.Nodup) {cur : Option α} (hc : ∀ p, cur = some p → p ∈ l) :
    Stops l stop cur ↔ l = [] ∨ ∃ x ∈ l, stop x := by
  constructor
  · intro h
    induction h with
    | empty h =>
      rw [next, Option.or_eq_none_iff] at h
      exact .inl (List.head?_eq_none_iff.mp h.2)
    | here h hx => exact .inr ⟨_, next_mem h, hx⟩
    | later h _ ih => exact ih fun p hp => Option.some.inj hp ▸ next_mem h
  · rintro (rfl | h)
    · refine .empty ?_
      cases cur <;> rfl
    · obtain ⟨rest, hr⟩ := exists_ahead hc
      exact stops_of_wrap hl (stops_of_ahead hl (.inl ⟨rfl, rfl⟩) h) hr

/-! ## One turn around the list -/

/-- A walk from `cur` visits `todo` first. -/
def Follows (l : List α) : Option α → List α → Prop
  | _, [] => True
  | cur, x :: todo => next l cur = some x ∧ Follows l (some x) todo

/-- The members in circular order from the successor of `cur` on, `cur` itself last. -/
def turn (l : List α) : Option α → List α
  | none => l
  | some p => (l.dropWhile (· ≠ p)).tail ++ l.takeWhile (· ≠ p) ++ [p]

theorem turn_append {a b : List α} {p : α} (hp : p ∉ a) :
    turn (a ++ p :: b) (some p) = b ++ a ++ [p] := by
  have hne : ∀ x ∈ a, decide (x ≠ p) = true := by
    intro x hx
    rw [decide_eq_true_iff]
    rintro rfl
    exact hp hx
  rw [turn, List.dropWhile_append_of_pos hne, List.dropWhile_cons_of_neg (by simp), List.tail_cons,
    List.takeWhile_append_of_pos hne, List.takeWhile_cons_of_neg (by simp), List.append_nil]

/-- The shape of a turn from a member. -/
theorem exists_turn (hl : l.Nodup) {p : α} (hp : p ∈ l) :
    ∃ a b, l = a ++ p :: b ∧ p ∉ a ∧ turn l (some p) = b ++ a ++ [p] := by
  obtain ⟨a, b, rfl⟩ := List.append_of_mem hp
  have hpa : p ∉ a := fun h => (List.nodup_append.mp hl).2.2 p h p List.mem_cons_self rfl
  exact ⟨a, b, rfl, hpa, turn_append hpa⟩

theorem turn_perm (hl : l.Nodup) {cur : Option α} (hc : ∀ p, cur = some p → p ∈ l) :
    (turn l cur).Perm l := by
  cases cur with
  | none => exact .refl l
  | some p =>
    obtain ⟨a, b, rfl, -, hturn⟩ := exists_turn hl (hc p rfl)
    rw [hturn, List.append_assoc]
    refine List.perm_append_comm.trans ?_
    rw [List.append_assoc, List.singleton_append]

theorem Follows.left {xs ys : List α} : ∀ {cur : Option α}, Follows l cur (xs ++ ys) →
    Follows l cur xs := by
  induction xs with
  | nil =>
    intro cur _
    trivial
  | cons x xs ih => exact fun h => ⟨h.1, ih h.2⟩

/-- Past the end of the list a walk goes on as from the list head. -/
theorem Ahead.follows_append (hl : l.Nodup) {todo : List α} (h0 : Follows l none todo)
    {rest : List α} : ∀ {cur : Option α}, Ahead l cur rest → Follows l cur (rest ++ todo) := by
  induction rest with
  | nil =>
    intro cur h
    cases todo with
    | nil => trivial
    | cons x todo => exact ⟨h.next_end hl ▸ h0.1, h0.2⟩
  | cons x rest ih => exact fun h => ⟨h.next_cons hl, ih h.cons⟩

/-- **A walk takes one turn** before it comes back to where it started. -/
theorem follows_turn (hl : l.Nodup) {cur : Option α} (hc : ∀ p, cur = some p → p ∈ l) :
    Follows l cur (turn l cur) := by
  have h0 : Follows l none l := by
    have : Follows l none (l ++ []) :=
      Ahead.follows_append hl (show Follows l none [] from trivial) (.inl ⟨rfl, rfl⟩ : Ahead l none l)
    rwa [List.append_nil] at this
  cases cur with
  | none => exact h0
  | some p =>
    obtain ⟨a, b, rfl, -, hturn⟩ := exists_turn hl (hc p rfl)
    rw [hturn, List.append_assoc]
    refine Ahead.follows_append hl ?_ (.inr ⟨a, p, rfl, rfl⟩)
    have hwhole : Follows (a ++ p :: b) none (a ++ [p] ++ b) := by
      rw [← List.append_cons]
      exact h0
    exact hwhole.left

/-- **The turn from a member of a turn** is the rest of that turn, and then its beginning. -/
theorem turn_of_turn (hl : l.Nodup) {cur : Option α} (hc : ∀ p, cur = some p → p ∈ l)
    {xs ys : List α} {y : α} (h : turn l cur = xs ++ y :: ys) :
    turn l (some y) = ys ++ xs ++ [y] := by
  -- an occurrence of `y` fixes the turn from it
  have hfrom {a b : List α} (he : l = a ++ y :: b) : turn l (some y) = b ++ a ++ [y] := by
    have hya : y ∉ a := by
      rw [he] at hl
      exact fun hmem => (List.nodup_append.mp hl).2.2 y hmem y List.mem_cons_self rfl
    rw [he, turn_append hya]
  cases cur with
  | none => exact hfrom h
  | some p =>
    obtain ⟨a, b, he, -, hturn⟩ := exists_turn hl (hc p rfl)
    rw [hturn, List.append_assoc, List.append_eq_append_iff] at h
    -- `d` is what is left in front of `p` when `y` comes up in `d ++ [p]`
    have hfront {c d : List α} (he : l = c ++ d ++ p :: b) (hrest : y :: ys = d ++ [p]) :
        turn l (some y) = ys ++ (b ++ c) ++ [y] := by
      cases d with
      | nil =>
        cases hrest
        rw [hfrom (he.trans (by rw [List.append_nil])), List.nil_append]
      | cons z d =>
        cases hrest
        rw [hfrom (he.trans (by rw [List.append_assoc, List.cons_append]))]
        simp
    rcases h with ⟨c, rfl, hrest⟩ | ⟨c, rfl, hrest⟩
    · rw [List.append_eq_append_iff] at hrest
      rcases hrest with ⟨d, rfl, hlast⟩ | ⟨d, rfl, hrest⟩
      · have hd : d = [] := by
          cases d with
          | nil => rfl
          | cons z d => simp at hlast
        subst hd
        have := hfront (c := a) (d := []) (by rw [List.append_nil]; exact he) hlast.symm
        rwa [List.append_nil]
      · exact hfront he hrest
    · cases c with
      | nil =>
        have := hfront (c := []) (d := a) he hrest
        rwa [List.append_nil, List.append_nil] at this
      | cons z c =>
        cases hrest
        rw [hfrom (he.trans (by rw [List.append_cons a, ← List.append_assoc, List.append_cons]))]
        simp

/-! ## The place of a member in a turn -/

/-- How many members the walk visits before `p`. -/
def place (l : List α) (cur : Option α) (p : α) : Nat := (turn l cur).idxOf p

/-- In a part of a list without repetitions a member stands no further behind. -/
theorem idxOf_le_of_sublist {l l' : List α} (h : l'.Sublist l) (hl : l.Nodup) {p : α} (hp : p ∈ l') :
    l'.idxOf p ≤ l.idxOf p := by
  induction h with
  | slnil => cases hp
  | @cons l' l x h ih =>
    obtain ⟨hx, hl⟩ := List.nodup_cons.mp hl
    have hne : x ≠ p := fun he => hx (he ▸ h.subset hp)
    rw [List.idxOf_cons_ne l hne]
    exact Nat.le_succ_of_le (ih hl hp)
  | @cons_cons l' l x h ih =>
    obtain ⟨-, hl⟩ := List.nodup_cons.mp hl
    by_cases hxp : x = p
    · rw [List.idxOf_cons_eq l' hxp]
      exact Nat.zero_le _
    · rw [List.idxOf_cons_ne l hxp, List.idxOf_cons_ne l' hxp]
      exact Nat.succ_le_succ (ih hl ((List.mem_cons.mp hp).resolve_left (Ne.symm hxp)))

/-- It moves back by no more than there are other members. -/
theorem idxOf_add_length_le {l l' : List α} (h : l'.Sublist l) (hl : l.Nodup) {p : α} (hp : p ∈ l') :
    l.idxOf p + l'.length ≤ l'.idxOf p + l.length := by
  induction h with
  | slnil => cases hp
  | @cons l' l x h ih =>
    obtain ⟨hx, hl⟩ := List.nodup_cons.mp hl
    have hne : x ≠ p := fun he => hx (he ▸ h.subset hp)
    have hrest := ih hl hp
    rw [List.idxOf_cons_ne l hne, List.length_cons]
    omega
  | @cons_cons l' l x h ih =>
    obtain ⟨-, hl⟩ := List.nodup_cons.mp hl
    rw [List.length_cons, List.length_cons]
    by_cases hxp : x = p
    · have hlen := h.length_le
      rw [List.idxOf_cons_eq l hxp, List.idxOf_cons_eq l' hxp]
      omega
    · have hrest := ih hl ((List.mem_cons.mp hp).resolve_left (Ne.symm hxp))
      rw [List.idxOf_cons_ne l hxp, List.idxOf_cons_ne l' hxp]
      omega

theorem parts_sublist {l l' : List α} (h : l'.Sublist l) (hl : l.Nodup) {c : α} (hc : c ∈ l') :
    (l'.takeWhile (· ≠ c)).Sublist (l.takeWhile (· ≠ c)) ∧
      (l'.dropWhile (· ≠ c)).tail.Sublist (l.dropWhile (· ≠ c)).tail := by
  induction h with
  | slnil => cases hc
  | @cons l' l x h ih =>
    obtain ⟨hx, hl⟩ := List.nodup_cons.mp hl
    have hne : decide (x ≠ c) = true := decide_eq_true fun he => hx (he ▸ h.subset hc)
    obtain ⟨hbefore, hbehind⟩ := ih hl hc
    rw [List.takeWhile_cons, List.dropWhile_cons, if_pos hne, if_pos hne]
    exact ⟨hbefore.cons x, hbehind⟩
  | @cons_cons l' l x h ih =>
    obtain ⟨-, hl⟩ := List.nodup_cons.mp hl
    by_cases hxc : x = c
    · have hend : ¬ decide (x ≠ c) = true := by
        rw [decide_eq_true_iff]
        exact not_not_intro hxc
      simp only [List.takeWhile_cons, List.dropWhile_cons, if_neg hend]
      exact ⟨.slnil, h⟩
    · have hne : decide (x ≠ c) = true := decide_eq_true hxc
      obtain ⟨hbefore, hbehind⟩ := ih hl ((List.mem_cons.mp hc).resolve_left (Ne.symm hxc))
      simp only [List.takeWhile_cons, List.dropWhile_cons, if_pos hne]
      exact ⟨hbefore.cons_cons x, hbehind⟩

/-- The turn around a part of the list is a part of the turn. -/
theorem turn_sublist {l l' : List α} (h : l'.Sublist l) (hl : l.Nodup) {cur : Option α}
    (hc : ∀ c, cur = some c → c ∈ l') : (turn l' cur).Sublist (turn l cur) := by
  cases cur with
  | none => exact h
  | some c =>
    obtain ⟨hbefore, hbehind⟩ := parts_sublist h hl (hc c rfl)
    exact (hbehind.append hbefore).append (.refl _)

section place

variable {cur : Option α} {p : α}

theorem place_lt (hl : l.Nodup) (hc : ∀ c, cur = some c → c ∈ l) (hp : p ∈ l) :
    place l cur p < l.length := by
  have hperm := turn_perm hl hc
  rw [← hperm.length_eq]
  exact List.idxOf_lt_length_of_mem (hperm.mem_iff.mpr hp)

/-- Others leave the list. -/
theorem place_le {l' : List α} (h : l'.Sublist l) (hl : l.Nodup) (hc : ∀ c, cur = some c → c ∈ l')
    (hp : p ∈ l') : place l' cur p ≤ place l cur p :=
  have hc' : ∀ c, cur = some c → c ∈ l := fun c hcur => h.subset (hc c hcur)
  idxOf_le_of_sublist (turn_sublist h hl hc) ((turn_perm hl hc').nodup_iff.mpr hl)
    ((turn_perm (h.nodup hl) hc).mem_iff.mpr hp)

/-- Others come into it. -/
theorem place_add_length_le {l' : List α} (h : l'.Sublist l) (hl : l.Nodup)
    (hc : ∀ c, cur = some c → c ∈ l') (hp : p ∈ l') :
    place l cur p + l'.length ≤ place l' cur p + l.length := by
  have hperm := turn_perm hl fun c hcur => h.subset (hc c hcur)
  have hperm' := turn_perm (h.nodup hl) hc
  rw [← hperm.length_eq, ← hperm'.length_eq]
  exact idxOf_add_length_le (turn_sublist h hl hc) (hperm.nodup_iff.mpr hl) (hperm'.mem_iff.mpr hp)

/-- The turn goes on from a member that comes before `p`. -/
theorem place_lt_of_turn (hl : l.Nodup) (hc : ∀ c, cur = some c → c ∈ l) {xs ys : List α} {y : α}
    (h : turn l cur = xs ++ y :: ys) (hp : p ∈ ys) : place l (some y) p < place l cur p := by
  have hnodup : (xs ++ y :: ys).Nodup := h ▸ (turn_perm hl hc).nodup_iff.mpr hl
  have hxs : p ∉ xs := fun hx => (List.nodup_append.mp hnodup).2.2 p hx p (List.mem_cons_of_mem _ hp) rfl
  have hy : y ≠ p := by
    rintro rfl
    exact (List.nodup_cons.mp (List.nodup_append.mp hnodup).2.1).1 hp
  unfold place
  rw [turn_of_turn hl hc h, h, List.append_assoc, List.idxOf_append_of_mem hp,
    List.idxOf_append_of_notMem hxs, List.idxOf_cons_ne ys hy]
  omega

end place

end Sys.Ring
