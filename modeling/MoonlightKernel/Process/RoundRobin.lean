import MoonlightKernel.Lib.Run
import MoonlightKernel.Process.Switch

/-!
# Round-robin selection

* `selectLoop_next` — one pass of the `select` loop;
* `selects_iff` — `switch_process` selects the first runnable process of one turn around
  `process_list`, and otherwise the idle task or the panic;
* `selects_turn` — successive selections go through the runnable processes of a turn in order;
* `round_robin` — both, and that each runnable process is chosen exactly once.
-/

set_option autoImplicit false

namespace Moonlight

open Sys

/-- The processes in the order in which the loop looks at them: from the successor of `current` on,
`current` itself last. -/
def Kernel.turn (k : Kernel) : List Nat := Ring.turn k.processList k.current

/-- Some process is left that is no zombie. -/
def Kernel.moreProcess (k : Kernel) (ps : List Nat) : Bool :=
  ps.any fun p => decide ((k.proc p).state ≠ .ZOMBIE)

/-- The states that the kernel calls `switch_process` in. -/
structure Kernel.CanSelect (k : Kernel) : Prop where
  nodup : k.processList.Nodup
  current : ∀ p, k.current = some p → p ∈ k.processList
  null : k.current = none → k.processList = [] ∨ ∃ p ∈ k.processList, Runnable k p

/-! ## One selection -/

/-- One pass of the loop. -/
theorem selectLoop_next {k : Kernel} {prevProc curProc : Option Nat} {p : Nat} (fuel : Nat)
    (more : Bool) (hn : Ring.next k.processList curProc = some p) :
    selectLoop k prevProc (fuel + 1) curProc more =
      if Runnable k p then some (.task p)
      else if some p = prevProc then some (selectNull (more || k.moreProcess [p]))
      else selectLoop k prevProc fuel (some p) (more || k.moreProcess [p]) := by
  rw [selectLoop]
  rw [Ring.next] at hn
  rw [hn]
  dsimp only
  by_cases hr : Runnable k p
  · rw [if_pos hr, if_neg (fun h => not_runnable_iff.mpr h hr)]
  · rw [if_neg hr, if_pos (not_runnable_iff.mp hr)]
    simp [Kernel.moreProcess]

/-- The loop ends at the first runnable process. -/
theorem selectLoop_task {k : Kernel} {prevProc : Option Nat} {y : Nat} (hy : Runnable k y)
    {xs : List Nat} (hxs : ∀ x ∈ xs, ¬ Runnable k x ∧ prevProc ≠ some x) {s : Selection} :
    ∀ {fuel : Nat} {curProc : Option Nat} {more : Bool},
      Ring.Follows k.processList curProc (xs ++ [y]) →
      selectLoop k prevProc fuel curProc more = some s → s = .task y := by
  induction xs with
  | nil =>
    intro fuel curProc more hf h
    cases fuel with
    | zero => cases h
    | succ fuel =>
      rw [selectLoop_next fuel more hf.1, if_pos hy] at h
      exact (Option.some.inj h).symm
  | cons x xs ih =>
    intro fuel curProc more hf h
    cases fuel with
    | zero => cases h
    | succ fuel =>
      obtain ⟨hx, hne⟩ := hxs x List.mem_cons_self
      rw [selectLoop_next fuel more hf.1, if_neg hx, if_neg hne.symm] at h
      exact ih (fun z hz => hxs z (List.mem_cons_of_mem _ hz)) hf.2 h

/-- When no process may run it ends where it started. -/
theorem selectLoop_back {k : Kernel} {c : Nat} (hc : ¬ Runnable k c) {xs : List Nat}
    (hxs : ∀ x ∈ xs, ¬ Runnable k x ∧ some c ≠ some x) {s : Selection} :
    ∀ {fuel : Nat} {curProc : Option Nat} {more : Bool},
      Ring.Follows k.processList curProc (xs ++ [c]) →
      selectLoop k (some c) fuel curProc more = some s →
        s = selectNull (more || k.moreProcess (xs ++ [c])) := by
  induction xs with
  | nil =>
    intro fuel curProc more hf h
    cases fuel with
    | zero => cases h
    | succ fuel =>
      rw [selectLoop_next fuel more hf.1, if_neg hc, if_pos rfl] at h
      exact (Option.some.inj h).symm
  | cons x xs ih =>
    intro fuel curProc more hf h
    cases fuel with
    | zero => cases h
    | succ fuel =>
      obtain ⟨hx, hne⟩ := hxs x List.mem_cons_self
      rw [selectLoop_next fuel more hf.1, if_neg hx, if_neg hne.symm] at h
      rw [ih (fun z hz => hxs z (List.mem_cons_of_mem _ hz)) hf.2 h]
      simp [Kernel.moreProcess, Bool.or_assoc]

/-- What is selected: the first runnable process of the turn; when there is none, the idle task if
some process is no zombie, and the panic otherwise. -/
def Kernel.selection (k : Kernel) : Selection :=
  match k.turn.find? fun p => decide (Runnable k p) with
  | some p => .task p
  | none => selectNull (k.moreProcess k.processList)

/-- The process that the loop started from comes last. -/
theorem turn_of_current {k : Kernel} (h : k.CanSelect) {c : Nat} (hc : k.current = some c) :
    ∃ xs, k.turn = xs ++ [c] ∧ c ∉ xs := by
  obtain ⟨a, b, hl, -, hturn⟩ := Ring.exists_turn h.nodup (h.current c hc)
  have hnodup : k.turn.Nodup := (Ring.turn_perm h.nodup h.current).nodup_iff.mpr h.nodup
  have hk : k.turn = (b ++ a) ++ [c] := by
    rw [Kernel.turn, hc, hturn]
  rw [hk] at hnodup
  refine ⟨b ++ a, hk, fun hmem => ?_⟩
  exact (List.nodup_append.mp hnodup).2.2 c hmem c (List.mem_singleton_self c) rfl

theorem selectLoop_eq {k : Kernel} (h : k.CanSelect) {fuel : Nat} {s : Selection}
    (hs : selectLoop k k.current fuel k.current false = some s) : s = k.selection := by
  have hf : Ring.Follows k.processList k.current k.turn := Ring.follows_turn h.nodup h.current
  unfold Kernel.selection
  cases hfind : k.turn.find? fun p => decide (Runnable k p) with
  | some y =>
    obtain ⟨hy, xs, ys, hturn, hxs⟩ := List.find?_eq_some_iff_append.mp hfind
    rw [decide_eq_true_iff] at hy
    rw [hturn, List.append_cons] at hf
    refine selectLoop_task hy (fun x hx => ⟨?_, fun hc => ?_⟩) hf.left hs
    · simpa using hxs x hx
    · -- the process it started from is the last of the turn
      obtain ⟨zs, hlast, hnot⟩ := turn_of_current h hc
      rw [hlast] at hturn
      have hz := congrArg List.dropLast hturn
      rw [List.dropLast_concat, List.dropLast_append_of_ne_nil (List.cons_ne_nil y ys)] at hz
      rw [hz] at hnot
      exact hnot (List.mem_append_left _ hx)
  | none =>
    have hidle : ∀ p ∈ k.turn, ¬ Runnable k p := by
      intro p hp
      simpa using List.find?_eq_none.mp hfind p hp
    have hperm : k.turn.Perm k.processList := Ring.turn_perm h.nodup h.current
    cases hc : k.current with
    | none =>
      -- the list is empty
      have hnil : k.processList = [] := by
        refine (h.null hc).resolve_right ?_
        rintro ⟨p, hp, hr⟩
        exact hidle p (hperm.mem_iff.mpr hp) hr
      rw [hc] at hs
      cases fuel with
      | zero => cases hs
      | succ fuel =>
        rw [selectLoop, hnil] at hs
        rw [hnil]
        exact (Option.some.inj hs).symm
    | some c =>
      obtain ⟨xs, hturn, hnot⟩ := turn_of_current h hc
      rw [hturn] at hf hidle
      rw [hc] at hs hf
      have hlast : ¬ Runnable k c := hidle c (List.mem_append_right _ (List.mem_singleton_self c))
      rw [selectLoop_back hlast (fun x hx => ⟨hidle x (List.mem_append_left _ hx), ?_⟩) hf hs,
        Bool.false_or, ← hturn]
      · exact congrArg selectNull hperm.any_eq
      · intro he
        cases he
        exact hnot hx

/-! ## `switch_process` -/

/-- `switch_process` selects `s`. -/
def Selects (k : Kernel) (s : Selection) (k' : Kernel) : Prop :=
  ∃ fuel, switchProcess fuel k = some (s, k')

/-- What the selection stores in `current`. -/
def Kernel.selected (k : Kernel) : Selection → Kernel
  | .task p => { k with current := some p }
  | .idle => { k with current := none }
  | .noMoreTask => k

theorem switchProcess_eq (fuel : Nat) (k : Kernel) : switchProcess fuel k =
    (selectLoop k k.current fuel k.current false).map fun s => (s, k.selected s) := by
  unfold switchProcess
  congr 1
  funext s
  cases s <;> rfl

/-- **One selection.**  It ends, and selects as specified. -/
theorem selects_iff {k : Kernel} (h : k.CanSelect) {s : Selection} {k' : Kernel} :
    Selects k s k' ↔ s = k.selection ∧ k' = k.selected s := by
  have hsound {fuel : Nat} {s : Selection} {k' : Kernel}
      (hs : switchProcess fuel k = some (s, k')) : s = k.selection ∧ k' = k.selected s := by
    rw [switchProcess_eq, Option.map_eq_some_iff] at hs
    obtain ⟨s', hs', he⟩ := hs
    cases he
    exact ⟨selectLoop_eq h hs', rfl⟩
  constructor
  · rintro ⟨fuel, hs⟩
    exact hsound hs
  · rintro ⟨rfl, rfl⟩
    have hend : k.current ≠ none ∨ k.processList = [] ∨ ∃ p ∈ k.processList, Runnable k p := by
      by_cases hc : k.current = none
      · exact .inr (h.null hc)
      · exact .inl hc
    obtain ⟨fuel, hf⟩ := (select_ends_iff k h.nodup h.current).mpr hend
    obtain ⟨⟨s, k'⟩, hs⟩ := Option.isSome_iff_exists.mp hf
    obtain ⟨rfl, rfl⟩ := hsound hs
    exact ⟨fuel, hs⟩

/-- The processes of the turn are those of the list. -/
theorem Kernel.CanSelect.turn_perm {k : Kernel} (h : k.CanSelect) : k.turn.Perm k.processList :=
  Ring.turn_perm h.nodup h.current

theorem selection_eq_task_iff (k : Kernel) (p : Nat) : k.selection = .task p ↔
    k.turn.find? (fun p => decide (Runnable k p)) = some p := by
  unfold Kernel.selection selectNull
  cases k.turn.find? fun p => decide (Runnable k p) with
  | some y => simp
  | none => cases k.moreProcess k.processList <;> simp

theorem moreProcess_iff (k : Kernel) (ps : List Nat) :
    k.moreProcess ps = true ↔ ∃ p ∈ ps, (k.proc p).state ≠ .ZOMBIE := by
  simp [Kernel.moreProcess]

theorem selection_null {k : Kernel} (h : k.CanSelect) :
    (k.selection = .idle ↔ (∀ p ∈ k.processList, ¬ Runnable k p) ∧
        ∃ p ∈ k.processList, (k.proc p).state ≠ .ZOMBIE) ∧
      (k.selection = .noMoreTask ↔ ∀ p ∈ k.processList,
        ¬ Runnable k p ∧ (k.proc p).state = .ZOMBIE) := by
  unfold Kernel.selection
  cases hfind : k.turn.find? fun p => decide (Runnable k p) with
  | some y =>
    have hy : Runnable k y := by simpa using List.find?_some hfind
    have hmem := h.turn_perm.mem_iff.mp (List.mem_of_find?_eq_some hfind)
    refine ⟨iff_of_false (fun he => nomatch he) fun hnone => hnone.1 y hmem hy,
      iff_of_false (fun he => nomatch he) fun hnone => (hnone y hmem).1 hy⟩
  | none =>
    have hidle : ∀ p ∈ k.processList, ¬ Runnable k p := by
      intro p hp
      simpa using List.find?_eq_none.mp hfind p (h.turn_perm.mem_iff.mpr hp)
    have hmore := moreProcess_iff k k.processList
    unfold selectNull
    dsimp only
    cases hm : k.moreProcess k.processList with
    | true =>
      have hex := hmore.mp hm
      refine ⟨iff_of_true rfl ⟨hidle, hex⟩, iff_of_false (fun he => nomatch he) fun hall => ?_⟩
      obtain ⟨p, hp, hne⟩ := hex
      exact hne (hall p hp).2
    | false =>
      have hno : ¬ ∃ p ∈ k.processList, (k.proc p).state ≠ .ZOMBIE := by
        rw [← hmore, hm]
        exact Bool.false_ne_true
      refine ⟨iff_of_false (fun he => nomatch he) fun hall => hno hall.2,
        iff_of_true rfl fun p hp => ⟨hidle p hp, ?_⟩⟩
      by_contra hne
      exact hno ⟨p, hp, hne⟩

/-! ## Successive selections -/

/-- After a process was selected the next selection can follow. -/
theorem Kernel.CanSelect.selected {k : Kernel} (h : k.CanSelect) {p : Nat}
    (hp : p ∈ k.processList) : (k.selected (.task p)).CanSelect where
  nodup := h.nodup
  current _ hq := Option.some.inj hq ▸ hp
  null hc := nomatch hc

/-- The runnable processes of a part of the turn are selected one after the other. -/
theorem selects_turn {ss : List Selection} : ∀ {k k' : Kernel} {ys zs : List Nat}, k.CanSelect →
    k.turn = ys ++ zs → Run Selects k ss k' →
    ss.length = (ys.filter fun p => decide (Runnable k p)).length →
    ss = (ys.filter fun p => decide (Runnable k p)).map Selection.task := by
  induction ss with
  | nil =>
    intro k k' ys zs _ _ _ hlen
    rw [List.eq_nil_of_length_eq_zero hlen.symm, List.map_nil]
  | cons s ss ih =>
    intro k k' ys zs h hturn hrun hlen
    cases hrun with
    | @cons _ k₁ _ _ _ hs hrun =>
      obtain ⟨rfl, rfl⟩ := (selects_iff h).mp hs
      -- the first runnable process of `ys`
      cases hfind : ys.find? fun p => decide (Runnable k p) with
      | none =>
        rw [List.filter_eq_nil_iff.mpr (List.find?_eq_none.mp hfind)] at hlen
        cases hlen
      | some y =>
        obtain ⟨hy, xs, ys', rfl, hxs⟩ := List.find?_eq_some_iff_append.mp hfind
        have hfilter : (xs ++ y :: ys').filter (fun p => decide (Runnable k p)) =
            y :: ys'.filter fun p => decide (Runnable k p) := by
          have hnone : xs.filter (fun p => decide (Runnable k p)) = [] :=
            List.filter_eq_nil_iff.mpr fun x hx => by simpa using hxs x hx
          rw [List.filter_append, hnone, List.nil_append, List.filter_cons, if_pos hy]
        have htask : k.selection = .task y := by
          rw [selection_eq_task_iff, hturn, List.find?_append, hfind, Option.some_or]
        have hmem : y ∈ k.processList := by
          rw [← h.turn_perm.mem_iff, hturn]
          simp
        rw [htask] at hrun ⊢
        -- the turn from there begins with the rest of `ys`
        have hnext : (k.selected (.task y)).turn = ys' ++ (zs ++ xs ++ [y]) := by
          have hsplit : k.turn = xs ++ y :: (ys' ++ zs) := by
            rw [hturn, List.append_assoc, List.cons_append]
          have := Ring.turn_of_turn h.nodup h.current hsplit
          rw [List.append_assoc, List.append_assoc] at this
          rw [List.append_assoc]
          exact this
        rw [hfilter, List.length_cons, List.length_cons] at hlen
        rw [hfilter, List.map_cons]
        refine congrArg _ ?_
        have hrest := ih (h.selected hmem) hnext hrun (Nat.succ.inj hlen)
        exact hrest

/-- The selections go on as long as there is a runnable process. -/
theorem exists_selects {n : Nat} : ∀ {k : Kernel}, k.CanSelect →
    (∃ p ∈ k.processList, Runnable k p) → ∃ ss k', Run Selects k ss k' ∧ ss.length = n := by
  induction n with
  | zero => exact fun {k} _ _ => ⟨[], k, .nil k, rfl⟩
  | succ n ih =>
    rintro k h ⟨p, hp, hr⟩
    obtain ⟨y, hfind⟩ : ∃ y, k.turn.find? (fun p => decide (Runnable k p)) = some y := by
      refine Option.isSome_iff_exists.mp (List.find?_isSome.mpr ⟨p, ?_, decide_eq_true hr⟩)
      exact h.turn_perm.mem_iff.mpr hp
    have htask := (selection_eq_task_iff k y).mpr hfind
    have hmem := h.turn_perm.mem_iff.mp (List.mem_of_find?_eq_some hfind)
    obtain ⟨ss, k', hrun, hlen⟩ := ih (h.selected hmem) ⟨p, hp, hr⟩
    have hfirst : Selects k (.task y) (k.selected (.task y)) :=
      (selects_iff h).mpr ⟨htask.symm, rfl⟩
    exact ⟨_, k', .cons hfirst hrun, congrArg Nat.succ hlen⟩

/-- **Round-robin selection.**  `switch_process` selects the first runnable process met from the
successor of `current` on, `current` last; the idle task exactly when none is runnable and some
process is no zombie; and panics exactly when all are zombies that may not run.  When there are `m`
runnable processes, `m` successive selections choose each of them exactly once. -/
theorem round_robin {k : Kernel} (h : k.CanSelect) :
    (∃ s k', Selects k s k') ∧
      (∀ s k', Selects k s k' →
        (∀ p, s = .task p ↔ k.turn.find? (fun p => decide (Runnable k p)) = some p) ∧
        (s = .idle ↔ (∀ p ∈ k.processList, ¬ Runnable k p) ∧
          ∃ p ∈ k.processList, (k.proc p).state ≠ .ZOMBIE) ∧
        (s = .noMoreTask ↔ ∀ p ∈ k.processList, ¬ Runnable k p ∧ (k.proc p).state = .ZOMBIE)) ∧
      ∀ m, m = (k.processList.filter fun p => decide (Runnable k p)).length → 1 ≤ m →
        (∃ ss k', Run Selects k ss k' ∧ ss.length = m) ∧
        ∀ ss k', Run Selects k ss k' → ss.length = m →
          ∃ ps : List Nat, ss = ps.map Selection.task ∧ ps.Nodup ∧
            ∀ p, p ∈ ps ↔ p ∈ k.processList ∧ Runnable k p := by
  refine ⟨⟨_, _, (selects_iff h).mpr ⟨rfl, rfl⟩⟩, ?_, ?_⟩
  · intro s k' hs
    obtain ⟨rfl, -⟩ := (selects_iff h).mp hs
    exact ⟨selection_eq_task_iff k, selection_null h⟩
  · intro m hm hpos
    have hperm := h.turn_perm.filter fun p => decide (Runnable k p)
    refine ⟨?_, fun ss k' hrun hlen => ?_⟩
    · obtain ⟨p, hp⟩ := List.exists_mem_of_length_pos (hm ▸ hpos)
      rw [List.mem_filter, decide_eq_true_iff] at hp
      exact exists_selects h ⟨p, hp⟩
    · refine ⟨k.turn.filter fun p => decide (Runnable k p), ?_, ?_, fun p => ?_⟩
      · refine selects_turn h (List.append_nil _).symm hrun ?_
        rw [hlen, hm, hperm.length_eq]
      · exact (h.turn_perm.nodup_iff.mpr h.nodup).filter _
      · rw [List.mem_filter, h.turn_perm.mem_iff, decide_eq_true_iff]

/-- Of three processes one waits; the two others take turns. -/
def Kernel.twoRunning : Kernel :=
  { Kernel.allStopped with
    current := some 2
    processList := [1, 2, 3]
    proc := fun p => { Process.zero with state := if p = 2 then .STOPPED else .RUN } }

theorem round_robin_two : ∃ ss k', Run Selects Kernel.twoRunning ss k' ∧
    ∃ ps : List Nat, ss = ps.map Selection.task ∧ ps.Nodup ∧ ∀ p, p ∈ ps ↔ p = 1 ∨ p = 3 := by
  have hcan : Kernel.twoRunning.CanSelect := by
    refine ⟨by decide, fun p hp => ?_, fun hc => nomatch hc⟩
    cases hp
    decide
  obtain ⟨-, -, hfair⟩ := round_robin hcan
  obtain ⟨⟨ss, k', hrun, hlen⟩, hall⟩ := hfair 2 (by decide) (by decide)
  obtain ⟨ps, hps, hnodup, hmem⟩ := hall ss k' hrun hlen
  refine ⟨ss, k', hrun, ps, hps, hnodup, fun p => ?_⟩
  rw [hmem]
  constructor
  · rintro ⟨hp, hr⟩
    have hp' : p = 1 ∨ p = 2 ∨ p = 3 := by simpa [Kernel.twoRunning] using hp
    rcases hp' with rfl | rfl | rfl
    · exact .inl rfl
    · exact absurd hr (by decide)
    · exact .inr rfl
  · rintro (rfl | rfl) <;> decide

end Moonlight
