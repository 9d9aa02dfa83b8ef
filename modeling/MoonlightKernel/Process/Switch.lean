import MoonlightKernel.Lib.Ring
import MoonlightKernel.Process.State

/-!
# The scheduler's selection: `switch_process` of `boot/x86/IDT/idt.c`

* `selectLoop` — the `select` loop, with the number of passes it may make;
* `switchProcess` — the function;
* `select_ends_iff` — when the selection ends.

The loop stops at the process it started from.  Started from `NULL` (the idle task was running,
or the current process has just died) it can only stop at a process that may run.
-/

set_option autoImplicit false

namespace Moonlight

open Sys

/-- How the selection ends. -/
inductive Selection
  | task (p : Nat)
  | idle
  | noMoreTask
  deriving DecidableEq

/-- The scheduler may give the processor to `p`: it is running, or it has a signal to take. -/
def Runnable (k : Kernel) (p : Nat) : Prop :=
  (k.proc p).state = .RUN ∨ (k.proc p).signal.sigQueue ≠ []

instance (k : Kernel) (p : Nat) : Decidable (Runnable k p) := inferInstanceAs (Decidable (_ ∨ _))

/-- The code after the `select` loop has settled for `NULL`. -/
def selectNull (moreOneProcess : Bool) : Selection := if moreOneProcess then .idle else .noMoreTask

/-- The `select` loop, with `fuel` passes left; `none` when they do not suffice. -/
def selectLoop (k : Kernel) (prevProc : Option Nat) : Nat → Option Nat → Bool → Option Selection
  | 0, _, _ => none
  | fuel + 1, curProc, moreOneProcess =>
    -- the successor of `cur_proc`; past the last one, the first of the list
    match (Ring.after k.processList curProc).or k.processList.head? with
    | none => some (selectNull moreOneProcess)
    | some p =>
      if (k.proc p).state ≠ .RUN ∧ (k.proc p).signal.sigQueue = [] then
        let moreOneProcess := moreOneProcess || decide ((k.proc p).state ≠ .ZOMBIE)
        if some p = prevProc then some (selectNull moreOneProcess)
        else selectLoop k prevProc fuel (some p) moreOneProcess
      else some (.task p)

/-- `switch_process`, up to the call of `proc_switch`. -/
def switchProcess (fuel : Nat) (k : Kernel) : Option (Selection × Kernel) :=
  (selectLoop k k.current fuel k.current false).map fun
    | .task p => (.task p, { k with current := some p })
    | .idle => (.idle, { k with current := none })
    | .noMoreTask => (.noMoreTask, k)

/-! ## When the loop ends -/

theorem not_runnable_iff {k : Kernel} {p : Nat} :
    ¬ Runnable k p ↔ (k.proc p).state ≠ .RUN ∧ (k.proc p).signal.sigQueue = [] := by
  unfold Runnable
  rw [not_or, ne_eq, not_not]

/-- A process at which the loop stops. -/
def StopsAt (k : Kernel) (prevProc : Option Nat) (p : Nat) : Prop :=
  Runnable k p ∨ prevProc = some p

theorem selectLoop_of_stopsAt {k : Kernel} {prevProc curProc : Option Nat} {p : Nat} (more : Bool)
    (hn : Ring.next k.processList curProc = some p) (hp : StopsAt k prevProc p) :
    (selectLoop k prevProc 1 curProc more).isSome := by
  unfold selectLoop
  rw [Ring.next] at hn
  rw [hn]
  dsimp only
  split
  · rename_i hr
    rw [if_pos (hp.resolve_left (not_runnable_iff.mpr hr)).symm]
    rfl
  · rfl

/-- The loop is a walk around `process_list`. -/
theorem selectLoop_ends_iff (k : Kernel) (prevProc curProc : Option Nat) (more : Bool) :
    (∃ fuel, (selectLoop k prevProc fuel curProc more).isSome) ↔
      Ring.Stops k.processList (StopsAt k prevProc) curProc := by
  constructor
  · rintro ⟨fuel, h⟩
    induction fuel generalizing curProc more with
    | zero => cases h
    | succ fuel ih =>
      unfold selectLoop at h
      split at h
      · rename_i hn; exact .empty hn
      rename_i p hn
      split at h
      · dsimp only at h
        split at h
        · rename_i hp; exact .here hn (.inr hp.symm)
        · exact .later hn (ih _ _ h)
      · rename_i hr
        exact .here hn (.inl (by rwa [← not_runnable_iff, not_not] at hr))
  · intro h
    induction h generalizing more with
    | empty h => exact ⟨1, by unfold selectLoop; rw [Ring.next] at h; simp [h]⟩
    | here h hp => exact ⟨1, selectLoop_of_stopsAt more h hp⟩
    | @later cur p h _ ih =>
      by_cases hp : StopsAt k prevProc p
      · exact ⟨1, selectLoop_of_stopsAt more h hp⟩
      · rw [StopsAt, not_or, not_runnable_iff] at hp
        obtain ⟨fuel, hf⟩ := ih (more || decide ((k.proc p).state ≠ .ZOMBIE))
        refine ⟨fuel + 1, ?_⟩
        unfold selectLoop
        rw [Ring.next] at h
        rw [h]
        dsimp only
        rw [if_pos hp.1, if_neg fun h => hp.2 h.symm]
        exact hf

/-- **The selection ends exactly when** the walk starts from a process, or there is no process at
all, or some process may run. -/
theorem select_ends_iff (k : Kernel) (hlist : k.processList.Nodup)
    (hcur : ∀ p, k.current = some p → p ∈ k.processList) :
    (∃ fuel, (switchProcess fuel k).isSome) ↔
      k.current ≠ none ∨ k.processList = [] ∨ ∃ p ∈ k.processList, Runnable k p := by
  simp only [switchProcess, Option.isSome_map, selectLoop_ends_iff, Ring.stops_iff hlist hcur]
  cases hc : k.current with
  | none => simp [StopsAt]
  | some p => simp only [StopsAt]; exact iff_of_true (.inr ⟨p, hcur p hc, .inr rfl⟩) (.inl (by simp))

/-- Two processes that wait, and the idle task. -/
def Kernel.allStopped : Kernel where
  machine := ⟨fun _ => 0, fun _ => 0, fun _ _ => 0⟩
  kmallocs := fun _ => none
  current := none
  processList := [1, 2]
  proc := fun _ => { Process.zero with state := .STOPPED }
  lastPid := 3

/-- With every process stopped, a clock tick in the idle task never leaves the loop. -/
theorem select_spins_when_idle : ¬ ∃ fuel, (switchProcess fuel .allStopped).isSome := by
  simp only [switchProcess, Option.isSome_map, selectLoop_ends_iff]
  rw [Ring.stops_iff (by decide) (fun p h => by cases h)]
  simp [Kernel.allStopped, Process.zero, StopsAt, Runnable]

/-- The same processes, the clock tick in one of them. -/
theorem select_ends_from_process :
    ∃ fuel, (switchProcess fuel { Kernel.allStopped with current := some 2 }).isSome :=
  (select_ends_iff _ (by decide) fun p h => Option.some.inj h ▸ by decide).mpr (.inl (by simp))

end Moonlight
