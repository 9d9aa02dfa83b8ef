import MoonlightKernel.Process.Life

/-!
# Pids

`process_alloc_pid` tries one pid after the other from where the last call stopped.  The test that
gives up comes after `last_pid++` and before the wrap, so a call that fails can leave `PROC_MAX_PID`
behind, and the next call tries it.

* `PidInv` — what `last_pid` is, whatever the calls so far answered;
* `allocPidLoop_covers` — the tries that are left reach every pid within their distance;
* `pids_unique_and_complete` — a pid that is handed out is new and in range, and a call gives up
  only when every pid is in use.
-/

set_option autoImplicit false

namespace Moonlight

/-- A value of `last_pid` between two calls. -/
def PidInv (lastPid : Int) : Prop := PROC_MIN_PID ≤ lastPid ∧ lastPid ≤ PROC_MAX_PID

/-- The value of `last_pid` after a try that found its pid in use. -/
def nextPid (lastPid : Int) : Int :=
  if lastPid + 1 ≥ PROC_MAX_PID then PROC_MIN_PID else lastPid + 1

theorem allocPidLoop_succ (pids : List Int) (n : Nat) (x : Int) :
    allocPidLoop pids (n + 1) x =
      if x ∈ pids then allocPidLoop pids n (nextPid x) else (0, x, nextPid x) := rfl

theorem nextPid_bounds {x : Int} (h : PidInv x) :
    PROC_MIN_PID ≤ nextPid x ∧ nextPid x < PROC_MAX_PID := by
  unfold PidInv PROC_MIN_PID PROC_MAX_PID at h
  unfold nextPid PROC_MIN_PID PROC_MAX_PID
  split <;> omega

/-- How far the tries are from `i` when `x` is tried next. -/
def pidDistance (x i : Int) : Int := (i - x) % (PROC_MAX_PID - PROC_MIN_PID)

/-- Every try but one on `i` itself comes one nearer. -/
theorem pidDistance_nextPid {x i : Int} (hx : PROC_MIN_PID ≤ x ∧ x < PROC_MAX_PID)
    (hi : PROC_MIN_PID ≤ i ∧ i < PROC_MAX_PID) (hne : i ≠ x) :
    pidDistance (nextPid x) i + 1 = pidDistance x i := by
  unfold PROC_MIN_PID PROC_MAX_PID at hx hi
  unfold pidDistance nextPid PROC_MIN_PID PROC_MAX_PID
  split <;> omega

/-- **A call that gives up** has found every pid within the tries it had left in use. -/
theorem allocPidLoop_covers (pids : List Int) : ∀ (n : Nat) {x i : Int},
    (PROC_MIN_PID ≤ x ∧ x < PROC_MAX_PID) → (PROC_MIN_PID ≤ i ∧ i < PROC_MAX_PID) →
    pidDistance x i < n → (allocPidLoop pids n x).1 ≠ 0 → i ∈ pids := by
  intro n
  induction n with
  | zero =>
    intro x i _ _ hd _
    unfold pidDistance PROC_MIN_PID PROC_MAX_PID at hd
    omega
  | succ n ih =>
    intro x i hx hi hd hfail
    rw [allocPidLoop_succ] at hfail
    split at hfail
    · rename_i hmem
      by_cases hix : i = x
      · rw [hix]
        exact hmem
      · have hnear := pidDistance_nextPid hx hi hix
        have hnext := nextPid_bounds (x := x) ⟨hx.1, Int.le_of_lt hx.2⟩
        exact ih hnext hi (by omega) hfail
    · exact absurd rfl hfail

/-- What the loop answers: a pid that is not in use, or the error. -/
theorem allocPidLoop_spec (pids : List Int) : ∀ (n : Nat) {x : Int}, PidInv x →
    (allocPidLoop pids n x).1 = -EAGAIN ∨
      (allocPidLoop pids n x).1 = 0 ∧ PidInv (allocPidLoop pids n x).2.1 ∧
        (allocPidLoop pids n x).2.1 ∉ pids := by
  intro n
  induction n with
  | zero => exact fun _ => .inl rfl
  | succ n ih =>
    intro x hx
    have hnext := nextPid_bounds hx
    rw [allocPidLoop_succ]
    split
    · exact ih ⟨hnext.1, Int.le_of_lt hnext.2⟩
    · rename_i hfree
      exact .inr ⟨rfl, hx, hfree⟩

/-- The value that a call leaves in `last_pid`, when it starts below `PROC_MAX_PID`. -/
theorem allocPidLoop_lastPid (pids : List Int) : ∀ (n : Nat) {x : Int},
    (PROC_MIN_PID ≤ x ∧ x < PROC_MAX_PID) → PidInv (allocPidLoop pids n x).2.2 := by
  intro n
  induction n with
  | zero =>
    intro x hx
    show PROC_MIN_PID ≤ x + 1 ∧ x + 1 ≤ PROC_MAX_PID
    omega
  | succ n ih =>
    intro x hx
    have hnext := nextPid_bounds (x := x) ⟨hx.1, Int.le_of_lt hx.2⟩
    rw [allocPidLoop_succ]
    split
    · exact ih hnext
    · exact ⟨hnext.1, Int.le_of_lt hnext.2⟩

/-- The tries of one call. -/
theorem pidTries : (PROC_MAX_PID - PROC_MIN_PID + 1).toNat = 4094 + 1 := by decide

/-- A call keeps `last_pid` in its range. -/
theorem PidInv.call {k : Kernel} (h : PidInv k.lastPid) (p : Nat) :
    PidInv (processAllocPid p k).2.lastPid := by
  unfold processAllocPid
  dsimp only
  have hnext := nextPid_bounds h
  rw [pidTries, allocPidLoop_succ]
  split
  · exact allocPidLoop_lastPid _ _ hnext
  · exact ⟨hnext.1, Int.le_of_lt hnext.2⟩

/-- The pids in use. -/
def pidsOf (k : Kernel) : List Int := k.processList.map fun q => (k.proc q).pid

/-- **A call gives up** only when every pid below `PROC_MAX_PID` is in use: the first try may be
lost on `PROC_MAX_PID` itself, and the others go once around. -/
theorem PidInv.complete {k : Kernel} (h : PidInv k.lastPid) {p : Nat}
    (hfail : (processAllocPid p k).1 ≠ 0) {i : Int} (hi : PROC_MIN_PID ≤ i ∧ i < PROC_MAX_PID) :
    i ∈ pidsOf k := by
  have hfail' : (allocPidLoop (pidsOf k) (4094 + 1) k.lastPid).1 ≠ 0 := by
    rw [← pidTries]
    exact hfail
  by_cases hlt : k.lastPid < PROC_MAX_PID
  · refine allocPidLoop_covers _ _ ⟨h.1, hlt⟩ hi ?_ hfail'
    unfold pidDistance PROC_MIN_PID PROC_MAX_PID
    omega
  · rw [allocPidLoop_succ] at hfail'
    split at hfail'
    · refine allocPidLoop_covers _ _ (nextPid_bounds h) hi ?_ hfail'
      unfold pidDistance PROC_MIN_PID PROC_MAX_PID
      omega
    · exact absurd rfl hfail'

/-- One call of `process_alloc_pid` for the process `p`, and then anything: processes come and go,
and only `last_pid` stays as the call left it. -/
def pidStep (k : Kernel) (p : Nat) (k' : Kernel) : Prop :=
  k'.lastPid = (processAllocPid p k).2.lastPid

/-- What a call for the process `p` owes. -/
def PidAllocated (k : Kernel) (p : Nat) : Prop :=
  let r := processAllocPid p k
  let pid := (r.2.proc p).pid
  (r.1 = 0 ∧ PROC_MIN_PID ≤ pid ∧ pid ≤ PROC_MAX_PID ∧
      ∀ q ∈ k.processList, (k.proc q).pid ≠ pid) ∨
    (r.1 = -EAGAIN ∧ ∀ i, PROC_MIN_PID ≤ i → i ≤ PROC_MAX_PID - 1 →
      ∃ q ∈ k.processList, (k.proc q).pid = i)

/-- **Pids are unique and in range, and none is missed**, whatever the calls before answered. -/
theorem pids_unique_and_complete (k₀ k : Kernel) (calls : List Nat)
    (hstart : k₀.lastPid = PROC_MIN_PID) (h : Sys.Run pidStep k₀ calls k) (p : Nat) :
    PidAllocated k p := by
  have hinit : PidInv k₀.lastPid := by
    rw [hstart]
    exact ⟨by decide, by decide⟩
  have hs : PidInv k.lastPid := by
    refine h.invariant (fun k => PidInv k.lastPid) (fun k p k' hk hstep => ?_) hinit
    rw [hstep]
    exact hk.call p
  have hstored : ((processAllocPid p k).2.proc p).pid = (allocPidLoop (pidsOf k)
      (PROC_MAX_PID - PROC_MIN_PID + 1).toNat k.lastPid).2.1 := by
    unfold processAllocPid Kernel.modify
    dsimp only
    rw [Function.update_self]
    rfl
  unfold PidAllocated
  dsimp only
  rw [hstored]
  rcases allocPidLoop_spec (pidsOf k) _ hs with hfail | ⟨hok, hbounds, hnew⟩
  · have hne : (processAllocPid p k).1 ≠ 0 := by
      intro h0
      have : -EAGAIN = 0 := hfail.symm.trans h0
      exact absurd this (by decide)
    refine .inr ⟨hfail, fun i hlo hhi => ?_⟩
    exact List.mem_map.mp (hs.complete hne ⟨hlo, by omega⟩)
  · exact .inl ⟨hok, hbounds.1, hbounds.2, fun q hq he => hnew (List.mem_map.mpr ⟨q, hq, he⟩)⟩

/-- One process with the pid 1, before any call. -/
def Kernel.onePid : Kernel where
  machine := ⟨fun _ => 0, fun _ => 0, fun _ _ => 0⟩
  kmallocs _ := none
  current := none
  processList := [7]
  proc _ := { Process.zero with pid := 1 }
  lastPid := PROC_MIN_PID

/-- The second call after boot. -/
theorem second_pid_is_allocated : PidAllocated (processAllocPid 8 .onePid).2 9 :=
  pids_unique_and_complete .onePid _ [8] rfl (.single rfl) 9

end Moonlight
