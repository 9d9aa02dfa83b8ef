import Mathlib.Data.List.Nodup
import MoonlightKernel.Process.JobControl

/-!
# Whom `kill` reaches

`kill` goes through `process_list` once.  One variable collects its result: a process that may be
signalled sets it, one that may not only replaces the value that it starts with.

* `Targeted`, `Permitted` — the two conditions of the loop;
* `addSignal_soft` — `add_signal` of a soft signal to a live process, with memory at hand;
* `killOne_eq` — one round of the loop, `kills_eq` — the loop;
* `kill_exact` — the processes that are signalled and the result.
-/

set_option autoImplicit false

namespace Moonlight

/-- The process is alive, and `pid` names it or every process. -/
def Targeted (k : Kernel) (pid : Int) (p : Nat) : Prop :=
  (k.proc p).state ≠ .ZOMBIE ∧ ((k.proc p).pid = pid ∨ pid = -1)

/-- The sender is root, or has the uid of the process. -/
def Permitted (k : Kernel) (proc p : Nat) : Prop :=
  (k.proc proc).uid = 0 ∨ (k.proc proc).uid = (k.proc p).uid

instance (k : Kernel) (pid : Int) (p : Nat) : Decidable (Targeted k pid p) :=
  inferInstanceAs (Decidable (_ ∧ _))

instance (k : Kernel) (proc p : Nat) : Decidable (Permitted k proc p) :=
  inferInstanceAs (Decidable (_ ∨ _))

/-- The processes that `kill` ought to signal. -/
def killTargets (k : Kernel) (proc : Nat) (pid : Int) : List Nat :=
  k.processList.filter fun p => Targeted k pid p ∧ Permitted k proc p

/-! ## `add_signal` -/

/-- No `kmalloc` fails. -/
def Kernel.HasMemory (k : Kernel) : Prop := ∀ i, k.kmallocs i ≠ none

/-- `add_signal(sig, p, SIG_SOFT)`, as a store. -/
def addSoft (sig : Nat) (k : Kernel) (p : Nat) : Kernel := (addSignal sig (some p) SIG_SOFT k).2

/-- What the loop of `kill` looks at. -/
def Process.address (pr : Process) : ProcState × Int × Nat := (pr.state, pr.pid, pr.uid)

section add

variable {k k' : Kernel} {sig p q : Nat} {proc : Nat} {pid : Int}

/-- **`add_signal` of a soft signal**: it is blocked, or it is queued. -/
theorem addSignal_soft (hsig : 1 ≤ sig ∧ sig ≤ 31) (hmem : k.HasMemory)
    (hlive : (k.proc p).state ≠ .ZOMBIE) :
    addSignal sig (some p) SIG_SOFT k = (0,
      if SIG_UNAVAILABLE (k.proc p).signal.sigAvalaible sig then k
      else k.kmalloc.2.modify p (Process.queueSignal sig SIG_SOFT)) := by
  have h0 : (sig : Int) ≠ 0 := by omega
  have hrange : ¬ ((sig : Int) < 0 ∨ (sig : Int) > 34) := by omega
  have htype : ¬ ((SIG_SOFT &&& SIG_HARD ≠ 0 ∧ SIG_SOFT &&& SIG_SOFT ≠ 0) ∨
      (SIG_SOFT &&& SIG_HARD = 0 ∧ SIG_SOFT &&& SIG_SOFT = 0)) := by decide
  have hsoft : SIG_SOFT &&& SIG_HARD = 0 := by decide
  obtain ⟨a, ha⟩ := Option.ne_none_iff_exists'.mp (hmem 0)
  rw [addSignal_tested h0 htype hlive hrange, Int.toNat_natCast]
  by_cases hblocked : SIG_UNAVAILABLE (k.proc p).signal.sigAvalaible sig = true
  · rw [if_pos ⟨hsoft, hblocked⟩, if_pos hblocked]
  · rw [if_neg fun h => hblocked h.2, if_neg hblocked]
    have hk : k.kmalloc = (some a, k.kmalloc.2) := by rw [← ha]; rfl
    rw [hk]

theorem addSoft_same (sig p : Nat) (k : Kernel) : Same Process.address k (addSoft sig k p) :=
  addSignal_same (fun _ _ _ => rfl) _ _ _ k

theorem Kernel.HasMemory.addSignal (hmem : k.HasMemory) (sig : Int) (proc : Option Nat)
    (type : Nat) : (Moonlight.addSignal sig proc type k).2.HasMemory := by
  rcases addSignal_spec sig proc type k with ⟨_, _, -, rfl, h⟩ | h | h
  · rw [h]
    exact fun i => hmem (i + 1)
  · rw [h]
    exact hmem
  · rw [h]
    exact fun i => hmem (i + 1)

/-- It changes no other process. -/
theorem addSignal_proc_of_ne (hq : q ≠ p) (sig : Int) (type : Nat) (k : Kernel) :
    (addSignal sig (some p) type k).2.proc q = k.proc q := by
  rcases addSignal_spec sig (some p) type k with ⟨_, _, hp, rfl, h⟩ | h | h
  · cases hp
    rw [h, Kernel.modify_proc_of_ne _ hq, Kernel.kmalloc_proc]
  · rw [h]
  · rw [h]
    rfl

/-- What becomes of the process depends on that process alone. -/
theorem addSoft_proc_congr (hsig : 1 ≤ sig ∧ sig ≤ 31) (hmem : k.HasMemory) (hmem' : k'.HasMemory)
    (hlive : (k.proc p).state ≠ .ZOMBIE) (h : k'.proc p = k.proc p) :
    (addSoft sig k' p).proc p = (addSoft sig k p).proc p := by
  have hlive' : (k'.proc p).state ≠ .ZOMBIE := by rwa [h]
  unfold addSoft
  rw [addSignal_soft hsig hmem hlive, addSignal_soft hsig hmem' hlive', h]
  split
  · exact h
  · rw [Kernel.modify_proc_self, Kernel.modify_proc_self, Kernel.kmalloc_proc, Kernel.kmalloc_proc, h]

theorem Targeted.congr (h : Same Process.address k k') : Targeted k' pid p ↔ Targeted k pid p := by
  have hstate : (k'.proc p).state = (k.proc p).state := h.field Prod.fst p
  have hpid : (k'.proc p).pid = (k.proc p).pid := h.field (fun x => x.2.1) p
  rw [Targeted, Targeted, hstate, hpid]

theorem Permitted.congr (h : Same Process.address k k') : Permitted k' proc p ↔ Permitted k proc p := by
  have huid : ∀ q, (k'.proc q).uid = (k.proc q).uid := h.field (fun x => x.2.2)
  rw [Permitted, Permitted, huid, huid]

end add

/-! ## The loop -/

section loop

variable {k : Kernel} {proc sig : Nat} {pid : Int} {ps : List Nat} {r : Int × Kernel}

/-- **One round of `kill`.** -/
theorem killOne_eq (hsig : 1 ≤ sig ∧ sig ≤ 31) (hmem : r.2.HasMemory) (hsame : Same Process.address k r.2)
    (p : Nat) : killOne proc pid sig r p =
      if Targeted k pid p then
        if Permitted k proc p then (0, addSoft sig r.2 p)
        else (if r.1 = -ESRCH then -EPERM else r.1, r.2)
      else r := by
  have hdef : killOne proc pid sig r p = if Targeted r.2 pid p then
      if Permitted r.2 proc p then addSignal sig (some p) SIG_SOFT r.2
      else if r.1 = -ESRCH then (-EPERM, r.2) else r
    else r := rfl
  rw [hdef]
  by_cases htarget : Targeted k pid p
  · have htarget' := (Targeted.congr hsame).mpr htarget
    rw [if_pos htarget', if_pos htarget]
    by_cases hperm : Permitted k proc p
    · rw [if_pos ((Permitted.congr hsame).mpr hperm), if_pos hperm]
      refine Prod.ext ?_ rfl
      rw [addSignal_soft hsig hmem htarget'.1]
    · rw [if_neg fun h => hperm ((Permitted.congr hsame).mp h), if_neg hperm]
      split <;> rfl
  · rw [if_neg fun h => htarget ((Targeted.congr hsame).mp h), if_neg htarget]

/-- The loop from a process on: the result so far counts only when no process may be signalled. -/
theorem kills_eq (hsig : 1 ≤ sig ∧ sig ≤ 31) (hmem : r.2.HasMemory)
    (hsame : Same Process.address k r.2) :
    ps.foldl (killOne proc pid sig) r =
      (if ∃ p ∈ ps, Targeted k pid p ∧ Permitted k proc p then 0
        else if (∃ p ∈ ps, Targeted k pid p) ∧ r.1 = -ESRCH then -EPERM else r.1,
      (ps.filter fun p => Targeted k pid p ∧ Permitted k proc p).foldl (addSoft sig) r.2) := by
  induction ps generalizing r with
  | nil => simp
  | cons p ps ih =>
    have h0 : ¬ ((0 : Int) = -ESRCH) := by decide
    have hperm1 : ¬ (-EPERM = -ESRCH) := by decide
    rw [List.foldl_cons, killOne_eq hsig hmem hsame]
    by_cases htarget : Targeted k pid p
    · rw [if_pos htarget]
      by_cases hperm : Permitted k proc p
      · rw [if_pos hperm, ih (r := (0, addSoft sig r.2 p)) (hmem.addSignal sig (some p) SIG_SOFT)
            (hsame.trans (addSoft_same sig p r.2)), if_pos (c := ∃ q ∈ p :: ps, _) ⟨p, List.mem_cons_self, htarget, hperm⟩,
          List.filter_cons_of_pos (by simpa using ⟨htarget, hperm⟩)]
        refine Prod.ext ?_ rfl
        dsimp only
        by_cases hlater : ∃ q ∈ ps, Targeted k pid q ∧ Permitted k proc q
        · rw [if_pos hlater]
        · rw [if_neg hlater, if_neg fun h => h0 h.2]
      · rw [if_neg hperm, ih (r := (if r.1 = -ESRCH then -EPERM else r.1, r.2)) hmem hsame,
          List.filter_cons_of_neg (by simp [hperm])]
        refine Prod.ext ?_ rfl
        simp only [List.exists_mem_cons_iff, htarget, hperm, and_false, false_or, true_or, true_and]
        refine if_congr Iff.rfl rfl ?_
        by_cases hr : r.1 = -ESRCH
        · rw [if_pos hr, if_neg fun h => hperm1 h.2]
        · rw [if_neg hr, if_neg fun h => hr h.2]
    · rw [if_neg htarget, ih hmem hsame, List.filter_cons_of_neg (by simp [htarget])]
      simp only [List.exists_mem_cons_iff, htarget, false_and, false_or]

/-- Signalling each of some processes once. -/
theorem addSofts_proc (hsig : 1 ≤ sig ∧ sig ≤ 31) (hnodup : ps.Nodup) (hmem : k.HasMemory)
    (hlive : ∀ p ∈ ps, (k.proc p).state ≠ .ZOMBIE) (q : Nat) :
    (ps.foldl (addSoft sig) k).proc q =
      if q ∈ ps then (addSoft sig k q).proc q else k.proc q := by
  induction ps generalizing k with
  | nil => rfl
  | cons p ps ih =>
    obtain ⟨hp, hnodup⟩ := List.nodup_cons.mp hnodup
    have hsame := addSoft_same sig p k
    have hmem' : (addSoft sig k p).HasMemory := hmem.addSignal sig (some p) SIG_SOFT
    rw [List.foldl_cons, ih hnodup hmem' fun c hc => by
      rw [show ((addSoft sig k p).proc c).state = (k.proc c).state from hsame.field Prod.fst c]
      exact hlive c (List.mem_cons_of_mem _ hc)]
    by_cases hq : q = p
    · subst hq
      rw [if_neg hp, if_pos List.mem_cons_self]
    · simp only [List.mem_cons, hq, false_or]
      split
      · rename_i hmemq
        exact addSoft_proc_congr hsig hmem hmem'
          (hlive q (List.mem_cons_of_mem _ hmemq)) (addSignal_proc_of_ne hq sig SIG_SOFT k)
      · exact addSignal_proc_of_ne hq sig SIG_SOFT k

end loop

/-! ## `kill` -/

/-- What `kill` ought to return. -/
def killResult (k : Kernel) (proc : Nat) (pid : Int) : Int :=
  if ∃ p ∈ k.processList, Targeted k pid p ∧ Permitted k proc p then 0
  else if ∃ p ∈ k.processList, Targeted k pid p then -EPERM else -ESRCH

/-- **`kill` reaches exactly the permitted targets**, each once, and its result tells whether there
are any. -/
theorem kill_exact (k : Kernel) (proc : Nat) (pid : Int) (sig : Nat) (hsig : 1 ≤ sig ∧ sig ≤ 31)
    (hpids : (k.processList.map fun p => (k.proc p).pid).Nodup) (hmem : k.HasMemory) :
    (pid = 0 ∨ pid < -1 → kill proc pid sig k = (-EINVAL, k)) ∧
      (¬ (pid = 0 ∨ pid < -1) →
        kill proc pid sig k =
          (killResult k proc pid, (killTargets k proc pid).foldl (addSoft sig) k) ∧
        (killTargets k proc pid).Nodup ∧
        ∀ q, (kill proc pid sig k).2.proc q =
          if q ∈ killTargets k proc pid then (addSoft sig k q).proc q else k.proc q) := by
  refine ⟨fun h => if_pos h, fun h => ?_⟩
  have hnodup : (killTargets k proc pid).Nodup := (List.Nodup.of_map _ hpids).filter _
  have hkill : kill proc pid sig k =
      (killResult k proc pid, (killTargets k proc pid).foldl (addSoft sig) k) := by
    unfold kill
    rw [if_neg h, kills_eq hsig hmem (Same.refl k)]
    refine Prod.ext ?_ rfl
    simp only [and_true]
    rfl
  refine ⟨hkill, hnodup, fun q => ?_⟩
  rw [hkill]
  refine addSofts_proc hsig hnodup hmem (fun p hp => ?_) q
  have hp := (List.mem_filter.mp hp).2
  exact (of_decide_eq_true hp).1.1

/-- Four processes: the two with the uid 7 are alive, the third belongs to root, the last is dead. -/
def Kernel.crowd : Kernel where
  machine := ⟨fun _ => 0, fun _ => 0, fun _ _ => 0⟩
  kmallocs := fun i => some (500 + i)
  current := none
  processList := [3, 1, 4, 2]
  proc := fun p => { Process.zero with
    pid := p
    uid := if p = 3 then 0 else 7
    state := if p = 4 then .ZOMBIE else .RUN }
  lastPid := 5

/-- The first of them signals all: itself and the second are reached, although `root` comes first. -/
theorem crowd_signalled : kill 1 (-1) 15 .crowd = (0, addSoft 15 (addSoft 15 .crowd 1) 2) ∧
    (kill 1 (-1) 15 .crowd).2.proc 3 = Kernel.crowd.proc 3 := by
  have hpids : (Kernel.crowd.processList.map fun p => (Kernel.crowd.proc p).pid).Nodup := by decide
  obtain ⟨heq, -, hproc⟩ := (kill_exact .crowd 1 (-1) 15 (by decide) hpids
    fun i => Option.some_ne_none (500 + i)).2 (by decide)
  exact ⟨heq, hproc 3⟩

end Moonlight
