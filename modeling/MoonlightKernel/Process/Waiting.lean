import MoonlightKernel.Lib.Potential
import MoonlightKernel.Process.Processor

/-!
# How long a process waits

The scheduler goes round the list, and a process that is ready comes closer with each selection of
another one.  When the process that was selected dies, though, `current` is null, and the next
selection starts at the head of the list.  There are no more deaths than living processes; a new
process brings one more death, and one more process to wait for.

* `Waits` — a process that is ready, while the processor is with another one;
* `Kernel.patience` — how many selections it may have to wait for;
* `SwitchedTo.patience_lt`, `Kernel.patience_lt_of_death` — a selection and a death lower it,
  `Makes.patience_le` — a new process raises it;
* `switchTask_patience`, `taskStep_patience` — the switch and the steps, `ready_runs_soon` — the runs.
-/

set_option autoImplicit false

namespace Moonlight

open Sys

/-- The process needs nothing but the processor, and does not have it. -/
structure Waits (p : Nat) (k : Kernel) : Prop where
  mem : p ∈ k.processList
  state : (k.proc p).state = .RUN
  other : k.current ≠ some p

/-- The processes that can still die. -/
def Kernel.living (k : Kernel) : List Nat :=
  k.processList.filter fun q => decide ((k.proc q).state ≠ .ZOMBIE)

/-- How many selections `p` may have to wait for, when `n` processes are made meanwhile: a turn around
the list for each death, and the processes before it in this one. -/
def Kernel.patience (k : Kernel) (n p : Nat) : Nat :=
  (k.living.length + n) * (k.processList.length + n) + Ring.place k.processList k.current p + n

/-- The scheduler selects. -/
def TaskOp.switches : TaskOp → Bool
  | .clock .. | .exit .. => true
  | _ => false

/-- A process may be made. -/
def TaskOp.mayCreate : TaskOp → Bool
  | .iniKern .. | .dup .. | .fork .. => true
  | _ => false

section waiting

variable {L : Layout} {e : Scene} {fuel p q n : Nat} {data : Option Interupt} {s t : Tasks}
  {k k' : Kernel} {but r : Option Nat}

/-! ## What lowers and what raises it -/

theorem mem_living : q ∈ k.living ↔ HasMemory k q := by
  unfold Kernel.living
  rw [List.mem_filter, decide_eq_true_iff]
  exact Iff.rfl

/-- The list has no repetitions, and the running process is in it. -/
structure Kernel.Orderly (k : Kernel) : Prop where
  nodup : k.processList.Nodup
  current : ∀ p, k.current = some p → p ∈ k.processList

/-- Processes have left the list, and none has come to life. -/
structure Thins (k k' : Kernel) : Prop where
  list : k'.processList.Sublist k.processList
  live : ∀ q, HasMemory k' q → HasMemory k q

theorem Beside.thins (h : Beside but k k') : Thins k k' := ⟨h.list, h.live⟩

theorem Thins.living (h : Thins k k') : k'.living.Sublist k.living := by
  have hself : k'.living.filter (fun q => decide ((k.proc q).state ≠ .ZOMBIE)) = k'.living :=
    List.filter_eq_self.mpr fun q hq => decide_eq_true (h.live q (mem_living.mp hq)).2
  have hpart : k'.living.Sublist k.processList := List.filter_sublist.trans h.list
  rw [← hself]
  exact hpart.filter _

/-- One is gone. -/
theorem Thins.living_lt (h : Thins k k') (hq : HasMemory k q) (hgone : ¬ HasMemory k' q) :
    k'.living.length < k.living.length := by
  refine lt_of_le_of_ne h.living.length_le fun he => hgone ?_
  rw [← mem_living, h.living.eq_of_length he, mem_living]
  exact hq

/-- The others leave the list, and the processor stays where it is. -/
theorem Thins.patience_le (h : Thins k k') (hk : k.processList.Nodup) (hcur : k'.current = k.current)
    (hin : ∀ c, k'.current = some c → c ∈ k'.processList) (hp : p ∈ k'.processList) :
    k'.patience n p ≤ k.patience n p := by
  have hplace := Ring.place_le h.list hk hin hp
  have hprod := Nat.mul_le_mul (Nat.add_le_add_right h.living.length_le n)
    (Nat.add_le_add_right h.list.length_le n)
  unfold Kernel.patience
  rw [hcur] at hplace ⊢
  exact Nat.add_le_add_right (Nat.add_le_add hprod hplace) n

/-- **A death** sends the scheduler back to the head of the list, but there is one process less to
die. -/
theorem Thins.patience_lt (h : Thins k k') (hk : k.processList.Nodup) (hcur : k'.current = none)
    (hq : HasMemory k q) (hgone : ¬ HasMemory k' q) (hp : p ∈ k'.processList) :
    k'.patience n p < k.patience n p := by
  have hplace : Ring.place k'.processList none p < k'.processList.length :=
    Ring.place_lt (h.list.nodup hk) (fun c hc => by cases hc) hp
  have hlive := h.living_lt hq hgone
  have hprod : (k'.living.length + n + 1) * (k'.processList.length + n) ≤
      (k.living.length + n) * (k.processList.length + n) :=
    Nat.mul_le_mul (by omega) (Nat.add_le_add_right h.list.length_le n)
  rw [Nat.succ_mul] at hprod
  unfold Kernel.patience
  rw [hcur]
  omega

/-- **A selection** takes the first process of the turn that may run. -/
theorem SwitchedTo.selects {new : Option Nat} (h : SwitchedTo s new k) (hs : s.kernel.Orderly)
    (hp : p ∈ s.kernel.processList) (hrun : Runnable s.kernel p) :
    ∃ q xs ys, new = some q ∧ s.kernel.turn = xs ++ q :: ys ∧ ∀ x ∈ xs, ¬ Runnable s.kernel x := by
  obtain ⟨passes, sel, k₀, hsel, -, hcur⟩ := h.selected
  rw [switchProcess_eq, Option.map_eq_some_iff] at hsel
  obtain ⟨sel', hloop, he⟩ := hsel
  cases he
  have hcan : s.kernel.CanSelect := ⟨hs.nodup, hs.current, fun _ => .inr ⟨p, hp, hrun⟩⟩
  have hturn : p ∈ s.kernel.turn := hcan.turn_perm.mem_iff.mpr hp
  have hfirst := selectLoop_eq hcan hloop
  unfold Kernel.selection at hfirst
  cases hfind : s.kernel.turn.find? fun p => decide (Runnable s.kernel p) with
  | none =>
    have hno := List.find?_eq_none.mp hfind p hturn
    exact absurd (decide_eq_true hrun) hno
  | some q =>
    rw [hfind] at hfirst
    subst hfirst
    obtain ⟨-, xs, ys, hsplit, hxs⟩ := List.find?_eq_some_iff_append.mp hfind
    refine ⟨q, xs, ys, hcur.symm, hsplit, fun x hx hrun => ?_⟩
    have hx := hxs x hx
    rw [decide_eq_true hrun] at hx
    cases hx

/-- When it takes another one, `p` comes closer. -/
theorem SwitchedTo.patience_lt (h : SwitchedTo s (some q) k) (hs : s.kernel.Orderly)
    (hp : p ∈ s.kernel.processList) (hrun : Runnable s.kernel p) (hne : p ≠ q) :
    k.patience n p < s.kernel.patience n p := by
  obtain ⟨y, xs, ys, hy, hturn, hxs⟩ := h.selects hs hp hrun
  cases hy
  have hmem : p ∈ s.kernel.turn := (Ring.turn_perm hs.nodup hs.current).mem_iff.mpr hp
  rw [hturn] at hmem
  have hys : p ∈ ys := by
    rcases List.mem_append.mp hmem with hx | hrest
    · exact absurd hrun (hxs p hx)
    · exact (List.mem_cons.mp hrest).resolve_left hne
  have hplace := Ring.place_lt_of_turn hs.nodup hs.current hturn hys
  have hliving : k.living = s.kernel.living := by
    unfold Kernel.living
    rw [h.list, h.proc]
  unfold Kernel.patience
  rw [hliving, h.list, h.current]
  omega

/-- **A new process.** -/
theorem Makes.nodup (h : Makes r k k') (hk : k.processList.Nodup) : k'.processList.Nodup := by
  obtain ⟨a, ha, hone, hborn, -⟩ := h
  rw [List.nodup_iff_count_le_one]
  intro b
  by_cases hba : b = a
  · rw [hba]
    exact hone
  · have hsame : (k'.processList.filter (· ≠ a)).count b = (k.processList.filter (· ≠ a)).count b := by
      rw [hborn.list]
    have hkept : ∀ l : List Nat, (l.filter (· ≠ a)).count b = l.count b := fun l =>
      List.count_filter (p := fun x => decide (x ≠ a)) (decide_eq_true hba)
    rw [hkept, hkept] at hsame
    rw [hsame]
    exact List.nodup_iff_count_le_one.mp hk b

theorem Makes.patience_le (h : Makes r k k') (hk : k.Orderly) (hp : p ∈ k.processList) :
    k'.patience n p ≤ k.patience (n + 1) p := by
  have hnodup := h.nodup hk.nodup
  obtain ⟨a, ha, -, hborn, -⟩ := h
  have hsub : k.processList.Sublist k'.processList := by
    have hself : k.processList.filter (· ≠ a) = k.processList :=
      List.filter_eq_self.mpr fun q hq => decide_eq_true fun he => ha (he ▸ hq)
    rw [← hself, ← hborn.list]
    exact List.filter_sublist
  have hlen : k'.processList.length ≤ (a :: k.processList).length := by
    refine (List.subperm_of_subset hnodup fun q hq => ?_).length_le
    by_cases hqa : q = a
    · exact hqa ▸ List.mem_cons_self
    · exact List.mem_cons_of_mem a ((hborn.mem_list hqa).mp hq)
  have hliving : k'.living.length ≤ (a :: k.living).length := by
    refine (List.subperm_of_subset (hnodup.filter _) fun q hq => ?_).length_le
    by_cases hqa : q = a
    · exact hqa ▸ List.mem_cons_self
    · exact List.mem_cons_of_mem a (mem_living.mpr ((hborn.hasMemory hqa).mp (mem_living.mp hq)))
  rw [List.length_cons] at hlen hliving
  have hplace := Ring.place_add_length_le hsub hnodup hk.current hp
  have hprod : (k'.living.length + n) * (k'.processList.length + n) ≤
      (k.living.length + (n + 1)) * (k.processList.length + (n + 1)) :=
    Nat.mul_le_mul (by omega) (by omega)
  unfold Kernel.patience
  rw [hborn.current]
  omega

/-! ## The switch -/

theorem notifyFather_others (hne : p ≠ q) (k : Kernel) :
    ((notifyFather q k).proc p).state = (k.proc p).state := by
  unfold notifyFather
  cases (k.proc q).father with
  | none => rw [freeProcess_state, Kernel.modify_proc_of_ne _ hne]
  | some f =>
    have hadd : ((addSignal SIGCHLD (some f) SIG_SOFT k).2.proc p).state = (k.proc p).state :=
      (addSignal_same (v := Process.state) (fun _ _ _ => rfl) SIGCHLD (some f) SIG_SOFT k).proc p
    dsimp only
    split
    · rw [freeProcess_state, Kernel.modify_proc_of_ne _ hne, hadd]
    · rw [Kernel.modify_proc_of_ne _ hne, hadd]

theorem processDie_others (hne : p ≠ q) (k : Kernel) :
    ((processDie L q k).proc p).state = (k.proc p).state := by
  have hnotify := notifyFather_others hne ((processFreeAllMemory L q k).modify q Process.clearQueue)
  have hfree := (processFreeAllMemory_same (v := Process.state) (fun _ => rfl) L q k).proc p
  rw [Kernel.modify_proc_of_ne _ hne, hfree] at hnotify
  unfold processDie processDieSafe
  dsimp only
  split
  · exact hnotify
  · exact hnotify

theorem runHandler_others (a : Shandler) (hne : p ≠ q) (signum : Nat) (k : Kernel) :
    ((runHandler L a q signum k).proc p).state = (k.proc p).state := by
  have hset : ∀ v, ((k.modify q (Process.setEndValue v)).proc p).state = (k.proc p).state := fun v => by
    rw [Kernel.modify_proc_of_ne _ hne]
  cases a with
  | sigTerm => exact (processDie_others hne _).trans (hset _)
  | sigIgn => rfl
  | sigCore => exact (processDie_others hne _).trans (hset _)
  | sigStop =>
    unfold runHandler
    rw [Kernel.modify_proc_of_ne _ hne]
    exact hset _
  | sigCont =>
    unfold runHandler
    rw [Kernel.modify_proc_of_ne _ hne]
    exact hset _
  | childEnded =>
    unfold runHandler childEnded
    dsimp only
    split
    · unfold endOfChild
      dsimp only
      rw [Kernel.modify_proc_of_ne _ hne, freeProcess_state, Kernel.modify_proc_of_ne _ hne]
    · rfl
  | user => rfl

/-- The delivery of a signal changes the state of no other process that lives on. -/
theorem sendSignal_others (h : sendSignal L q k = some k') (hne : p ≠ q) :
    (k'.proc p).state = (k.proc p).state := by
  unfold sendSignal at h
  split at h
  · cases h
    rfl
  split at h
  · cases h
    rw [Kernel.modify_proc_of_ne _ hne]
  split at h
  · cases h
    rfl
  obtain ⟨a, -, rfl⟩ := Option.map_eq_some_iff.mp h
  dsimp only
  split
  · exact runHandler_others a hne _ k
  · rw [Kernel.modify_proc_of_ne _ hne]
    exact runHandler_others a hne _ k

theorem SwitchedTo.orderly {new : Option Nat} (h : SwitchedTo s new k) (hs : s.kernel.Orderly) :
    k.Orderly :=
  ⟨h.list ▸ hs.nodup, fun c hc => h.mem c (h.current.symm.trans hc)⟩

theorem sendSignal_orderly (hk : k.Orderly) (hcur : k.current = some q)
    (h : sendSignal L q k = some k') : k'.Orderly := by
  refine ⟨(sendSignal_beside h).list.nodup hk.nodup, fun c hc => ?_⟩
  rcases sendSignal_self h hcur (hk.current q hcur) with ⟨hnone, -⟩ | ⟨hq, hmem⟩
  · rw [hnone] at hc
    cases hc
  · rw [hq] at hc
    cases hc
    exact hmem

/-- Processes leave the list in a switch. -/
theorem switchTask_list (h : switchTask L e fuel data s = some (.runs t)) :
    t.kernel.processList.Sublist s.kernel.processList := by
  induction fuel generalizing data s with
  | zero => cases h
  | succ fuel ih =>
    rcases switchTask_cases h with hpanic | ⟨regs, k, -, hidle | ⟨q, k', hin, hsend, hend⟩⟩
    · cases hpanic
    · obtain ⟨hin, ht⟩ := hidle
      cases ht
      exact hin.list ▸ .refl _
    have hdelivered : k'.processList.Sublist s.kernel.processList :=
      hin.list ▸ (sendSignal_beside hsend).list
    rcases hend with ⟨-, hnext⟩ | ⟨-, -, hnext⟩ | ⟨-, -, ht⟩
    · exact (ih hnext).trans hdelivered
    · exact (ih hnext).trans hdelivered
    · cases ht
      exact hdelivered

/-- **A switch that leaves the process waiting** has found it ready, and has brought it closer. -/
theorem switchTask_patience (hs : s.kernel.Orderly)
    (h : switchTask L e fuel data s = some (.runs t)) (ht : Waits p t.kernel) :
    t.kernel.patience n p < s.kernel.patience n p ∧ p ∈ s.kernel.processList ∧
      (s.kernel.proc p).state = .RUN := by
  induction fuel generalizing data s with
  | zero => cases h
  | succ fuel ih =>
    rcases switchTask_cases h with hpanic | ⟨regs, k, -, hidle | ⟨q, k', hin, hsend, hend⟩⟩
    · cases hpanic
    · -- the idle task is not selected as long as a process is ready
      obtain ⟨hin, he⟩ := hidle
      cases he
      have hmem : p ∈ s.kernel.processList := hin.list ▸ ht.mem
      have hrun : (s.kernel.proc p).state = .RUN := hin.proc ▸ ht.state
      obtain ⟨q, -, -, hnone, -⟩ := hin.selects hs hmem (.inl hrun)
      cases hnone
    have hk : k.Orderly := hin.orderly hs
    have hk' : k'.Orderly := sendSignal_orderly hk hin.current hsend
    have hself := sendSignal_self hsend hin.current (hin.mem q rfl)
    -- it is another process that has been selected
    have hafter : p ≠ q ∧ p ∈ k'.processList ∧ (k'.proc p).state = .RUN ∧
        t.kernel.patience n p ≤ k'.patience n p := by
      rcases hend with ⟨hdead, hnext⟩ | ⟨-, hstop, hnext⟩ | ⟨hcur, -, he⟩
      · obtain ⟨hlt, hmem, hrun⟩ := ih hk' hnext
        refine ⟨?_, hmem, hrun, hlt.le⟩
        rintro rfl
        rcases hself with ⟨-, -, hgone⟩ | ⟨hcur, -⟩
        · refine hgone ⟨hmem, ?_⟩
          rw [hrun]
          exact ProcState.noConfusion
        · rw [hdead] at hcur
          cases hcur
      · obtain ⟨hlt, hmem, hrun⟩ := ih hk' hnext
        refine ⟨?_, hmem, hrun, hlt.le⟩
        rintro rfl
        exact hstop hrun
      · cases he
        refine ⟨?_, ht.mem, ht.state, le_rfl⟩
        rintro rfl
        exact ht.other (hself.resolve_left fun h => hcur h.1).1
    obtain ⟨hne, hmem', hrun', hle⟩ := hafter
    have hside := (sendSignal_beside hsend).thins
    have hmem : p ∈ s.kernel.processList := hin.list ▸ hside.list.subset hmem'
    have hrun : (s.kernel.proc p).state = .RUN := by
      rw [← hin.proc, ← sendSignal_others hsend hne]
      exact hrun'
    have hselected : k.patience n p < s.kernel.patience n p := hin.patience_lt hs hmem (.inl hrun) hne
    have hdelivered : k'.patience n p ≤ k.patience n p := by
      rcases hself with ⟨hcur, hq, hgone⟩ | ⟨hcur, -⟩
      · exact (hside.patience_lt hk.nodup hcur hq hgone hmem').le
      · exact hside.patience_le hk.nodup (hcur.trans hin.current.symm) hk'.current hmem'
    exact ⟨hle.trans_lt (hdelivered.trans_lt hselected), hmem, hrun⟩

/-! ## The steps -/

/-- The list has no repetitions, and the process that runs is alive. -/
structure Tasks.Sound (s : Tasks) : Prop where
  nodup : s.kernel.processList.Nodup
  alive : ∀ p, s.kernel.current = some p → HasMemory s.kernel p

theorem Tasks.Sound.orderly (hs : s.Sound) : s.kernel.Orderly :=
  ⟨hs.nodup, fun p hp => (hs.alive p hp).1⟩

/-- The process that runs dies, and the scheduler goes on. -/
theorem death_patience (hs : s.Sound) (hq : s.kernel.current = some q)
    (hside : Beside none s.kernel k) (hcur : k.current = none) (hgone : ¬ HasMemory k q)
    (h : switchTask L e fuel none { s with kernel := k } = some (.runs t)) (ht : Waits p t.kernel) :
    t.kernel.patience n p < s.kernel.patience n p := by
  have hk : k.Orderly := ⟨hside.list.nodup hs.nodup, fun c hc => by
    rw [hcur] at hc
    cases hc⟩
  obtain ⟨hlt, hmem, -⟩ := switchTask_patience (n := n) (s := { s with kernel := k }) hk h ht
  exact hlt.trans (hside.thins.patience_lt hs.nodup hcur (hs.alive q hq) hgone hmem)

theorem addSignal_thins (sig : Int) (proc : Option Nat) (type : Nat) (k : Kernel) :
    Thins k (addSignal sig proc type k).2 := by
  have hsame := addSignal_same (v := Process.state) (fun _ _ _ => rfl) sig proc type k
  refine ⟨hsame.list ▸ .refl _, fun q hq => ?_⟩
  unfold HasMemory at hq ⊢
  rw [← hsame.list, ← hsame.proc q]
  exact hq

/-- A step of the kernel that selects nothing and makes nothing. -/
def TaskOp.thins : TaskOp → Bool
  | .run .. | .waitpid .. | .kill .. | .other => true
  | _ => false

theorem taskStep_thins {op : TaskOp} (hop : op.thins = true) (h : taskStep L s op t) :
    Thins s.kernel t.kernel ∧ t.kernel.current = s.kernel.current := by
  cases op with
  | run p before after =>
    obtain ⟨-, -, rfl⟩ := h
    exact ⟨⟨.refl _, fun _ hq => hq⟩, rfl⟩
  | waitpid p pid option =>
    obtain ⟨hp, rfl⟩ := h
    have hside : Beside none s.kernel (processWaitpid p pid option s.kernel).2 :=
      processWaitpid_beside hp.2 pid option
    exact ⟨hside.thins,
      processWaitpid_current p pid option _⟩
  | kill proc pid sig =>
    obtain rfl := h
    have hside : Beside none s.kernel (Moonlight.kill proc pid sig s.kernel).2 :=
      kill_beside proc pid sig s.kernel
    exact ⟨hside.thins, (kill_live proc pid sig s.kernel).1⟩
  | other =>
    obtain ⟨hsame, hcur, -, -⟩ := h
    have hside : Beside none s.kernel t.kernel := .of_same hsame
    exact ⟨hside.thins, hcur⟩
  | _ => cases hop

/-- A call that creates. -/
theorem taskStep_makes {op : TaskOp} (hop : op.mayCreate = true) (h : taskStep L s op t) :
    ∃ r, Makes r s.kernel t.kernel := by
  cases op with
  | iniKern v n made =>
    obtain ⟨hfresh, -, rfl⟩ := h
    exact ⟨_, iniKern_makes hfresh v n⟩
  | dup swap swap2 p made =>
    obtain ⟨hp, hfresh, -, rfl⟩ := h
    exact ⟨_, processDup_makes hfresh swap swap2 hp.1⟩
  | fork swap swap2 p made =>
    obtain ⟨hp, hfresh, -, rfl⟩ := h
    exact ⟨_, fork_makes hfresh swap swap2 hp.1⟩
  | _ => cases hop

/-- The running process stays alive. -/
theorem taskStep_alive {op : TaskOp} (hs : s.Sound) (h : taskStep L s op t) :
    ∀ p, t.kernel.current = some p → HasMemory t.kernel p := by
  have hm : s.Matches fun p => s.view p := ⟨fun _ _ => rfl, hs.alive⟩
  obtain ⟨-, own, -, hmatch, -⟩ := taskStep_simulates hm h
  exact hmatch.alive

theorem taskStep_sound {op : TaskOp} (hs : s.Sound) (h : taskStep L s op t) : t.Sound := by
  refine ⟨?_, taskStep_alive hs h⟩
  cases hop : op.thins with
  | true => exact (taskStep_thins hop h).1.list.nodup hs.nodup
  | false =>
    cases hnew : op.mayCreate with
    | true =>
      obtain ⟨r, hr⟩ := taskStep_makes hnew h
      exact hr.nodup hs.nodup
    | false =>
      cases op with
      | clock e fuel esp0 above => exact (switchTask_list h).nodup hs.nodup
      | fault e fuel esp0 intNo errCode above =>
        rcases irqGeneral_cases h with ⟨-, rfl⟩ | ⟨i, q, -, -, -, hswitch⟩ |
          ⟨q, k, -, hsame, -, hswitch⟩
        · exact hs.nodup
        · have hqueued := (addSignal_thins i.signal (some q) SIG_HARD s.kernel).list
          exact (switchTask_list hswitch).nodup (hqueued.nodup hs.nodup)
        · have hside : Beside none s.kernel (processDie L q k) :=
            (Beside.of_same hsame).trans (processDie_beside L q k)
          exact (switchTask_list hswitch).nodup (hside.list.nodup hs.nodup)
      | exit e fuel q status =>
        obtain ⟨-, hswitch⟩ := h
        have hside : Beside none s.kernel (Moonlight.exit L q status s.kernel) :=
          exit_beside L q status s.kernel
        exact (switchTask_list hswitch).nodup (hside.list.nodup hs.nodup)
      | iniKern v n made => cases hnew
      | dup swap swap2 p made => cases hnew
      | fork swap swap2 p made => cases hnew
      | _ => cases hop

/-- **A step that leaves the process waiting** costs one selection, if it selects. -/
theorem taskStep_patience {op : TaskOp} (hs : s.Sound) (hp : p ∈ s.kernel.processList)
    (h : taskStep L s op t) (ht : Waits p t.kernel) :
    op.switches.toNat + t.kernel.patience n p ≤ s.kernel.patience (n + op.mayCreate.toNat) p := by
  have hthins : op.thins = true → t.kernel.patience n p ≤ s.kernel.patience n p := fun hop => by
    obtain ⟨hthin, hcur⟩ := taskStep_thins hop h
    exact hthin.patience_le hs.nodup hcur (fun c hc => (taskStep_alive hs h c hc).1) ht.mem
  have hmakes : op.mayCreate = true → t.kernel.patience n p ≤ s.kernel.patience (n + 1) p :=
    fun hop => by
      obtain ⟨r, hr⟩ := taskStep_makes hop h
      exact hr.patience_le hs.orderly hp
  cases op with
  | clock e fuel esp0 above =>
    have hlt := (switchTask_patience (n := n) hs.orderly h ht).1
    show 1 + t.kernel.patience n p ≤ s.kernel.patience n p
    omega
  | exit e fuel q status =>
    obtain ⟨hq, hswitch⟩ := h
    have hcur : (Moonlight.exit L q status s.kernel).current = none := by
      unfold Moonlight.exit
      rw [processDie_current, Kernel.modify_current, if_pos hq]
    have hlt := death_patience (n := n) hs hq (exit_beside L q status s.kernel) hcur
      (processDie_gone L q _) hswitch ht
    show 1 + t.kernel.patience n p ≤ s.kernel.patience n p
    omega
  | fault e fuel esp0 intNo errCode above =>
    show 0 + t.kernel.patience n p ≤ s.kernel.patience n p
    rw [Nat.zero_add]
    rcases irqGeneral_cases h with ⟨-, rfl⟩ | ⟨i, q, -, -, -, hswitch⟩ |
      ⟨q, k, halive, hsame, hcur, hswitch⟩
    · exact le_rfl
    · -- the signal is queued, and nothing else
      have hthin := addSignal_thins i.signal (some q) SIG_HARD s.kernel
      have hkeep := addSignal_current i.signal (some q) SIG_HARD s.kernel
      have hsame := addSignal_same (v := Process.state) (fun _ _ _ => rfl) i.signal (some q) SIG_HARD
        s.kernel
      have hk : (addSignal i.signal (some q) SIG_HARD s.kernel).2.Orderly := by
        refine ⟨hthin.list.nodup hs.nodup, fun c hc => ?_⟩
        rw [hkeep] at hc
        rw [hsame.list]
        exact hs.orderly.current c hc
      obtain ⟨hlt, hmem, -⟩ := switchTask_patience (n := n) hk hswitch ht
      exact hlt.le.trans (hthin.patience_le hs.nodup hkeep hk.current hmem)
    · obtain ⟨hq, -⟩ := alive_eq_some.mp halive
      have hdead : (processDie L q k).current = none := by
        rw [processDie_current, hcur, if_pos hq]
      exact (death_patience hs hq ((Beside.of_same hsame).trans (processDie_beside L q k)) hdead
        (processDie_gone L q k) hswitch ht).le
  | iniKern v m made => exact (Nat.zero_add _).le.trans (hmakes rfl)
  | dup swap swap2 p made => exact (Nat.zero_add _).le.trans (hmakes rfl)
  | fork swap swap2 p made => exact (Nat.zero_add _).le.trans (hmakes rfl)
  | _ => exact (Nat.zero_add _).le.trans (hthins rfl)

/-- **No process starves.**  A process that is ready gets the processor, or is stopped or ended by a
signal, before the clock and the ends of processes have made more selections than its patience allows;
this grows with the processes that are made meanwhile, and not with anything else. -/
theorem ready_runs_soon {s₀ : Tasks} {before ops : List TaskOp}
    (hstart : s₀.kernel.processList = []) (hidle : s₀.kernel.current = none)
    (hreach : Run (taskStep L) s₀ before s) (hp : Waits p s.kernel) (hrun : Run (taskStep L) s ops t)
    (hlong : s.kernel.patience (ops.countP TaskOp.mayCreate) p < ops.countP TaskOp.switches) :
    ∃ as u bs, ops = as ++ bs ∧ Run (taskStep L) s as u ∧ Run (taskStep L) u bs t ∧
      ¬ Waits p u.kernel := by
  have hs : s.Sound := by
    refine hreach.invariant Tasks.Sound (fun _ _ _ hs h => taskStep_sound hs h) ⟨?_, fun c hc => ?_⟩
    · rw [hstart]
      exact List.nodup_nil
    · rw [hidle] at hc
      cases hc
  rcases hrun.good_or fun s => Waits p s.kernel with hwaits | hleaves
  · -- in a run that leaves it waiting throughout, the selections are paid for
    have hpaid := hwaits.charged (fun s => s.Sound ∧ Waits p s.kernel) TaskOp.switches
      TaskOp.mayCreate (fun n s => s.kernel.patience n p)
      (fun _ _ _ hs h => ⟨taskStep_sound hs.1 h.1, h.2⟩)
      (fun _ _ _ _ hs h => taskStep_patience hs.1 hs.2.mem h.1 h.2) ⟨hs, hp⟩
    omega
  · exact hleaves

end waiting

/-- The first process waits for the first tick, and no longer than for the second. -/
theorem init_runs_soon : Waits 100 Tasks.init.kernel ∧ ∃ t as u bs,
    [.clock .first 1 0 (0, 0), .clock .first 1 0 (0, 0)] = as ++ bs ∧
      Run (taskStep .sample) Tasks.init as u ∧ Run (taskStep .sample) u bs t ∧
      ¬ Waits 100 u.kernel := by
  have hwaits : Waits 100 Tasks.init.kernel := by
    obtain ⟨hmem, hrun, hother⟩ : 100 ∈ Tasks.init.kernel.processList ∧
        (Tasks.init.kernel.proc 100).state = .RUN ∧ Tasks.init.kernel.current ≠ some 100 := by
      decide +kernel
    exact ⟨hmem, hrun, hother⟩
  have hfirst := tick_step .init (by decide +kernel)
  have hsecond := tick_step Tasks.init.tick (by decide +kernel)
  exact ⟨hwaits, _, ready_runs_soon rfl rfl init_reached hwaits (.cons hfirst (.single hsecond))
    (by decide +kernel)⟩

end Moonlight
