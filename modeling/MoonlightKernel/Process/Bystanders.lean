import MoonlightKernel.Process.Isolation
import MoonlightKernel.Process.JobControl

/-!
# What a process notices of the others

A call on behalf of one process may end another or queue a soft signal for it, and nothing else that
the scheduler looks at.

* `Beside` — no process comes to life, and what is queued already stays at the head of its queue;
* `processDie_beside`, `sendSignal_beside`, `processWaitpid_beside`, `kill_beside` — the calls;
* `Makes` — a call that creates a process: `iniKern_makes`, `processDup_makes`, `fork_makes`.
-/

set_option autoImplicit false

namespace Moonlight

/-- What the scheduler looks at. -/
def Process.standing (pr : Process) : ProcState × List SigQueue := (pr.state, pr.signal.sigQueue)

/-- The queue of `but` is left out. -/
structure Beside (but : Option Nat) (k k' : Kernel) : Prop where
  list : k'.processList.Sublist k.processList
  live : ∀ q, HasMemory k' q → HasMemory k q
  queue : ∀ q, some q ≠ but → HasMemory k' q →
    (k.proc q).signal.sigQueue <+: (k'.proc q).signal.sigQueue

section calls

variable {L : Layout} {but : Option Nat} {k k₁ k' : Kernel} {p c : Nat}

namespace Beside

theorem of_same (h : Same Process.standing k k') : Beside but k k' := by
  have hstate : ∀ q, (k'.proc q).state = (k.proc q).state := fun q => h.field Prod.fst q
  have hqueue : ∀ q, (k'.proc q).signal.sigQueue = (k.proc q).signal.sigQueue :=
    fun q => h.field Prod.snd q
  refine ⟨h.list ▸ .refl _, fun q hq => ?_, fun q _ _ => hqueue q ▸ List.prefix_rfl⟩
  unfold HasMemory at hq ⊢
  rw [← h.list, ← hstate]
  exact hq

theorem refl (k : Kernel) : Beside but k k := .of_same (Same.refl k)

theorem trans (h : Beside but k k₁) (h' : Beside but k₁ k') : Beside but k k' := by
  refine ⟨h'.list.trans h.list, fun q hq => h.live q (h'.live q hq), fun q hne hq => ?_⟩
  exact (h.queue q hne (h'.live q hq)).trans (h'.queue q hne hq)

/-- A store into one process, which does not bring it to life. -/
theorem modify {f : Process → Process}
    (hlive : (f (k.proc p)).state ≠ .ZOMBIE → (k.proc p).state ≠ .ZOMBIE)
    (hqueue : (f (k.proc p)).state ≠ .ZOMBIE → some p ≠ but →
      (k.proc p).signal.sigQueue <+: (f (k.proc p)).signal.sigQueue) :
    Beside but k (k.modify p f) := by
  refine ⟨.refl _, ?_, ?_⟩
  · intro q hq
    unfold HasMemory at hq ⊢
    rw [Kernel.modify_processList, Kernel.modify_proc] at hq
    refine ⟨hq.1, ?_⟩
    by_cases hqp : q = p
    · rw [if_pos hqp] at hq
      rw [hqp]
      exact hlive hq.2
    · rw [if_neg hqp] at hq
      exact hq.2
  · intro q hne hq
    unfold HasMemory at hq
    rw [Kernel.modify_proc] at hq ⊢
    by_cases hqp : q = p
    · rw [if_pos hqp] at hq ⊢
      subst hqp
      exact hqueue hq.2 hne
    · rw [if_neg hqp]

/-- The new state is that of a living process. -/
theorem modify_live {f : Process → Process} (hp : (k.proc p).state ≠ .ZOMBIE)
    (hqueue : (f (k.proc p)).signal.sigQueue = (k.proc p).signal.sigQueue) :
    Beside but k (k.modify p f) :=
  .modify (fun _ => hp) fun _ _ => hqueue ▸ List.prefix_rfl

theorem same_modify {f : Process → Process}
    (h : (f (k.proc p)).standing = (k.proc p).standing) : Beside but k (k.modify p f) :=
  .of_same (Same.modify k p h)

end Beside

/-- **A soft signal** is queued behind the others. -/
theorem addSignal_beside (sig : Int) (proc : Option Nat) (k : Kernel) :
    Beside but k (addSignal sig proc SIG_SOFT k).2 := by
  rcases addSignal_spec sig proc SIG_SOFT k with ⟨p, k₁, -, rfl, h⟩ | h | h
  · rw [h]
    have hk : Beside but k k.kmalloc.2 := .of_same (Same.kmalloc k)
    refine hk.trans (.modify id fun _ _ => ?_)
    unfold Process.queueSignal
    dsimp only
    rw [if_neg (show ¬ SIG_SOFT &&& SIG_HARD ≠ 0 by decide)]
    exact List.prefix_append _ _
  · rw [h]
    exact .refl k
  · rw [h]
    exact .of_same (Same.kmalloc k)

/-- The process leaves the list. -/
theorem freeProcess_beside (p : Nat) (k : Kernel) : Beside but k (freeProcess p k) := by
  have hfree := freeProcess_same (v := Process.standing) (fun _ _ => rfl) p k
  have herase : Beside but k { k with processList := k.processList.erase p } := by
    refine ⟨List.erase_sublist, fun q hq => ⟨List.mem_of_mem_erase hq.1, hq.2⟩,
      fun q _ _ => List.prefix_rfl⟩
  exact herase.trans (.of_same hfree)

theorem notifyFather_beside (p : Nat) (k : Kernel) : Beside but k (notifyFather p k) := by
  have hzombie : ∀ k₁ : Kernel, Beside but k₁ (k₁.modify p (Process.setState .ZOMBIE)) := fun k₁ =>
    .modify (fun h => absurd rfl h) fun h => absurd rfl h
  unfold notifyFather
  cases (k.proc p).father with
  | none => exact (hzombie k).trans (freeProcess_beside p _)
  | some f =>
    have hdead := (addSignal_beside SIGCHLD (some f) k).trans
      (hzombie (addSignal SIGCHLD (some f) SIG_SOFT k).2)
    dsimp only
    split
    · exact hdead.trans (freeProcess_beside p _)
    · exact hdead

/-- A process that is gone has no queue that matters. -/
theorem Beside.gone (h : Beside (some p) k k') (hp : ¬ HasMemory k' p) : Beside but k k' := by
  refine ⟨h.list, h.live, fun q _ hq => h.queue q (fun he => hp ?_) hq⟩
  rw [← Option.some.inj he]
  exact hq

/-- **`process_die`**: nothing is left of the process but its record. -/
theorem processDie_zombie (L : Layout) (p : Nat) (k : Kernel) :
    ((processDie L p k).proc p).state = .ZOMBIE := by
  have hz := (notifyFather_memory p ((processFreeAllMemory L p k).modify p Process.clearQueue)).2
  unfold processDie processDieSafe
  dsimp only
  split
  · exact hz
  · exact hz

theorem processDie_gone (L : Layout) (p : Nat) (k : Kernel) : ¬ HasMemory (processDie L p k) p :=
  fun h => h.2 (processDie_zombie L p k)

theorem processDie_beside (L : Layout) (p : Nat) (k : Kernel) : Beside but k (processDie L p k) := by
  have hmem : Beside (some p) k (processFreeAllMemory L p k) :=
    .of_same (processFreeAllMemory_same (fun _ => rfl) L p k)
  have hclear : Beside (some p) (processFreeAllMemory L p k)
      ((processFreeAllMemory L p k).modify p Process.clearQueue) :=
    .modify id fun _ h => absurd rfl h
  have hnotify := (hmem.trans hclear).trans
    (notifyFather_beside p ((processFreeAllMemory L p k).modify p Process.clearQueue))
  refine Beside.gone (p := p) ?_ (processDie_gone L p k)
  unfold processDie processDieSafe
  dsimp only
  split
  · exact ⟨hnotify.list, hnotify.live, hnotify.queue⟩
  · exact hnotify

theorem exit_beside (L : Layout) (p status : Nat) (k : Kernel) :
    Beside but k (exit L p status k) :=
  Beside.trans (.same_modify rfl) (processDie_beside L p _)

/-- A zombie is reaped by its father. -/
theorem endOfChild_beside (hp : (k.proc p).state ≠ .ZOMBIE) : Beside but k (endOfChild c p k) := by
  have hreply : Beside but k
      (k.modify p (Process.setReply (k.proc c).pid (k.proc c).endValue)) := .same_modify rfl
  have hfree := freeProcess_same (v := Process.standing) (fun _ _ => rfl) c
    (k.modify p (Process.setReply (k.proc c).pid (k.proc c).endValue))
  have hstate := hfree.field Prod.fst p
  refine (hreply.trans (freeProcess_beside c _)).trans (.modify_live ?_ rfl)
  have hfreed : ((freeProcess c (k.modify p
      (Process.setReply (k.proc c).pid (k.proc c).endValue))).proc p).state = (k.proc p).state := by
    refine hstate.trans ?_
    show ((k.modify p (Process.setReply (k.proc c).pid (k.proc c).endValue)).proc p).state = _
    rw [Kernel.modify_proc_self]
    rfl
  rw [hfreed]
  exact hp

theorem childEnded_beside (hp : (k.proc p).state ≠ .ZOMBIE) : Beside but k (childEnded p k) := by
  unfold childEnded
  split
  · exact endOfChild_beside hp
  · exact .refl k

theorem processWaitpid_beside (hp : (k.proc p).state ≠ .ZOMBIE) (pid : Int) (option : Nat) :
    Beside but k (processWaitpid p pid option k).2 := by
  have hstop : Beside but k
      (k.modify p fun pr => { pr with state := .STOPPED, waitingPid := pid }) :=
    .modify_live hp rfl
  have htake : ∀ k₁ : Kernel, Beside but k₁ (takeReply p k₁).2 := fun k₁ =>
    .same_modify (f := fun pr => { pr with waitingReturn := 0 }) rfl
  unfold processWaitpid
  dsimp only
  split
  · exact .refl k
  split
  · exact htake k
  split
  · split
    · exact (endOfChild_beside hp).trans (htake _)
    split
    · exact hstop
    · exact .refl k
  · split
    · split
      · exact .refl k
      · exact hstop
    · exact .refl k

/-- **`kill`** queues soft signals. -/
theorem kill_beside (proc : Nat) (pid sig : Int) (k : Kernel) :
    Beside but k (kill proc pid sig k).2 := by
  have hone : ∀ (r : Int × Kernel) (q : Nat), Beside but r.2 (killOne proc pid sig r q).2 := by
    intro r q
    unfold killOne
    split
    · split
      · exact addSignal_beside sig (some q) r.2
      split
      · exact .refl r.2
      · exact .refl r.2
    · exact .refl r.2
  have hloop : ∀ (qs : List Nat) (r : Int × Kernel),
      Beside but r.2 (qs.foldl (killOne proc pid sig) r).2 := by
    intro qs
    induction qs with
    | nil => exact fun r => .refl r.2
    | cons q qs ih => exact fun r => (hone r q).trans (ih _)
  unfold kill
  split
  · exact .refl k
  · exact hloop k.processList (-ESRCH, k)

/-- What a handler does to the others. -/
theorem runHandler_beside (L : Layout) (h : Shandler) (hp : (k.proc p).state ≠ .ZOMBIE)
    (signum : Nat) : Beside but k (runHandler L h p signum k) := by
  have hset : ∀ v, Beside but k (k.modify p (Process.setEndValue v)) := fun v => .same_modify rfl
  have hput : ∀ v state, Beside but k
      ((k.modify p (Process.setEndValue v)).modify p (Process.setState state)) := fun v state => by
    refine (hset v).trans (.modify_live ?_ rfl)
    rw [Kernel.modify_proc_self]
    exact hp
  cases h with
  | sigTerm => exact (hset _).trans (processDie_beside L p _)
  | sigIgn => exact .refl k
  | sigCore => exact (hset _).trans (processDie_beside L p _)
  | sigStop => exact hput _ _
  | sigCont => exact hput _ _
  | childEnded => exact childEnded_beside hp
  | user => exact .refl k

/-- **`send_signal`** takes an entry from the queue of its own process alone. -/
theorem sendSignal_beside (h : sendSignal L p k = some k') : Beside (some p) k k' := by
  have hpop : ∀ (k₁ : Kernel) (f : Process → Process), (∀ pr, (f pr).state = pr.state) →
      Beside (some p) k₁ (k₁.modify p f) := fun k₁ f hf =>
    .modify (fun hs => by rw [← hf]; exact hs) fun _ hne => absurd rfl hne
  unfold sendSignal at h
  split at h
  · cases h
    exact .refl k
  split at h
  · cases h
    exact hpop k _ fun _ => rfl
  rename_i hlive
  split at h
  · cases h
    exact .refl k
  obtain ⟨hd, -, rfl⟩ := Option.map_eq_some_iff.mp h
  have hrun : ∀ n, Beside (some p) k (runHandler L hd p n k) := runHandler_beside L hd hlive
  dsimp only
  split
  · exact hrun _
  · exact (hrun _).trans (hpop _ _ fun _ => rfl)

/-! ## The running process -/

theorem addSignal_current (sig : Int) (proc : Option Nat) (type : Nat) (k : Kernel) :
    (addSignal sig proc type k).2.current = k.current := by
  rcases addSignal_spec sig proc type k with ⟨p, k₁, -, rfl, h⟩ | h | h <;> rw [h] <;> rfl

theorem freeProcess_current (p : Nat) (k : Kernel) : (freeProcess p k).current = k.current := by
  have hmove : ∀ (cs : List Nat) (k : Kernel), (cs.foldl moveOrphan k).current = k.current := by
    intro cs
    induction cs with
    | nil => exact fun _ => rfl
    | cons c cs ih =>
      intro k
      rw [List.foldl_cons, ih]
      unfold moveOrphan
      split <;> rfl
  unfold freeProcess
  dsimp only
  rw [Kernel.modify_current, hmove]
  split <;> rfl

theorem notifyFather_current (p : Nat) (k : Kernel) : (notifyFather p k).current = k.current := by
  unfold notifyFather
  split
  · dsimp only
    split
    · rw [freeProcess_current, Kernel.modify_current, addSignal_current]
    · rw [Kernel.modify_current, addSignal_current]
  · rw [freeProcess_current, Kernel.modify_current]

/-- A process that dies runs no more. -/
theorem processDie_current (L : Layout) (p : Nat) (k : Kernel) :
    (processDie L p k).current = if k.current = some p then none else k.current := by
  have hkeep : (notifyFather p ((processFreeAllMemory L p k).modify p Process.clearQueue)).current =
      k.current := notifyFather_current p _
  unfold processDie processDieSafe
  dsimp only
  rw [hkeep]
  split
  · rfl
  · exact hkeep

theorem endOfChild_current (c p : Nat) (k : Kernel) : (endOfChild c p k).current = k.current := by
  unfold endOfChild
  dsimp only
  rw [Kernel.modify_current, freeProcess_current, Kernel.modify_current]

theorem childEnded_current (p : Nat) (k : Kernel) : (childEnded p k).current = k.current := by
  unfold childEnded
  split
  · exact endOfChild_current _ p k
  · rfl

theorem processWaitpid_current (p : Nat) (pid : Int) (option : Nat) (k : Kernel) :
    (processWaitpid p pid option k).2.current = k.current := by
  unfold processWaitpid
  dsimp only
  split
  · rfl
  split
  · rfl
  split
  · split
    · exact endOfChild_current _ p k
    split
    · rfl
    · rfl
  · split
    · split
      · rfl
      · rfl
    · rfl

/-- `kill` leaves the processes as they are, but for their queues. -/
theorem kill_live (proc : Nat) (pid sig : Int) (k : Kernel) :
    (kill proc pid sig k).2.current = k.current ∧
      ∀ q, HasMemory (kill proc pid sig k).2 q ↔ HasMemory k q := by
  have hone : ∀ (r : Int × Kernel) (q : Nat),
      (killOne proc pid sig r q).2.current = r.2.current ∧
        Same Process.state r.2 (killOne proc pid sig r q).2 := by
    intro r q
    unfold killOne
    split
    · split
      · exact ⟨addSignal_current sig (some q) SIG_SOFT r.2, addSignal_same (fun _ _ _ => rfl) sig _ _ _⟩
      split
      · exact ⟨rfl, Same.refl _⟩
      · exact ⟨rfl, Same.refl _⟩
    · exact ⟨rfl, Same.refl _⟩
  have hloop : ∀ (qs : List Nat) (r : Int × Kernel),
      (qs.foldl (killOne proc pid sig) r).2.current = r.2.current ∧
        Same Process.state r.2 (qs.foldl (killOne proc pid sig) r).2 := by
    intro qs
    induction qs with
    | nil => exact fun r => ⟨rfl, Same.refl _⟩
    | cons q qs ih =>
      intro r
      obtain ⟨hcur, hsame⟩ := hone r q
      obtain ⟨hcur', hsame'⟩ := ih (killOne proc pid sig r q)
      exact ⟨hcur'.trans hcur, hsame.trans hsame'⟩
  unfold kill
  split
  · exact ⟨rfl, fun _ => Iff.rfl⟩
  · obtain ⟨hcur, hsame⟩ := hloop k.processList (-ESRCH, k)
    refine ⟨hcur, fun q => ?_⟩
    unfold HasMemory
    rw [hsame.list, hsame.proc q]

/-- **A signal for the running process** ends it, or leaves it where it is. -/
theorem sendSignal_self (h : sendSignal L p k = some k') (hp : k.current = some p)
    (hlist : p ∈ k.processList) : (k'.current = none ∧ HasMemory k p ∧ ¬ HasMemory k' p) ∨
      (k'.current = some p ∧ p ∈ k'.processList) := by
  unfold sendSignal at h
  split at h
  · cases h
    exact .inr ⟨hp, hlist⟩
  split at h
  · cases h
    exact .inr ⟨hp, hlist⟩
  rename_i hlive
  split at h
  · cases h
    exact .inr ⟨hp, hlist⟩
  obtain ⟨hd, -, rfl⟩ := Option.map_eq_some_iff.mp h
  rename_i s rest _ _
  have hdie : ∀ v, (processDie L p (k.modify p (Process.setEndValue v))).current = none ∧
      ((processDie L p (k.modify p (Process.setEndValue v))).proc p).state = .ZOMBIE := fun v => by
    refine ⟨?_, processDie_zombie L p _⟩
    rw [processDie_current, Kernel.modify_current, if_pos hp]
  -- the handler is one that ends the process, or one that it survives
  have hcases : ((runHandler L hd p s.sigHandled k).current = none ∧
      ((runHandler L hd p s.sigHandled k).proc p).state = .ZOMBIE) ∨
      ((runHandler L hd p s.sigHandled k).current = some p ∧
        p ∈ (runHandler L hd p s.sigHandled k).processList) := by
    cases hd with
    | sigTerm => exact .inl (hdie _)
    | sigIgn => exact .inr ⟨hp, hlist⟩
    | sigCore => exact .inl (hdie _)
    | sigStop => exact .inr ⟨hp, hlist⟩
    | sigCont => exact .inr ⟨hp, hlist⟩
    | childEnded =>
      refine .inr ⟨(childEnded_current p k).trans hp, ?_⟩
      exact (((childEnded_memory hlive).1.hasMemory p).mpr ⟨hlist, hlive⟩).1
    | user => exact .inr ⟨hp, hlist⟩
  dsimp only
  rcases hcases with ⟨hcur, hz⟩ | ⟨hcur, hmem⟩
  · rw [if_pos hz]
    exact .inl ⟨hcur, ⟨hlist, hlive⟩, fun h => h.2 hz⟩
  · split
    · exact .inr ⟨hcur, hmem⟩
    · exact .inr ⟨hcur, hmem⟩

end calls

/-! ## New processes -/

/-- Only the record at `a` is written. -/
structure WritesOnly (a : Nat) (k k' : Kernel) : Prop where
  current : k'.current = k.current
  list : k'.processList = k.processList
  others : ∀ q, q ≠ a → k'.proc q = k.proc q

/-- The process `a` may have come to life; the others are as before. -/
structure Born (a : Nat) (k k' : Kernel) : Prop where
  current : k'.current = k.current
  list : k'.processList.filter (· ≠ a) = k.processList.filter (· ≠ a)
  others : ∀ q, q ≠ a → (k'.proc q).standing = (k.proc q).standing

section creation

variable {L : Layout} {a p : Nat} {k k₁ k' : Kernel}

namespace WritesOnly

theorem refl (k : Kernel) : WritesOnly a k k := ⟨rfl, rfl, fun _ _ => rfl⟩

theorem trans (h : WritesOnly a k k₁) (h' : WritesOnly a k₁ k') : WritesOnly a k k' :=
  ⟨h'.current.trans h.current, h'.list.trans h.list,
    fun q hq => (h'.others q hq).trans (h.others q hq)⟩

theorem setMachine (k : Kernel) (m : Machine) : WritesOnly a k (k.setMachine m) :=
  ⟨rfl, rfl, fun _ _ => rfl⟩

theorem kmalloc {rec : Option Nat} (h : k.kmalloc = (rec, k')) : WritesOnly a k k' := by
  rw [(Kernel.kmalloc_eq h).2]
  exact ⟨rfl, rfl, fun _ _ => rfl⟩

theorem modify (k : Kernel) (f : Process → Process) : WritesOnly a k (k.modify a f) :=
  ⟨rfl, rfl, fun _ hq => Kernel.modify_proc_of_ne k hq f⟩

theorem born (h : WritesOnly a k k') : Born a k k' := by
  refine ⟨h.current, ?_, fun q hq => ?_⟩
  · rw [h.list]
  · rw [h.others q hq]

end WritesOnly

theorem Born.trans (h : Born a k k₁) (h' : Born a k₁ k') : Born a k k' :=
  ⟨h'.current.trans h.current, h'.list.trans h.list, fun q hq => (h'.others q hq).trans (h.others q hq)⟩

theorem Born.mem_list (h : Born a k k') {q : Nat} (hq : q ≠ a) :
    q ∈ k'.processList ↔ q ∈ k.processList := by
  have hmem : q ∈ k'.processList.filter (· ≠ a) ↔ q ∈ k.processList.filter (· ≠ a) := by rw [h.list]
  rwa [List.mem_filter, List.mem_filter, and_iff_left (decide_eq_true hq),
    and_iff_left (decide_eq_true hq)] at hmem

/-- The others are alive as before, with the same queues. -/
theorem Born.hasMemory (h : Born a k k') {q : Nat} (hq : q ≠ a) :
    HasMemory k' q ↔ HasMemory k q := by
  have hstate : (k'.proc q).state = (k.proc q).state := congrArg Prod.fst (h.others q hq)
  unfold HasMemory
  rw [hstate, h.mem_list hq]

/-- The record of a process that could not be made is freed. -/
theorem freeProcess_born (a : Nat) (k : Kernel) : Born a k (freeProcess a k) := by
  have hfree := freeProcess_same (v := Process.standing) (fun _ _ => rfl) a k
  refine ⟨freeProcess_current a k, ?_, fun q _ => hfree.proc q⟩
  rw [hfree.list]
  show (k.processList.erase a).filter (· ≠ a) = _
  rw [← List.erase_filter]
  exact List.erase_of_not_mem fun h => of_decide_eq_true (List.mem_filter.mp h).2 rfl

theorem processNew_writes {r : Option Nat} (hnew : k.kmallocs 0 = some a)
    (h : processNew k = (r, k')) : r = some a ∧ WritesOnly a k k' := by
  unfold processNew at h
  cases hm : k.kmalloc with
  | mk rec k₁ =>
    rw [hm] at h
    obtain ⟨hrec, -⟩ := Kernel.kmalloc_eq hm
    rw [hnew] at hrec
    subst hrec
    cases h
    exact ⟨rfl, (WritesOnly.kmalloc hm).trans (.modify k₁ _)⟩

theorem processAllocPid_writes (a : Nat) (k : Kernel) : WritesOnly a k (processAllocPid a k).2 := by
  have hpid := WritesOnly.modify (a := a) k fun pr => { pr with
    pid := (allocPidLoop (k.processList.map fun q => (k.proc q).pid)
      (PROC_MAX_PID - PROC_MIN_PID + 1).toNat k.lastPid).2.1 }
  exact ⟨rfl, rfl, hpid.others⟩

theorem processMemoryFill_writes (L : Layout) (a : Nat) (pm : MapMemory) (pflags : Nat) (k : Kernel) :
    WritesOnly a k (processMemoryFill L a pm pflags k).2 := by
  unfold processMemoryFill
  generalize physBzero L pm.pAddr pm.size k.machine = r
  dsimp only
  split
  · exact .setMachine k _
  generalize (if pflags &&& PROC_MEM_ADD_IMEDIATE ≠ 0
    then pageMapRange L pm.pAddr pm.vAddr pm.flags pm.size r.2 else (0, r.2)) = r
  split
  · exact .setMachine k _
  split
  · rename_i pr _
    exact (WritesOnly.setMachine k r.2).trans (.modify _ fun _ => pr)
  · exact .setMachine k _

theorem processMemoryAdd_writes (L : Layout) (a size vAddr mflags pflags : Nat) (k : Kernel) :
    WritesOnly a k (processMemoryAdd L a size vAddr mflags pflags k).2 := by
  unfold processMemoryAdd
  dsimp only
  generalize (if add32 size (vAddr - (vAddr &&& PAGE_ADDR)) % 4096 ≠ 0
    then (add32 size (vAddr - (vAddr &&& PAGE_ADDR)) >>> 12) + 1
    else add32 size (vAddr - (vAddr &&& PAGE_ADDR)) >>> 12) = n
  split
  · exact .setMachine k _
  split
  · exact .setMachine k _
  split
  · rename_i hm
    exact (WritesOnly.setMachine k _).trans (.kmalloc hm)
  · rename_i hm
    have hrec := (WritesOnly.setMachine k _).trans (WritesOnly.kmalloc (a := a) hm)
    split
    · exact hrec.trans (.setMachine _ _)
    · exact (hrec.trans (.setMachine _ _)).trans (processMemoryFill_writes L a _ _ _)

/-! ## Copies -/

theorem copyMaps_writes (swap swap2 : Nat) (maps : List MapMemory) :
    ∀ (copied : List MapMemory) (k : Kernel),
      WritesOnly a k (copyMaps L swap swap2 maps copied k).2.2 := by
  induction maps with
  | nil => exact fun _ k => .refl k
  | cons pm maps ih =>
    intro copied k
    unfold copyMaps
    split
    · rename_i hm
      exact .kmalloc hm
    · rename_i hm
      have hrec := WritesOnly.kmalloc (a := a) hm
      dsimp only
      split
      · exact hrec.trans (.setMachine _ _)
      · exact (hrec.trans (.setMachine _ _)).trans (ih _ _)

theorem copyMemory_writes (swap swap2 p a : Nat) (k : Kernel) :
    WritesOnly a k (copyMemory L swap swap2 p a k).2 := by
  unfold copyMemory
  have hheap := copyMaps_writes (L := L) (a := a) swap swap2 (k.proc p).mmHeap [] k
  generalize copyMaps L swap swap2 (k.proc p).mmHeap [] k = r at hheap
  dsimp only
  replace hheap := hheap.trans (.modify _ fun pr => { pr with mmHeap := r.2.1 })
  split
  · exact hheap
  generalize r.2.2.modify a (fun pr => { pr with mmHeap := r.2.1 }) = k₁ at hheap
  have hstack := hheap.trans
    (copyMaps_writes (L := L) (a := a) swap swap2 (k₁.proc p).mmStack [] k₁)
  generalize copyMaps L swap swap2 (k₁.proc p).mmStack [] k₁ = r at hstack
  replace hstack := hstack.trans (.modify _ fun pr => { pr with mmStack := r.2.1 })
  split
  · exact hstack
  generalize r.2.2.modify a (fun pr => { pr with mmStack := r.2.1 }) = k₂ at hstack
  generalize processCopyMemBlock L swap swap2 (k₂.proc p).mmCode k₂.machine = r
  have hcode := (hstack.trans (.setMachine k₂ r.2.2)).trans
    (.modify _ fun pr => { pr with mmCode := r.2.1 })
  split
  · exact hcode
  · exact hcode

theorem copySignals_writes (a : Nat) (queue : List SigQueue) (k : Kernel) : WritesOnly a k
    (queue.foldl (fun k s => (addSignal s.sigHandled (some a) s.state k).2) k) := by
  have hkmalloc : ∀ k : Kernel, WritesOnly a k k.kmalloc.2 := fun _ => ⟨rfl, rfl, fun _ _ => rfl⟩
  induction queue generalizing k with
  | nil => exact .refl k
  | cons s queue ih =>
    rw [List.foldl_cons]
    refine WritesOnly.trans ?_ (ih _)
    rcases addSignal_spec s.sigHandled (some a) s.state k with ⟨q, k₁, hq, rfl, h⟩ | h | h
    · cases hq
      rw [h]
      exact (hkmalloc k).trans (.modify _ _)
    · rw [h]
      exact .refl k
    · rw [h]
      exact hkmalloc k

/-- The child comes into the list once, and the others keep their order. -/
theorem filter_insertAfter {l : List Nat} (p a : Nat) :
    (insertAfter p a l).filter (· ≠ a) = l.filter (· ≠ a) := by
  induction l with
  | nil => rfl
  | cons q l ih =>
    unfold insertAfter
    split
    · have hout : ¬ decide (a ≠ a) = true := by simp
      rw [List.filter_cons, List.filter_cons, List.filter_cons, if_neg hout]
    · rw [List.filter_cons, List.filter_cons, ih]

theorem count_insertAfter {l : List Nat} (p : Nat) (ha : a ∉ l) : (insertAfter p a l).count a ≤ 1 := by
  induction l with
  | nil => exact Nat.zero_le 1
  | cons q l ih =>
    obtain ⟨hne, ha⟩ := not_or.mp (fun h => ha (List.mem_cons.mpr h))
    unfold insertAfter
    split
    · rw [List.count_cons_of_ne (Ne.symm hne), List.count_cons_self, List.count_eq_zero.mpr ha]
    · rw [List.count_cons_of_ne (Ne.symm hne)]
      exact ih ha

/-- `copy_process` writes to the child, and puts it into the list when it succeeds. -/
theorem copyProcess_born (swap swap2 p : Nat) (hp : p ∈ k.processList) :
    ((copyProcess L swap swap2 p a k).1 < 0 → WritesOnly a k (copyProcess L swap swap2 p a k).2) ∧
      (¬ (copyProcess L swap swap2 p a k).1 < 0 → Born a k (copyProcess L swap swap2 p a k).2 ∧
        (copyProcess L swap swap2 p a k).2.processList = insertAfter p a k.processList) := by
  have herr : ¬ ¬ (-1 : Int) < 0 := not_not_intro (Int.negSucc_lt_zero 0)
  unfold copyProcess
  have hw := processAllocPid_writes a k
  generalize processAllocPid a k = r at hw
  dsimp only
  split
  · exact ⟨fun _ => hw, fun h => absurd h herr⟩
  replace hw := hw.trans (copyMemory_writes (L := L) swap swap2 p a r.2)
  generalize copyMemory L swap swap2 p a r.2 = r at hw
  split
  · exact ⟨fun _ => hw, fun h => absurd h herr⟩
  replace hw := hw.trans (copySignals_writes a (r.2.proc p).signal.sigQueue r.2)
  generalize (r.2.proc p).signal.sigQueue.foldl
    (fun k s => (addSignal s.sigHandled (some a) s.state k).2) r.2 = k₂ at hw
  split
  · rename_i hm
    exact ⟨fun _ => hw.trans (.kmalloc hm), fun h => absurd h herr⟩
  · rename_i k₃ hm
    replace hw := hw.trans (WritesOnly.kmalloc hm)
    refine ⟨fun h => absurd h (Int.lt_irrefl 0), fun _ => ⟨hw.born.trans ⟨rfl, ?_, fun q hq => ?_⟩,
      ?_⟩⟩
    · exact filter_insertAfter p a
    · unfold linkChild
      dsimp only
      rw [Kernel.modify_proc]
      split
      · rename_i hqp
        subst hqp
        rw [Kernel.modify_proc_of_ne _ hq]
        rfl
      · rw [Kernel.modify_proc_of_ne _ hq]
    · rw [← hw.list]
      rfl

/-! ## Results -/

/-- A call with the result `r` makes the process `r`, or none. -/
def Makes (r : Option Nat) (k k' : Kernel) : Prop :=
  ∃ a, a ∉ k.processList ∧ k'.processList.count a ≤ 1 ∧ Born a k k' ∧
    (r = some a ∨ (r = none ∧ a ∉ k'.processList))

/-- There is no block for the record. -/
theorem makes_none (k : Kernel) : Makes none k k.kmalloc.2 := by
  obtain ⟨a, ha⟩ := Infinite.exists_notMem_finset k.processList.toFinset
  rw [List.mem_toFinset] at ha
  exact ⟨a, ha, (List.count_eq_zero.mpr ha).le.trans (Nat.zero_le 1), ⟨rfl, rfl, fun _ _ => rfl⟩,
    .inr ⟨rfl, ha⟩⟩

/-- A record that has not come into the list is not in the list when it has been freed. -/
theorem freeProcess_absent (h : WritesOnly a k k') (ha : a ∉ k.processList) :
    Makes none k (freeProcess a k') := by
  have hfree := freeProcess_same (v := Process.standing) (fun _ _ => rfl) a k'
  have hout : a ∉ (freeProcess a k').processList := by
    rw [hfree.list]
    show a ∉ k'.processList.erase a
    rw [h.list]
    exact fun hm => ha (List.mem_of_mem_erase hm)
  exact ⟨a, ha, (List.count_eq_zero.mpr hout).le.trans (Nat.zero_le 1),
    h.born.trans (freeProcess_born a k'), .inr ⟨rfl, hout⟩⟩

/-- **`process_ini_kern`** makes the process that it returns. -/
theorem iniKern_makes (hfresh : FreshRecord k) (vAddr size : Nat) :
    Makes (processIniKern L vAddr size k).1 k (processIniKern L vAddr size k).2 := by
  unfold processIniKern
  cases hnew : k.kmallocs 0 with
  | none =>
    rw [processNew_noRecord hnew]
    exact makes_none k
  | some a =>
    have ha := hfresh a hnew
    cases hborn : processNew k with
    | mk r k₁ =>
      obtain ⟨rfl, hw⟩ := processNew_writes hnew hborn
      dsimp only
      replace hw := hw.trans (processAllocPid_writes a k₁)
      split
      · exact freeProcess_absent hw ha
      replace hw := hw.trans (processMemoryAdd_writes L a size vAddr
        (PAGE_PRESENT ||| PAGE_WRITE ||| PAGE_USER_SUPERVISOR)
        (PROC_MEM_ADD_IMEDIATE ||| PROC_MEM_ADD_CODE) _)
      split
      · exact freeProcess_absent hw ha
      replace hw := hw.trans (processMemoryAdd_writes L a 4096 (KERNEL_POS - 4096)
        (PAGE_PRESENT ||| PAGE_WRITE ||| PAGE_USER_SUPERVISOR)
        (PROC_MEM_ADD_IMEDIATE ||| PROC_MEM_ADD_STACK) _)
      split
      · exact freeProcess_absent hw ha
      · refine ⟨a, ha, ?_, ⟨hw.current, ?_, hw.born.others⟩, .inl rfl⟩
        · dsimp only
          rw [List.count_cons_self, hw.list, List.count_eq_zero.mpr ha]
        · dsimp only
          rw [List.filter_cons_of_neg (by simp), hw.list]

/-- **`process_dup`** makes the process that it returns. -/
theorem processDup_makes (hfresh : FreshRecord k) (swap swap2 : Nat) (hp : p ∈ k.processList) :
    Makes (processDup L swap swap2 p k).1 k (processDup L swap swap2 p k).2 := by
  unfold processDup
  cases hnew : k.kmallocs 0 with
  | none =>
    rw [processNew_noRecord hnew]
    exact makes_none k
  | some a =>
    have ha := hfresh a hnew
    cases hborn : processNew k with
    | mk r k₁ =>
      obtain ⟨rfl, hw⟩ := processNew_writes hnew hborn
      have hp₁ : p ∈ k₁.processList := by
        rw [hw.list]
        exact hp
      obtain ⟨hfail, hok⟩ := copyProcess_born (L := L) (a := a) swap swap2 p hp₁
      dsimp only
      split
      · rename_i herr
        exact freeProcess_absent (hw.trans (hfail herr)) ha
      · rename_i hdone
        obtain ⟨hborn, hlist⟩ := hok hdone
        refine ⟨a, ha, ?_, hw.born.trans hborn, .inl rfl⟩
        rw [hlist, hw.list]
        exact count_insertAfter p ha

/-- `fork` is `process_dup`, with another result; it writes the father once more. -/
theorem fork_eq_dup (swap swap2 : Nat) : (fork L swap swap2 p k).2 =
    match (processDup L swap swap2 p k).1 with
    | none => (processDup L swap swap2 p k).2
    | some a => (processDup L swap swap2 p k).2.modify a fun pr => { pr with father := some p } := by
  unfold fork processDup
  split
  · rfl
  dsimp only
  split
  · rfl
  · rfl

/-- **`fork`** makes the process that `process_dup` would make. -/
theorem fork_makes (hfresh : FreshRecord k) (swap swap2 : Nat) (hp : p ∈ k.processList) :
    Makes (processDup L swap swap2 p k).1 k (fork L swap swap2 p k).2 := by
  obtain ⟨a, ha, hone, hborn, hr⟩ := processDup_makes (L := L) hfresh swap swap2 hp
  rw [fork_eq_dup]
  rcases hr with hr | ⟨hr, hno⟩
  · rw [hr]
    exact ⟨a, ha, hone, hborn.trans (WritesOnly.modify _ _).born, .inl rfl⟩
  · rw [hr]
    exact ⟨a, ha, hone, hborn, .inr ⟨rfl, hno⟩⟩

end creation

end Moonlight
