import Mathlib.Tactic.SplitIfs
import MoonlightKernel.Lib.Lockstep
import MoonlightKernel.Process.Handlers
import MoonlightKernel.Process.Tree

/-!
# No handler and the default handler: `kernel/process/signal.c`

A process that leaves a signal alone has a null pointer in its table of handlers; one that calls
`signal` with `SIG_DFL` has the address of the default handler there.  Both mean the same, and two
kernels that differ in this only go in lockstep.  One function tells them apart: `process_die_safe`
frees a child at once when the slot of its father for `SIGCHLD` is not null.

* `withHandlers` — the kernel with other tables; `addSignal_withHandlers`, `fork_withHandlers`,
  `processWaitpid_withHandlers` and the like — the functions that do not look at them;
* `exit_withHandlers`, `sendSignal_withHandlers` — those that do, when they find the same;
* `Twin` — the two kernels; `familyStep_twin` — one call;
* `signal_default_neutral` — two runs, and `default_sigchld_loses_child` — two that differ.
-/

set_option autoImplicit false

namespace Moonlight

open Sys

/-! ## Other tables of handlers -/

/-- The process with the table `h` of handlers. -/
def Process.withHandlers (h : Nat → Option Shandler) (pr : Process) : Process :=
  { pr with signal := { pr.signal with sigHandler := h } }

namespace Kernel

/-- The tables of handlers of all processes. -/
def handlers (k : Kernel) (q : Nat) : Nat → Option Shandler := (k.proc q).signal.sigHandler

/-- The kernel with other tables. -/
def withHandlers (H : Nat → Nat → Option Shandler) (k : Kernel) : Kernel :=
  { k with proc := fun q => (k.proc q).withHandlers (H q) }

/-- The result of a call, with other tables in the kernel that it leaves. -/
def retable {α : Type*} (H : Nat → Nat → Option Shandler) (r : α × Kernel) : α × Kernel :=
  (r.1, r.2.withHandlers H)

variable {k : Kernel} {H : Nat → Nat → Option Shandler} {p : Nat}

theorem withHandlers_self (k : Kernel) : k.withHandlers k.handlers = k := rfl

theorem withHandlers_modify {f : Process → Process}
    (hf : ∀ pr h, f (pr.withHandlers h) = (f pr).withHandlers h) :
    (k.withHandlers H).modify p f = (k.modify p f).withHandlers H := by
  have hproc : ∀ q, ((k.withHandlers H).modify p f).proc q =
      ((k.modify p f).proc q).withHandlers (H q) := by
    intro q
    rw [modify_proc, modify_proc]
    split
    · rename_i hq
      rw [hq]
      exact hf _ _
    · rfl
  exact congrArg (fun P => { k with proc := P }) (funext hproc)

section fields

variable (H : Nat → Nat → Option Shandler) (k : Kernel) (q : Nat)

@[simp] theorem withHandlers_state : ((k.withHandlers H).proc q).state = (k.proc q).state := rfl
@[simp] theorem withHandlers_pid : ((k.withHandlers H).proc q).pid = (k.proc q).pid := rfl
@[simp] theorem withHandlers_uid : ((k.withHandlers H).proc q).uid = (k.proc q).uid := rfl
@[simp] theorem withHandlers_father : ((k.withHandlers H).proc q).father = (k.proc q).father := rfl
@[simp] theorem withHandlers_children :
    ((k.withHandlers H).proc q).children = (k.proc q).children := rfl
@[simp] theorem withHandlers_waitingPid :
    ((k.withHandlers H).proc q).waitingPid = (k.proc q).waitingPid := rfl
@[simp] theorem withHandlers_waitingReturn :
    ((k.withHandlers H).proc q).waitingReturn = (k.proc q).waitingReturn := rfl
@[simp] theorem withHandlers_endValue :
    ((k.withHandlers H).proc q).endValue = (k.proc q).endValue := rfl
@[simp] theorem withHandlers_maps : ((k.withHandlers H).proc q).maps = (k.proc q).maps := rfl
@[simp] theorem withHandlers_sigQueue :
    ((k.withHandlers H).proc q).signal.sigQueue = (k.proc q).signal.sigQueue := rfl
@[simp] theorem withHandlers_sigAvalaible :
    ((k.withHandlers H).proc q).signal.sigAvalaible = (k.proc q).signal.sigAvalaible := rfl
@[simp] theorem withHandlers_kmalloc : (k.withHandlers H).kmalloc = retable H k.kmalloc := rfl

end fields

end Kernel

open Kernel

section agnostic

variable {k : Kernel} {H : Nat → Nat → Option Shandler} {L : Layout} {p : Nat}

/-- A map is pushed into both branches. -/
theorem ite_map_iff {α β : Type*} {f : α → β} {c c' : Prop} [Decidable c] [Decidable c'] {a b : α}
    {a' b' : β} (hc : c' ↔ c) (ha : a' = f a) (hb : b' = f b) :
    (if c' then a' else b') = f (if c then a else b) := by
  rw [apply_ite f, ha, hb]
  exact if_congr hc rfl rfl

theorem ite_map {α β : Type*} {f : α → β} {c : Prop} [Decidable c] {a b : α} {a' b' : β}
    (ha : a' = f a) (hb : b' = f b) : (if c then a' else b') = f (if c then a else b) :=
  ite_map_iff Iff.rfl ha hb

theorem addSignal_withHandlers (sig : Int) (proc : Option Nat) (type : Nat) (k : Kernel) :
    addSignal sig proc type (k.withHandlers H) = retable H (addSignal sig proc type k) := by
  unfold addSignal
  refine ite_map rfl (ite_map rfl ?_)
  cases proc with
  | none => rfl
  | some p =>
    refine ite_map rfl (ite_map rfl (ite_map rfl ?_))
    rw [withHandlers_kmalloc]
    cases hm : k.kmalloc with
    | mk a k' =>
      cases a with
      | none => rfl
      | some _ => exact congrArg (Prod.mk 0) (withHandlers_modify fun _ _ => rfl)

theorem processGetWithPid_withHandlers (k : Kernel) (pid : Int) :
    processGetWithPid (k.withHandlers H) pid = processGetWithPid k pid := rfl

theorem moveOrphan_withHandlers (k : Kernel) (c : Nat) :
    moveOrphan (k.withHandlers H) c = (moveOrphan k c).withHandlers H := by
  unfold moveOrphan
  rw [processGetWithPid_withHandlers]
  split
  · exact withHandlers_modify fun _ _ => rfl
  · rfl

theorem moveOrphans_withHandlers (cs : List Nat) (k : Kernel) :
    cs.foldl moveOrphan (k.withHandlers H) = (cs.foldl moveOrphan k).withHandlers H := by
  induction cs generalizing k with
  | nil => rfl
  | cons c cs ih => rw [List.foldl_cons, List.foldl_cons, moveOrphan_withHandlers, ih]

theorem freeProcess_withHandlers (p : Nat) (k : Kernel) :
    freeProcess p (k.withHandlers H) = (freeProcess p k).withHandlers H := by
  -- what is left when the process is out of its father's list
  have hrest : ∀ k : Kernel,
      (((k.withHandlers H).proc p).children.foldl moveOrphan (k.withHandlers H)).modify p
          (fun pr => { pr with children := [] }) =
        (((k.proc p).children.foldl moveOrphan k).modify p
          fun pr => { pr with children := [] }).withHandlers H := by
    intro k
    rw [withHandlers_children, moveOrphans_withHandlers]
    exact withHandlers_modify fun _ _ => rfl
  unfold freeProcess
  dsimp only
  rw [← hrest]
  cases hf : (k.proc p).father with
  | none =>
    simp only [withHandlers_father, hf]
    rfl
  | some f =>
    simp only [withHandlers_father, hf]
    have hmodify := withHandlers_modify (k := { k with processList := k.processList.erase p })
      (H := H) (p := f) (f := fun pr => { pr with children := pr.children.erase p }) fun _ _ => rfl
    rw [← hmodify]
    rfl

theorem processAllocPid_withHandlers (p : Nat) (k : Kernel) :
    processAllocPid p (k.withHandlers H) = retable H (processAllocPid p k) := by
  unfold processAllocPid
  have hmodify : ∀ pid : Int, (k.withHandlers H).modify p (fun pr => { pr with pid := pid }) =
      (k.modify p fun pr => { pr with pid := pid }).withHandlers H := fun _ =>
    withHandlers_modify fun _ _ => rfl
  dsimp only [withHandlers_pid]
  rw [hmodify]
  rfl

theorem processFreeAllMemory_withHandlers (p : Nat) (k : Kernel) :
    processFreeAllMemory L p (k.withHandlers H) = (processFreeAllMemory L p k).withHandlers H := by
  unfold processFreeAllMemory
  exact (withHandlers_modify (k := k.setMachine _) fun _ _ => rfl)

/-! ### `kill` -/

theorem killOne_withHandlers (proc : Nat) (pid sig : Int) (r : Int × Kernel) (p : Nat) :
    killOne proc pid sig (retable H r) p = retable H (killOne proc pid sig r p) := by
  unfold killOne
  exact ite_map (ite_map (addSignal_withHandlers sig (some p) SIG_SOFT r.2) (ite_map rfl rfl)) rfl

theorem kill_withHandlers (proc : Nat) (pid sig : Int) (k : Kernel) :
    kill proc pid sig (k.withHandlers H) = retable H (kill proc pid sig k) := by
  have hloop : ∀ (ps : List Nat) (r : Int × Kernel),
      ps.foldl (killOne proc pid sig) (retable H r) =
        retable H (ps.foldl (killOne proc pid sig) r) := by
    intro ps
    induction ps with
    | nil => exact fun _ => rfl
    | cons p ps ih =>
      intro r
      rw [List.foldl_cons, List.foldl_cons, killOne_withHandlers, ih]
  unfold kill
  exact ite_map rfl (hloop k.processList (-ESRCH, k))

/-! ### `process_waitpid` -/

theorem endOfChild_withHandlers (c p : Nat) (k : Kernel) :
    endOfChild c p (k.withHandlers H) = (endOfChild c p k).withHandlers H := by
  unfold endOfChild
  dsimp only [withHandlers_pid, withHandlers_endValue]
  rw [withHandlers_modify fun _ _ => rfl, freeProcess_withHandlers]
  exact withHandlers_modify fun _ _ => rfl

theorem childEnded_withHandlers (p : Nat) (k : Kernel) :
    childEnded p (k.withHandlers H) = (childEnded p k).withHandlers H := by
  have hfind : (((k.withHandlers H).proc p).children.find? fun c =>
      Reapable (k.withHandlers H) p c) = (k.proc p).children.find? fun c => Reapable k p c := rfl
  unfold childEnded
  rw [hfind]
  split
  · exact endOfChild_withHandlers ..
  · rfl

theorem takeReply_withHandlers (p : Nat) (k : Kernel) :
    takeReply p (k.withHandlers H) = retable H (takeReply p k) :=
  congrArg (Prod.mk _) (withHandlers_modify fun _ _ => rfl)

theorem processWaitpid_withHandlers (p : Nat) (pid : Int) (option : Nat) (k : Kernel) :
    processWaitpid p pid option (k.withHandlers H) = retable H (processWaitpid p pid option k) := by
  have hwait : ((⟨-EWOULDBLOCK, none⟩ : WaitResult), (k.withHandlers H).modify p fun pr =>
      { pr with state := .STOPPED, waitingPid := pid }) =
      retable H (⟨-EWOULDBLOCK, none⟩, k.modify p fun pr =>
        { pr with state := .STOPPED, waitingPid := pid }) :=
    congrArg (Prod.mk _) (withHandlers_modify fun _ _ => rfl)
  have hcandidate : waitCandidate (k.withHandlers H) p pid = waitCandidate k p pid := rfl
  unfold processWaitpid
  dsimp only
  refine ite_map rfl (ite_map (takeReply_withHandlers p k) ?_)
  rw [hcandidate]
  cases waitCandidate k p pid with
  | none => exact ite_map (ite_map rfl hwait) rfl
  | some c =>
    refine ite_map ?_ (ite_map hwait rfl)
    rw [endOfChild_withHandlers, takeReply_withHandlers]

/-! ### `fork` -/

theorem copyMaps_withHandlers (swap swap2 : Nat) (maps copied : List MapMemory) (k : Kernel) :
    copyMaps L swap swap2 maps copied (k.withHandlers H) =
      ((copyMaps L swap swap2 maps copied k).1,
        retable H (copyMaps L swap swap2 maps copied k).2) := by
  induction maps generalizing copied k with
  | nil => rfl
  | cons pm maps ih =>
    unfold copyMaps
    rw [withHandlers_kmalloc]
    cases hm : k.kmalloc with
    | mk a k' =>
      cases a with
      | none => rfl
      | some _ =>
        have hrest := ih ((processCopyMemBlock L swap swap2 pm k'.machine).2.1 :: copied)
          (k'.setMachine (processCopyMemBlock L swap swap2 pm k'.machine).2.2)
        exact ite_map (f := fun r : Int × List MapMemory × Kernel => (r.1, retable H r.2)) rfl hrest

/-- The last lines of `copyMemory`. -/
def copyCode (L : Layout) (swap swap2 p new : Nat) (k : Kernel) : Int × Kernel :=
  let r := processCopyMemBlock L swap swap2 (k.proc p).mmCode k.machine
  let k := (k.setMachine r.2.2).modify new fun pr => { pr with mmCode := r.2.1 }
  if r.1 < 0 then (-1, k) else (0, k)

theorem copyCode_withHandlers (swap swap2 p new : Nat) (k : Kernel) :
    copyCode L swap swap2 p new (k.withHandlers H) = retable H (copyCode L swap swap2 p new k) := by
  have hcode := withHandlers_modify (H := H) (p := new)
    (k := k.setMachine (processCopyMemBlock L swap swap2 (k.proc p).mmCode k.machine).2.2)
    (f := fun pr => { pr with
      mmCode := (processCopyMemBlock L swap swap2 (k.proc p).mmCode k.machine).2.1 }) fun _ _ => rfl
  exact ite_map (congrArg (Prod.mk (-1)) hcode) (congrArg (Prod.mk 0) hcode)

theorem copyMemory_withHandlers (swap swap2 p new : Nat) (k : Kernel) :
    copyMemory L swap swap2 p new (k.withHandlers H) =
      retable H (copyMemory L swap swap2 p new k) := by
  unfold copyMemory
  rw [show ((k.withHandlers H).proc p).mmHeap = (k.proc p).mmHeap from rfl, copyMaps_withHandlers]
  generalize copyMaps L swap swap2 (k.proc p).mmHeap [] k = r
  dsimp only [retable]
  rw [withHandlers_modify fun _ _ => rfl]
  generalize r.2.2.modify new (fun pr => { pr with mmHeap := r.2.1 }) = k₁
  refine ite_map (f := retable H) rfl ?_
  rw [show ((k₁.withHandlers H).proc p).mmStack = (k₁.proc p).mmStack from rfl,
    copyMaps_withHandlers]
  generalize copyMaps L swap swap2 (k₁.proc p).mmStack [] k₁ = r
  have hstack := withHandlers_modify (k := r.2.2) (H := H) (p := new)
    (f := fun pr => { pr with mmStack := r.2.1 }) fun _ _ => rfl
  refine ite_map (congrArg (Prod.mk (-1)) hstack) ?_
  show copyCode L swap swap2 p new ((r.2.2.withHandlers H).modify new fun pr =>
    { pr with mmStack := r.2.1 }) = retable H (copyCode L swap swap2 p new _)
  rw [hstack, copyCode_withHandlers]

theorem copySignals_withHandlers (new : Nat) (queue : List SigQueue) (k : Kernel) :
    queue.foldl (fun k s => (addSignal s.sigHandled (some new) s.state k).2) (k.withHandlers H) =
      (queue.foldl (fun k s => (addSignal s.sigHandled (some new) s.state k).2)
        k).withHandlers H := by
  induction queue generalizing k with
  | nil => rfl
  | cons s queue ih =>
    rw [List.foldl_cons, List.foldl_cons, addSignal_withHandlers]
    exact ih _

theorem linkChild_withHandlers (p new : Nat) (k : Kernel) :
    linkChild p new (k.withHandlers H) = (linkChild p new k).withHandlers H := by
  unfold linkChild
  dsimp only [withHandlers_state, withHandlers_uid]
  rw [withHandlers_modify fun _ _ => rfl, withHandlers_modify fun _ _ => rfl]
  rfl

theorem copyProcess_withHandlers (swap swap2 p new : Nat) (k : Kernel) :
    copyProcess L swap swap2 p new (k.withHandlers H) =
      retable H (copyProcess L swap swap2 p new k) := by
  unfold copyProcess
  rw [processAllocPid_withHandlers]
  generalize processAllocPid new k = r
  refine ite_map rfl ?_
  rw [show (retable H r).2 = r.2.withHandlers H from rfl, copyMemory_withHandlers]
  generalize copyMemory L swap swap2 p new r.2 = r
  refine ite_map rfl ?_
  rw [show (retable H r).2 = r.2.withHandlers H from rfl, withHandlers_sigQueue,
    copySignals_withHandlers]
  dsimp only
  generalize (r.2.proc p).signal.sigQueue.foldl
    (fun k s => (addSignal s.sigHandled (some new) s.state k).2) r.2 = k₁
  rw [withHandlers_kmalloc]
  cases hm : k₁.kmalloc with
  | mk a k' =>
    cases a with
    | none => rfl
    | some _ => exact congrArg (Prod.mk 0) (linkChild_withHandlers p new k')

/-- The tables after the record of a new process is made. -/
def newTable (H : Nat → Nat → Option Shandler) (k : Kernel) : Nat → Nat → Option Shandler :=
  match k.kmallocs 0 with
  | none => H
  | some a => Function.update H a fun _ => none

theorem processNew_withHandlers (k : Kernel) :
    processNew (k.withHandlers H) = retable (newTable H k) (processNew k) := by
  have hrecord : ∀ (k : Kernel) (a : Nat), (k.withHandlers H).modify a (fun _ => Process.zero) =
      (k.modify a fun _ => Process.zero).withHandlers (Function.update H a fun _ => none) := by
    intro k a
    refine congrArg (fun P => { k with proc := P }) (funext fun q => ?_)
    by_cases hq : q = a
    · subst hq
      rw [Function.update_self, Function.update_self, modify_proc_self]
      rfl
    · rw [Function.update_of_ne hq, Function.update_of_ne hq, modify_proc_of_ne _ hq]
      rfl
  unfold processNew newTable
  rw [withHandlers_kmalloc]
  cases hm : k.kmalloc with
  | mk a k' =>
    have ha : k.kmallocs 0 = a := congrArg Prod.fst hm
    rw [ha]
    cases a with
    | none => rfl
    | some a => exact congrArg (Prod.mk (some a)) (hrecord k' a)

theorem fork_withHandlers (swap swap2 p : Nat) (k : Kernel) :
    fork L swap swap2 p (k.withHandlers H) = retable (newTable H k) (fork L swap swap2 p k) := by
  unfold fork
  rw [processNew_withHandlers]
  generalize newTable H k = H'
  cases processNew k with
  | mk a k' =>
    cases a with
    | none => rfl
    | some new =>
      dsimp only [retable]
      rw [copyProcess_withHandlers]
      generalize copyProcess L swap swap2 p new k' = r
      refine ite_map (f := retable H')
        (congrArg (Prod.mk r.1) (freeProcess_withHandlers new r.2)) ?_
      have hmodify := withHandlers_modify (k := r.2) (H := H') (p := new)
        (f := fun pr => { pr with father := some p }) fun _ _ => rfl
      have hpid := congrArg (fun k : Kernel => (k.proc new).pid) hmodify
      exact Prod.ext hpid hmodify

end agnostic

/-! ## The death of a process -/

section death

variable {k : Kernel} {H : Nat → Nat → Option Shandler} {L : Layout} {q : Nat}

/-- The father of `q` has a handler for `SIGCHLD` in both tables, or in none. -/
def FatherAgrees (H : Nat → Nat → Option Shandler) (q : Nat) (k : Kernel) : Prop :=
  ∀ f, (k.proc q).father = some f → (H f SIGCHLD).isSome = (k.handlers f SIGCHLD).isSome

theorem FatherAgrees.of_same {k₁ : Kernel}
    (hsame : Same (fun pr => (pr.father, pr.signal.sigHandler)) k k₁) (h : FatherAgrees H q k) :
    FatherAgrees H q k₁ := by
  intro f hf
  have hfather : (k₁.proc q).father = (k.proc q).father := hsame.field Prod.fst q
  rw [h f (hfather ▸ hf)]
  exact congrArg (fun T => (T SIGCHLD).isSome) (hsame.field Prod.snd f).symm

/-- A function that ignores the tables keeps them. -/
theorem handlers_of_agnostic {α : Type*} {F : Kernel → α × Kernel}
    (hF : ∀ H k, F (k.withHandlers H) = retable H (F k)) (k : Kernel) :
    (F k).2.handlers = k.handlers := by
  have h := hF k.handlers k
  rw [withHandlers_self] at h
  exact congrArg (fun r : α × Kernel => r.2.handlers) h

theorem notifyFather_withHandlers (h : FatherAgrees H q k) :
    notifyFather q (k.withHandlers H) = (notifyFather q k).withHandlers H := by
  have hzombie : ∀ k : Kernel, (k.withHandlers H).modify q (Process.setState .ZOMBIE) =
      (k.modify q (Process.setState .ZOMBIE)).withHandlers H := fun _ =>
    withHandlers_modify fun _ _ => rfl
  unfold notifyFather
  dsimp only [withHandlers_father]
  cases hf : (k.proc q).father with
  | none =>
    dsimp only
    rw [hzombie, freeProcess_withHandlers]
  | some f =>
    dsimp only
    have hkept := handlers_of_agnostic (fun H k =>
      addSignal_withHandlers (H := H) SIGCHLD (some f) SIG_SOFT k) k
    rw [addSignal_withHandlers]
    generalize addSignal SIGCHLD (some f) SIG_SOFT k = r at hkept
    have hslot : ((r.2.proc f).signal.sigHandler SIGCHLD).isSome = (H f SIGCHLD).isSome :=
      (congrArg Option.isSome (congrFun (congrFun hkept f) SIGCHLD)).trans (h f hf).symm
    refine ite_map_iff (Bool.eq_iff_iff.mp hslot.symm) ?_ (hzombie r.2)
    rw [← freeProcess_withHandlers, ← hzombie]
    rfl

theorem processDieSafe_withHandlers (h : FatherAgrees H q k) :
    processDieSafe L q (k.withHandlers H) = (processDieSafe L q k).withHandlers H := by
  unfold processDieSafe
  dsimp only
  rw [processFreeAllMemory_withHandlers, withHandlers_modify fun _ _ => rfl]
  have hsame : Same (fun pr => (pr.father, pr.signal.sigHandler)) k
      ((processFreeAllMemory L q k).modify q Process.clearQueue) :=
    (processFreeAllMemory_same (fun _ => rfl) L q k).trans (Same.modify _ q rfl)
  rw [notifyFather_withHandlers (h.of_same hsame)]
  exact ite_map rfl rfl

theorem exit_withHandlers (status : Nat) (h : FatherAgrees H q k) :
    exit L q status (k.withHandlers H) = (exit L q status k).withHandlers H := by
  unfold exit processDie
  rw [withHandlers_modify fun _ _ => rfl, processDieSafe_withHandlers]
  exact h.of_same (Same.modify k q rfl)

/-- The handlers that end their process. -/
def Shandler.Ends (h : Shandler) : Prop := h = .sigTerm ∨ h = .sigCore

instance (h : Shandler) : Decidable h.Ends := inferInstanceAs (Decidable (_ ∨ _))

theorem runHandler_withHandlers (h : Shandler) (signum : Nat)
    (hagrees : h.Ends → FatherAgrees H q k) :
    runHandler L h q signum (k.withHandlers H) = (runHandler L h q signum k).withHandlers H := by
  have hdie : h.Ends → ∀ v, processDie L q ((k.withHandlers H).modify q (Process.setEndValue v)) =
      (processDie L q (k.modify q (Process.setEndValue v))).withHandlers H := by
    intro hends v
    unfold processDie
    rw [withHandlers_modify fun _ _ => rfl, processDieSafe_withHandlers]
    exact (hagrees hends).of_same (Same.modify k q rfl)
  have hstate : ∀ v state, ((k.withHandlers H).modify q (Process.setEndValue v)).modify q
      (Process.setState state) =
      ((k.modify q (Process.setEndValue v)).modify q (Process.setState state)).withHandlers H := by
    intro v state
    rw [withHandlers_modify fun _ _ => rfl, withHandlers_modify fun _ _ => rfl]
  cases h with
  | sigTerm => exact hdie (.inl rfl) _
  | sigIgn => rfl
  | sigCore => exact hdie (.inr rfl) _
  | sigStop => exact hstate _ _
  | sigCont => exact hstate _ _
  | childEnded => exact childEnded_withHandlers q k
  | user addr => rfl

/-- The entry at the head of the queue of `q` and the handler that is called for it. -/
def Delivers (k : Kernel) (q : Nat) (s : SigQueue) (h : Shandler) : Prop :=
  (k.proc q).signal.sigQueue.head? = some s ∧ handlerFor (k.proc q) s = some h

theorem sendSignal_withHandlers
    (hhandler : ∀ s, handlerFor ((k.withHandlers H).proc q) s = handlerFor (k.proc q) s)
    (hagrees : ∀ s h, Delivers k q s h → h.Ends → FatherAgrees H q k) :
    sendSignal L q (k.withHandlers H) = (sendSignal L q k).map (Kernel.withHandlers H) := by
  unfold sendSignal
  dsimp only [withHandlers_sigQueue]
  cases hq : (k.proc q).signal.sigQueue with
  | nil => rfl
  | cons s rest =>
    dsimp only
    refine ite_map (f := Option.map (Kernel.withHandlers H))
      (congrArg some (withHandlers_modify fun _ _ => rfl)) (ite_map rfl ?_)
    rw [hhandler, Option.map_map]
    cases hh : handlerFor (k.proc q) s with
    | none => rfl
    | some h =>
      refine congrArg some ?_
      dsimp only [Function.comp]
      rw [runHandler_withHandlers h s.sigHandled (hagrees s h ⟨by rw [hq]; rfl, hh⟩)]
      generalize runHandler L h q s.sigHandled k = k₁
      exact ite_map rfl (withHandlers_modify fun _ _ => rfl)

end death

/-! ## Two runs -/

/-- The two kernels differ at most in one slot, that of `p` for `signum`, which is empty in the
first one and holds the default handler in the second one. -/
def Twin (p signum : Nat) (k k' : Kernel) : Prop :=
  ∃ H, k' = k.withHandlers H ∧ ∀ q s, H q s = k.handlers q s ∨
    (q = p ∧ s = signum ∧ k.handlers q s = none ∧ H q s = sigHandler[s]?)

namespace Twin

variable {p signum : Nat} {k k' : Kernel} {L : Layout}

/-- Every function that ignores the tables keeps the kernels twins. -/
theorem agnostic {α : Type*} {F : Kernel → α × Kernel}
    (hF : ∀ H k, F (k.withHandlers H) = retable H (F k)) (h : Twin p signum k k') :
    (F k).1 = (F k').1 ∧ Twin p signum (F k).2 (F k').2 := by
  obtain ⟨H, rfl, hclose⟩ := h
  rw [hF]
  refine ⟨rfl, H, rfl, ?_⟩
  rw [handlers_of_agnostic hF]
  exact hclose

/-- A new process has an empty table in both kernels. -/
theorem fork (swap swap2 q : Nat) (h : Twin p signum k k') :
    (Moonlight.fork L swap swap2 q k).1 = (Moonlight.fork L swap swap2 q k').1 ∧
      Twin p signum (Moonlight.fork L swap swap2 q k).2 (Moonlight.fork L swap swap2 q k').2 := by
  obtain ⟨H, rfl, hclose⟩ := h
  have hown := fork_withHandlers (H := k.handlers) (L := L) swap swap2 q k
  rw [withHandlers_self] at hown
  have hown : (Moonlight.fork L swap swap2 q k).2.handlers = newTable k.handlers k :=
    congrArg (fun r : Int × Kernel => r.2.handlers) hown
  rw [fork_withHandlers]
  refine ⟨rfl, newTable H k, rfl, ?_⟩
  rw [hown]
  unfold newTable
  cases k.kmallocs 0 with
  | none => exact hclose
  | some a =>
    intro x s
    dsimp only
    by_cases hx : x = a
    · subst hx
      rw [Function.update_self, Function.update_self]
      exact .inl rfl
    · rw [Function.update_of_ne hx, Function.update_of_ne hx]
      exact hclose x s

/-- The fathers agree on `SIGCHLD`, but for `p` when that is the signal. -/
theorem fatherAgrees {H : Nat → Nat → Option Shandler} {q : Nat}
    (hclose : ∀ q s, H q s = k.handlers q s ∨
      (q = p ∧ s = signum ∧ k.handlers q s = none ∧ H q s = sigHandler[s]?))
    (hspare : signum = SIGCHLD → (k.proc q).father ≠ some p) : FatherAgrees H q k := by
  intro f hf
  rcases hclose f SIGCHLD with heq | ⟨rfl, hs, -⟩
  · rw [heq]
  · exact absurd hf (hspare hs.symm)

theorem exit {q : Nat} (status : Nat) (h : Twin p signum k k')
    (hspare : signum = SIGCHLD → (k.proc q).father ≠ some p) :
    Twin p signum (Moonlight.exit L q status k) (Moonlight.exit L q status k') := by
  obtain ⟨H, rfl, hclose⟩ := h
  have hown := exit_withHandlers (H := k.handlers) (L := L) (k := k) (q := q) status fun _ _ => rfl
  rw [withHandlers_self] at hown
  have hown : (Moonlight.exit L q status k).handlers = k.handlers :=
    (congrArg Kernel.handlers hown).trans rfl
  refine ⟨H, exit_withHandlers status (fatherAgrees hclose hspare), ?_⟩
  rw [hown]
  exact hclose

/-- The same handler is called in both kernels. -/
theorem handlerFor_eq {H : Nat → Nat → Option Shandler} {q : Nat}
    (hclose : ∀ q s, H q s = k.handlers q s ∨
      (q = p ∧ s = signum ∧ k.handlers q s = none ∧ H q s = sigHandler[s]?)) (s : SigQueue) :
    handlerFor ((k.withHandlers H).proc q) s = handlerFor (k.proc q) s := by
  have hslot : ((k.withHandlers H).proc q).signal.sigHandler s.sigHandled = H q s.sigHandled := rfl
  have hslot' : (k.proc q).signal.sigHandler s.sigHandled = k.handlers q s.sigHandled := rfl
  unfold handlerFor
  rw [hslot, hslot']
  rcases hclose q s.sigHandled with heq | ⟨-, -, hnone, hdefault⟩
  · rw [heq]
  · rw [hnone, hdefault]
    cases sigHandler[s.sigHandled]? <;> rfl

theorem sendSignal {q : Nat} (h : Twin p signum k k')
    (hspare : signum = SIGCHLD → ∀ s handler, Delivers k q s handler → handler.Ends →
      (k.proc q).father ≠ some p) :
    Option.Rel (Twin p signum) (Moonlight.sendSignal L q k) (Moonlight.sendSignal L q k') := by
  obtain ⟨H, rfl, hclose⟩ := h
  have hown := sendSignal_withHandlers (H := k.handlers) (L := L) (k := k) (q := q)
    (fun _ => rfl) fun _ _ _ _ _ _ => rfl
  rw [withHandlers_self] at hown
  rw [sendSignal_withHandlers (handlerFor_eq hclose) fun s handler hd he =>
    fatherAgrees hclose fun hs => hspare hs s handler hd he]
  cases hk : Moonlight.sendSignal L q k with
  | none => exact .none
  | some k₁ =>
    rw [hk] at hown
    have hown : k₁.handlers = k.handlers :=
      (congrArg Kernel.handlers (Option.some.inj hown)).trans rfl
    refine .some ⟨H, rfl, ?_⟩
    rw [hown]
    exact hclose

end Twin

/-! ## The calls -/

/-- The calls of the two runs. -/
inductive FamilyOp where
  | fork (swap swap2 q : Nat)
  | exit (q status : Nat)
  | kill (proc : Nat) (pid sig : Int)
  | addSignal (sig : Int) (q type : Nat)
  | sendSignal (q : Nat)
  | waitpid (q : Nat) (pid : Int) (option : Nat)

/-- What a call gives its caller. -/
inductive CallResult where
  | done
  | code (ret : Int)
  | reply (r : WaitResult)
  deriving DecidableEq

def familyStep (L : Layout) : FamilyOp → Kernel → Option (CallResult × Kernel)
  | .fork swap swap2 q, k => let r := fork L swap swap2 q k; some (.code r.1, r.2)
  | .exit q status, k => some (.done, exit L q status k)
  | .kill proc pid sig, k => let r := kill proc pid sig k; some (.code r.1, r.2)
  | .addSignal sig q type, k => let r := addSignal sig (some q) type k; some (.code r.1, r.2)
  | .sendSignal q, k => (sendSignal L q k).map fun k => (.done, k)
  | .waitpid q pid option, k => let r := processWaitpid q pid option k; some (.reply r.1, r.2)

/-- The call ends no child of `p`. -/
def FamilyOp.Spares (p : Nat) : FamilyOp → Kernel → Prop
  | .exit q _, k => (k.proc q).father ≠ some p
  | .sendSignal q, k => ∀ s handler, Delivers k q s handler → handler.Ends →
      (k.proc q).father ≠ some p
  | _, _ => True

/-- What is seen of a run: the results of the calls, and the states of the processes after them. -/
def seen (L : Layout) (ops : List FamilyOp) (k : Kernel) :
    Option (List CallResult × (Nat → ProcState)) :=
  (results (familyStep L) ops k).map fun r => (r.1, fun q => (r.2.proc q).state)

section neutral

variable {L : Layout} {p signum : Nat} {k k' : Kernel}

/-- **One call** of twins gives the same result and twins. -/
theorem familyStep_twin (op : FamilyOp) (h : Twin p signum k k')
    (hspare : signum = SIGCHLD → op.Spares p k) :
    Option.Rel (fun x y => x.1 = y.1 ∧ Twin p signum x.2 y.2) (familyStep L op k)
      (familyStep L op k') := by
  cases op with
  | fork swap swap2 q =>
    obtain ⟨hret, hrel⟩ := h.fork (L := L) swap swap2 q
    exact .some ⟨congrArg CallResult.code hret, hrel⟩
  | exit q status => exact .some ⟨rfl, h.exit status hspare⟩
  | kill proc pid sig =>
    obtain ⟨hret, hrel⟩ := h.agnostic fun _ => kill_withHandlers proc pid sig
    exact .some ⟨congrArg CallResult.code hret, hrel⟩
  | addSignal sig q type =>
    obtain ⟨hret, hrel⟩ := h.agnostic fun _ => addSignal_withHandlers sig (some q) type
    exact .some ⟨congrArg CallResult.code hret, hrel⟩
  | sendSignal q =>
    show Option.Rel _ ((sendSignal L q k).map _) ((sendSignal L q k').map _)
    rcases rel_iff.mp (h.sendSignal (L := L) hspare) with ⟨hk, hk'⟩ | ⟨k₁, k₂, hk, hk', hrel⟩
    · rw [hk, hk']
      exact .none
    · rw [hk, hk']
      exact .some ⟨rfl, hrel⟩
  | waitpid q pid option =>
    obtain ⟨hret, hrel⟩ := h.agnostic fun _ => processWaitpid_withHandlers q pid option
    exact .some ⟨congrArg CallResult.reply hret, hrel⟩

/-- `signal` with `SIG_DFL` over an empty slot. -/
theorem signal_default (hsig : 1 ≤ signum ∧ signum ≤ 31)
    (hother : signum ≠ SIGKILL ∧ signum ≠ SIGSTOP)
    (hnull : (k.proc p).signal.sigHandler signum = none) {d : Shandler}
    (hd : sigHandler[signum]? = some d) : signal p signum SIG_DFL k =
      some (SIG_DFL, k.modify p (Process.setHandler signum (some d))) := by
  have hrange : ¬ ((signum : Int) < 0 ∨ (SIG_TABLE : Int) ≤ signum) := by
    unfold SIG_TABLE
    omega
  have hstore : ¬ ((signum : Int) = SIGKILL ∨ (signum : Int) = SIGSTOP) := by
    rw [Int.natCast_inj, Int.natCast_inj]
    exact not_or.mpr hother
  unfold signal storeHandler
  rw [if_pos rfl, if_neg (fun hneg => hrange (.inl hneg)), Int.toNat_natCast, hd]
  dsimp only
  rw [if_neg hstore, if_neg hrange, hnull]
  rfl

/-- It makes a twin. -/
theorem setHandler_twin (hnull : (k.proc p).signal.sigHandler signum = none) {d : Shandler}
    (hd : sigHandler[signum]? = some d) :
    Twin p signum k (k.modify p (Process.setHandler signum (some d))) := by
  refine ⟨(k.modify p (Process.setHandler signum (some d))).handlers, ?_, fun q s => ?_⟩
  · refine congrArg (fun P => { k with proc := P }) (funext fun q => ?_)
    by_cases hq : q = p
    · subst hq
      rw [Function.update_self]
      unfold handlers
      rw [modify_proc_self]
      rfl
    · rw [Function.update_of_ne hq]
      unfold handlers
      rw [modify_proc_of_ne _ hq]
      rfl
  · unfold handlers
    by_cases hq : q = p
    · subst hq
      rw [modify_proc_self]
      by_cases hs : s = signum
      · subst hs
        exact .inr ⟨rfl, rfl, hnull, (Function.update_self ..).trans hd.symm⟩
      · exact .inl (Function.update_of_ne hs ..)
    · rw [modify_proc_of_ne _ hq]
      exact .inl rfl

end neutral

/-- **Setting a signal to its default is neutral** as long as it is not `SIGCHLD`, or no child of
the process ends. -/
theorem signal_default_neutral {L : Layout} {p signum : Nat} {k : Kernel}
    (hsig : 1 ≤ signum ∧ signum ≤ 31) (hother : signum ≠ SIGKILL ∧ signum ≠ SIGSTOP)
    (hnull : (k.proc p).signal.sigHandler signum = none) {ops : List FamilyOp}
    (hspare : Guarded (familyStep L) (fun op k => signum = SIGCHLD → op.Spares p k) ops k) :
    ∃ k', signal p signum SIG_DFL k = some (SIG_DFL, k') ∧ seen L ops k' = seen L ops k := by
  have hlength : signum < sigHandler.length := Nat.lt_of_le_of_lt hsig.2 (by decide)
  have hd := List.getElem?_eq_getElem hlength
  refine ⟨_, signal_default hsig hother hnull hd, ?_⟩
  have hrel := results_rel (fun op _ _ h hs => familyStep_twin op h hs) (setHandler_twin hnull hd)
    hspare
  unfold seen
  rcases rel_iff.mp hrel with ⟨hk, hk'⟩ | ⟨x, y, hk, hk', hres, H, hy, -⟩
  · rw [hk, hk']
  · rw [hk, hk', Option.map_some, Option.map_some, hres, hy]
    rfl

/-- `init` leaves signal 15 alone, or sets it to its default: its child exits and is waited for. -/
theorem default_sigterm_neutral : ∃ k', signal 100 15 SIG_DFL Kernel.family = some (SIG_DFL, k') ∧
    seen .sample [.exit 103 3, .waitpid 100 2 WNOHANG] k' =
      seen .sample [.exit 103 3, .waitpid 100 2 WNOHANG] Kernel.family :=
  signal_default_neutral (by decide) (by decide) (by decide +kernel)
    ⟨fun h => absurd h (by decide), fun _ _ => ⟨fun h => absurd h (by decide), fun _ _ => trivial⟩⟩

/-- With `SIGCHLD` set to its default the child is gone when it is waited for. -/
theorem default_sigchld_loses_child :
    (Kernel.family.proc 100).signal.sigHandler SIGCHLD = none ∧
      ∃ k', signal 100 SIGCHLD SIG_DFL Kernel.family = some (SIG_DFL, k') ∧
        ((seen .sample [.exit 103 3, .waitpid 100 2 WNOHANG] Kernel.family).map Prod.fst =
          some [.done, .reply ⟨2, some 768⟩]) ∧
        ((seen .sample [.exit 103 3, .waitpid 100 2 WNOHANG] k').map Prod.fst =
          some [.done, .reply ⟨-ECHILD, none⟩]) := by
  have hnull : (Kernel.family.proc 100).signal.sigHandler SIGCHLD = none := by decide +kernel
  refine ⟨hnull, _, signal_default (by decide) (by decide) hnull rfl, ?_, ?_⟩
  · decide +kernel
  · decide +kernel

end Moonlight
