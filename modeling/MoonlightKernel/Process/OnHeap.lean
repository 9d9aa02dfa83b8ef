import MoonlightKernel.Process.WholeLife

/-!
# The kernel with and without its heap

The functions that end, signal and reap a process are there twice: on a stream of answers of
`kmalloc`, and on the kernel's heap.  Both do the same to the processes: where the heap answers a
call, a stream that gives the same answer leads to the same processes, whatever the machine is.

* `Kernel.on` — a kernel with another machine and other answers;
* `Follows` — a function on the stream does what has happened on the heap;
* `addSignal_follows`, `exit_follows`, `sendSignal_follows`, `processWaitpid_follows` — the
  functions;
* `life_follows` — a whole life on the heap is one on a stream.

The frames of a copied map depend on which frames the heap has taken, so `fork` is not among them.
-/

set_option autoImplicit false

namespace Moonlight

open Sys Sys.Bitmap

/-! ## Out of view -/

/-- The kernel with the machine `m`, whose calls of `kmalloc` are answered by `s`. -/
def Kernel.on (k : Kernel) (m : Machine) (s : Nat → Option Nat) : Kernel :=
  { k with machine := m, kmallocs := s }

/-- One answer, and then others. -/
def answerWith (a : Option Nat) (s : Nat → Option Nat) : Nat → Option Nat
  | 0 => a
  | i + 1 => s i

theorem Kernel.kmalloc_on (k : Kernel) (m : Machine) (a : Option Nat) (s : Nat → Option Nat) :
    (k.on m (answerWith a s)).kmalloc = (a, k.on m s) := rfl

section on

variable (k : Kernel) (m : Machine) (s : Nat → Option Nat)

theorem moveOrphan_on (children : List Nat) :
    children.foldl moveOrphan (k.on m s) = (children.foldl moveOrphan k).on m s := by
  induction children generalizing k with
  | nil => rfl
  | cons c children ih =>
    have hone : moveOrphan (k.on m s) c = (moveOrphan k c).on m s := by
      unfold moveOrphan
      have hinit : processGetWithPid (k.on m s) 1 = processGetWithPid k 1 := rfl
      rw [hinit]
      cases processGetWithPid k 1 <;> rfl
    rw [List.foldl_cons, List.foldl_cons, hone, ih]

theorem freeProcess_on (p : Nat) :
    freeProcess p (k.on m s) = (freeProcess p k).on m s := by
  unfold freeProcess
  have hfather : ((k.on m s).proc p).father = (k.proc p).father := rfl
  dsimp only
  rw [hfather]
  cases (k.proc p).father with
  | none =>
    exact congrArg (fun k => k.modify p fun pr => { pr with children := [] })
      (moveOrphan_on { k with processList := k.processList.erase p } m s _)
  | some f =>
    exact congrArg (fun k => k.modify p fun pr => { pr with children := [] })
      (moveOrphan_on (Kernel.modify { k with processList := k.processList.erase p } f
        fun pr => { pr with children := pr.children.erase p }) m s _)

end on

namespace World

variable {L : Layout} {word : Machine → Nat → Nat} {w u v : World} {f g : Kernel → Kernel}

/-- What `f` does to the processes of `w` is what they are in `u`.  The answers that are left
afterwards are `s'`. -/
def Follows (f : Kernel → Kernel) (w u : World) : Prop :=
  ∀ s', ∃ s, ∀ m, ∃ m', f (w.kernel.on m s) = u.kernel.on m' s'

namespace Follows

/-- A function without calls of `kmalloc`. -/
theorem steady (h : ∀ m s, ∃ m', f (w.kernel.on m s) = u.kernel.on m' s) : Follows f w u :=
  fun s' => ⟨s', fun m => h m s'⟩

theorem congr (h : Follows g w u) (hfg : ∀ m s, f (w.kernel.on m s) = g (w.kernel.on m s)) :
    Follows f w u := by
  intro s'
  obtain ⟨s, hs⟩ := h s'
  exact ⟨s, fun m => by rw [hfg]; exact hs m⟩

theorem comp (h : Follows f w u) (h' : Follows g u v) : Follows (fun k => g (f k)) w v := by
  intro s'
  obtain ⟨s₁, h₁⟩ := h' s'
  obtain ⟨s, hs⟩ := h s₁
  refine ⟨s, fun m => ?_⟩
  obtain ⟨m₁, he⟩ := hs m
  obtain ⟨m', he'⟩ := h₁ m₁
  exact ⟨m', (congrArg g he).trans he'⟩

theorem modify (w : World) (p : Nat) (f : Process → Process) :
    Follows (fun k => k.modify p f) w (w.modify p f) := .steady fun m _ => ⟨m, rfl⟩

end Follows

/-! ## The functions -/

/-- **`add_signal`** with the answer of the heap. -/
theorem addSignal_follows (L : Layout) (word : Machine → Nat → Nat) (sig : Int) (proc : Option Nat)
    (type : Nat) (w : World) (s' : Nat → Option Nat) : ∃ s, ∀ m, ∃ m',
    Moonlight.addSignal sig proc type (w.kernel.on m s) =
      ((w.addSignal L word sig proc type).1,
        (w.addSignal L word sig proc type).2.kernel.on m' s') := by
  unfold addSignal Moonlight.addSignal
  by_cases h₁ : sig = 0
  · rw [if_pos h₁]
    exact ⟨s', fun m => ⟨m, if_pos h₁⟩⟩
  rw [if_neg h₁]
  simp only [if_neg h₁]
  by_cases h₂ : (type &&& SIG_HARD ≠ 0 ∧ type &&& SIG_SOFT ≠ 0) ∨
      (type &&& SIG_HARD = 0 ∧ type &&& SIG_SOFT = 0)
  · rw [if_pos h₂]
    exact ⟨s', fun m => ⟨m, if_pos h₂⟩⟩
  rw [if_neg h₂]
  simp only [if_neg h₂]
  cases proc with
  | none => exact ⟨s', fun m => ⟨m, rfl⟩⟩
  | some p =>
    dsimp only
    by_cases h₃ : (w.kernel.proc p).state = .ZOMBIE
    · rw [if_pos h₃]
      exact ⟨s', fun m => ⟨m, if_pos h₃⟩⟩
    rw [if_neg h₃]
    by_cases h₄ : sig < 0 ∨ sig > 34
    · rw [if_pos h₄]
      exact ⟨s', fun m => ⟨m, (if_neg h₃).trans (if_pos h₄)⟩⟩
    rw [if_neg h₄]
    by_cases h₅ : type &&& SIG_HARD = 0 ∧
        SIG_UNAVAILABLE (w.kernel.proc p).signal.sigAvalaible sig.toNat
    · rw [if_pos h₅]
      exact ⟨s', fun m => ⟨m, (if_neg h₃).trans ((if_neg h₄).trans (if_pos h₅))⟩⟩
    rw [if_neg h₅]
    refine ⟨answerWith (w.kmalloc L word sizeofSigQueue).1 s', fun m => ⟨m, ?_⟩⟩
    refine (if_neg h₃).trans ((if_neg h₄).trans ((if_neg h₅).trans ?_))
    rw [Kernel.kmalloc_on]
    rcases w.kmalloc_cases L word sizeofSigQueue with
      ⟨u, he, -, hsame, -⟩ | ⟨a, u, he, -, -, hsame, -⟩
    · rw [he]
      dsimp only
      rw [hsame.kernel]
      rfl
    · rw [he]
      dsimp only
      rw [modify_kernel, hsame.kernel]
      rfl

theorem addSignal_follows_state (L : Layout) (word : Machine → Nat → Nat) (sig : Int)
    (proc : Option Nat) (type : Nat) (w : World) :
    Follows (fun k => (Moonlight.addSignal sig proc type k).2) w
      (w.addSignal L word sig proc type).2 := by
  intro s'
  obtain ⟨s, hs⟩ := addSignal_follows L word sig proc type w s'
  refine ⟨s, fun m => ?_⟩
  obtain ⟨m', he⟩ := hs m
  exact ⟨m', congrArg Prod.snd he⟩

theorem freeProcess_follows (L : Layout) (word : Machine → Nat → Nat) (p : Nat) (w : World) :
    Follows (Moonlight.freeProcess p) w (w.freeProcess L word p) :=
  .steady fun m s => ⟨m, by rw [freeProcess_on, freeProcess_kernel]; rfl⟩

/-- **`process_free_all_memory`**: what is left of the maps is the code record. -/
theorem processFreeAllMemory_follows (L : Layout) (word : Machine → Nat → Nat) (p : Nat) (w : World) :
    Follows (Moonlight.processFreeAllMemory L p) w (w.processFreeAllMemory L word p) := by
  refine .steady fun m s => ⟨(Moonlight.processFreeAllMemory L p (w.kernel.on m s)).machine, ?_⟩
  rw [(w.processFreeAllMemory_stores L word p).1]
  rfl

theorem notifyFather_follows (L : Layout) (word : Machine → Nat → Nat) (p : Nat) (w : World) :
    Follows (Moonlight.notifyFather p) w (w.notifyFather L word p) := by
  have hdead (w : World) :
      Follows (fun k => Moonlight.freeProcess p (k.modify p (Process.setState .ZOMBIE))) w
        ((w.modify p (Process.setState .ZOMBIE)).freeProcess L word p) :=
    (Follows.modify w p _).comp (freeProcess_follows L word p _)
  unfold World.notifyFather
  cases hf : (w.kernel.proc p).father with
  | none =>
    refine (hdead w).congr fun m s => ?_
    have hf' : ((w.kernel.on m s).proc p).father = none := hf
    rw [Moonlight.notifyFather, hf']
  | some f =>
    have hsignal := addSignal_follows_state L word SIGCHLD (some f) SIG_SOFT w
    dsimp only
    generalize (w.addSignal L word SIGCHLD (some f) SIG_SOFT).2 = u at hsignal ⊢
    have hrest : Follows (fun k => if ((k.proc f).signal.sigHandler SIGCHLD).isSome
        then Moonlight.freeProcess p (k.modify p (Process.setState .ZOMBIE))
        else k.modify p (Process.setState .ZOMBIE)) u
        (if ((u.kernel.proc f).signal.sigHandler SIGCHLD).isSome
          then (u.modify p (Process.setState .ZOMBIE)).freeProcess L word p
          else u.modify p (Process.setState .ZOMBIE)) := by
      by_cases hh : ((u.kernel.proc f).signal.sigHandler SIGCHLD).isSome
      · rw [if_pos hh]
        exact (hdead u).congr fun m s => if_pos hh
      · rw [if_neg hh]
        exact (Follows.modify u p _).congr fun m s => if_neg hh
    refine (hsignal.comp hrest).congr fun m s => ?_
    have hf' : ((w.kernel.on m s).proc p).father = some f := hf
    rw [Moonlight.notifyFather, hf']

theorem processDie_follows (L : Layout) (word : Machine → Nat → Nat) (p : Nat) (w : World) :
    Follows (Moonlight.processDie L p) w (w.processDie L word p) := by
  have hdead := ((processFreeAllMemory_follows L word p w).comp
    (Follows.modify _ p Process.clearQueue)).comp (notifyFather_follows L word p _)
  unfold World.processDie processDieSafe
  dsimp only
  generalize ((w.processFreeAllMemory L word p).modify p Process.clearQueue).notifyFather L word p = u
    at hdead ⊢
  have hrest : Follows (fun k => if k.current = some p then { k with current := none } else k) u
      (if u.kernel.current = some p then u.setKernel { u.kernel with current := none } else u) := by
    by_cases hc : u.kernel.current = some p
    · rw [if_pos hc]
      exact .steady fun m s => ⟨m, if_pos hc⟩
    · rw [if_neg hc]
      exact .steady fun m s => ⟨m, if_neg hc⟩
  exact hdead.comp hrest

/-- **`exit`.** -/
theorem exit_follows (L : Layout) (word : Machine → Nat → Nat) (p status : Nat) (w : World) :
    Follows (Moonlight.exit L p status) w (w.exit L word p status) :=
  (Follows.modify w p _).comp (processDie_follows L word p _)

/-! ## Reaping and delivery -/

theorem endOfChild_follows (L : Layout) (word : Machine → Nat → Nat) (child father : Nat) (w : World)
    (m : Machine) (s : Nat → Option Nat) :
    Moonlight.endOfChild child father (w.kernel.on m s) =
      (w.endOfChild L word child father).kernel.on m s := by
  have hfree := freeProcess_on (w.modify father (Process.setReply (w.kernel.proc child).pid
    (w.kernel.proc child).endValue)).kernel m s child
  unfold endOfChild Moonlight.endOfChild
  dsimp only
  rw [modify_kernel, freeProcess_kernel]
  exact congrArg (fun k => k.modify father (Process.setState .RUN)) hfree

theorem childEnded_follows (L : Layout) (word : Machine → Nat → Nat) (p : Nat) (w : World) :
    Follows (Moonlight.childEnded p) w (w.childEnded L word p) := by
  refine .steady fun m s => ⟨m, ?_⟩
  unfold childEnded Moonlight.childEnded
  have hfind : ((w.kernel.on m s).proc p).children.find? (fun c => Reapable (w.kernel.on m s) p c) =
      (w.kernel.proc p).children.find? fun c => Reapable w.kernel p c := rfl
  rw [hfind]
  cases (w.kernel.proc p).children.find? fun c => Reapable w.kernel p c with
  | none => rfl
  | some c => exact endOfChild_follows L word c p w m s

/-- **`process_waitpid`** has the same result and reply. -/
theorem processWaitpid_follows (L : Layout) (word : Machine → Nat → Nat) (p : Nat) (pid : Int)
    (option : Nat) (w : World) (m : Machine) (s : Nat → Option Nat) :
    Moonlight.processWaitpid p pid option (w.kernel.on m s) =
      ((w.processWaitpid L word p pid option).1,
        (w.processWaitpid L word p pid option).2.kernel.on m s) := by
  unfold processWaitpid Moonlight.processWaitpid
  dsimp only
  by_cases h₁ : pid = 0 ∨ pid < -1
  · rw [if_pos h₁, if_pos h₁]
  rw [if_neg h₁, if_neg h₁]
  by_cases h₂ : ((w.kernel.proc p).waitingPid = pid ∨ pid = -1) ∧ (w.kernel.proc p).waitingReturn ≠ 0
  · rw [if_pos h₂]
    exact if_pos h₂
  rw [if_neg h₂]
  refine (if_neg h₂).trans ?_
  have hcandidate : waitCandidate (w.kernel.on m s) p pid = waitCandidate w.kernel p pid := rfl
  rw [hcandidate]
  cases waitCandidate w.kernel p pid with
  | none =>
    dsimp only
    by_cases h₃ : pid ≤ 0 ∧ (w.kernel.proc p).children ≠ []
    · rw [if_pos h₃]
      refine (if_pos h₃).trans ?_
      split
      · rfl
      · rfl
    · rw [if_neg h₃]
      exact if_neg h₃
  | some c =>
    dsimp only
    by_cases h₃ : (w.kernel.proc c).state = .ZOMBIE
    · rw [if_pos h₃]
      refine (if_pos h₃).trans ?_
      rw [endOfChild_follows L word c p w m s]
      rfl
    · rw [if_neg h₃]
      refine (if_neg h₃).trans ?_
      split
      · rfl
      · rfl

theorem runHandler_follows (L : Layout) (word : Machine → Nat → Nat) (h : Shandler) (p signum : Nat)
    (w : World) : Follows (Moonlight.runHandler L h p signum) w (w.runHandler L word h p signum) := by
  cases h with
  | sigTerm => exact (Follows.modify w p _).comp (processDie_follows L word p _)
  | sigIgn => exact .steady fun m s => ⟨m, rfl⟩
  | sigCore => exact (Follows.modify w p _).comp (processDie_follows L word p _)
  | sigStop => exact (Follows.modify w p _).comp (Follows.modify _ p _)
  | sigCont => exact (Follows.modify w p _).comp (Follows.modify _ p _)
  | childEnded => exact childEnded_follows L word p w
  | user a => exact .steady fun m s => ⟨m, rfl⟩

/-- **`send_signal`.** -/
theorem sendSignal_follows {p : Nat} (h : w.sendSignal L word p = some u) (s' : Nat → Option Nat) :
    ∃ s, ∀ m, ∃ m', Moonlight.sendSignal L p (w.kernel.on m s) = some (u.kernel.on m' s') := by
  have hqueue (m : Machine) (s : Nat → Option Nat) :
      ((w.kernel.on m s).proc p).signal.sigQueue = (w.kernel.proc p).signal.sigQueue := rfl
  unfold sendSignal at h
  unfold Moonlight.sendSignal
  cases hq : (w.kernel.proc p).signal.sigQueue with
  | nil =>
    rw [hq] at h
    cases h
    exact ⟨s', fun m => ⟨m, by rw [hqueue, hq]⟩⟩
  | cons e rest =>
    rw [hq] at h
    dsimp only at h
    by_cases hz : (w.kernel.proc p).state = .ZOMBIE
    · rw [if_pos hz] at h
      cases h
      exact ⟨s', fun m => ⟨m, by rw [hqueue, hq]; exact if_pos hz⟩⟩
    by_cases hx : e.state = SIG_EXECUTING
    · rw [if_neg hz, if_pos hx] at h
      cases h
      exact ⟨s', fun m => ⟨m, by rw [hqueue, hq]; exact (if_neg hz).trans (if_pos hx)⟩⟩
    rw [if_neg hz, if_neg hx, Option.map_eq_some_iff] at h
    obtain ⟨a, ha, hu⟩ := h
    have hrun := runHandler_follows L word a p e.sigHandled w
    generalize w.runHandler L word a p e.sigHandled = v at hrun hu
    have hrest : Follows (fun k => if (k.proc p).state = .ZOMBIE then k
        else k.modify p fun pr => (pr.unblock e.sigHandled).popSignal) v u := by
      by_cases hv : (v.kernel.proc p).state = .ZOMBIE
      · rw [if_pos hv] at hu
        cases hu
        exact .steady fun m s => ⟨m, if_pos hv⟩
      · rw [if_neg hv] at hu
        cases hu
        exact (Follows.modify v p _).congr fun m s => if_neg hv
    obtain ⟨s, hs⟩ := hrun.comp hrest s'
    refine ⟨s, fun m => ?_⟩
    obtain ⟨m', he⟩ := hs m
    have ha' : handlerFor ((w.kernel.on m s).proc p) e = some a := ha
    refine ⟨m', ?_⟩
    rw [hqueue, hq]
    refine (if_neg hz).trans ((if_neg hx).trans ?_)
    rw [ha']
    exact congrArg some he

/-! ## Lives -/

/-- The function on the stream for a step in the life of the child `new` of `p`; `paging` is out of
view, and `memory` has no function. -/
def LifeOp.onStream (L : Layout) (p new : Nat) : LifeOp → Kernel → Kernel
  | .exit status => Moonlight.exit L new status
  | .addSignal sig q type => fun k => (Moonlight.addSignal sig (some q) type k).2
  | .deliverChild => fun k => (Moonlight.sendSignal L new k).getD k
  | .deliverParent => fun k => (Moonlight.sendSignal L p k).getD k
  | .setHandler q signum h => fun k => k.modify q (Process.setHandler signum h)
  | .waitpid pid option => fun k => (Moonlight.processWaitpid p pid option k).2
  | .schedule c => fun k => { k with current := c }
  | .paging => id
  | .memory => id

theorem deliver_follows {p : Nat} (h : w.sendSignal L word p = some u) :
    Follows (fun k => (Moonlight.sendSignal L p k).getD k) w u := by
  intro s'
  obtain ⟨s, hs⟩ := sendSignal_follows h s'
  refine ⟨s, fun m => ?_⟩
  obtain ⟨m', he⟩ := hs m
  exact ⟨m', congrArg (fun k => k.getD (w.kernel.on m s)) he⟩

/-- **One step** on the heap is one on the stream. -/
theorem lifeStep_follows {p new : Nat} {op : LifeOp} (hop : op ≠ .memory)
    (hs : lifeStep L word p new w op u) : Follows (op.onStream L p new) w u := by
  cases op with
  | exit status =>
    obtain ⟨-, rfl⟩ := hs
    exact exit_follows L word new status w
  | addSignal sig q type =>
    cases hs
    exact addSignal_follows_state L word sig (some q) type w
  | deliverChild => exact deliver_follows hs.2
  | deliverParent => exact deliver_follows hs.1
  | setHandler q signum h =>
    cases hs
    exact Follows.modify w q _
  | waitpid pid option =>
    obtain ⟨rfl, -⟩ := hs
    exact .steady fun m s => ⟨m, congrArg Prod.snd (processWaitpid_follows L word p pid option w m s)⟩
  | schedule c =>
    cases hs
    exact .steady fun m s => ⟨m, rfl⟩
  | paging =>
    obtain ⟨m', -, rfl⟩ := hs
    exact .steady fun m s => ⟨m, rfl⟩
  | memory => exact absurd rfl hop

/-- **A life on the heap** is one on a stream of answers, up to what the child does to its maps. -/
theorem life_follows {p new : Nat} {ops : List LifeOp}
    (hrun : Run (lifeStep L word p new) w ops u) (hops : ∀ op ∈ ops, op ≠ .memory) :
    Follows (fun k => ops.foldl (fun k op => op.onStream L p new k) k) w u := by
  induction hrun with
  | nil w => exact .steady fun m s => ⟨m, rfl⟩
  | cons hs _ ih =>
    have hone := lifeStep_follows (hops _ List.mem_cons_self) hs
    exact hone.comp (ih fun op hop => hops op (List.mem_cons_of_mem _ hop))

end World

end Moonlight
