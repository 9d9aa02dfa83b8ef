import MoonlightKernel.Process.Life

/-!
# What the process functions leave alone

A property of the processes reads some of their fields, its `view`.  `Same view k k'` says that
the two states have the same processes and agree on the view of each; a function that writes
only fields outside the view keeps it.

* `Same` — the relation, with its rules for composition;
* `addSignal_same`, `processFreeAllMemory_same`, `freeProcess_same` — functions of which most
  views see little.
-/

set_option autoImplicit false

namespace Moonlight

/-- The same processes, with the same view of each. -/
structure Same {α : Type*} (view : Process → α) (k k' : Kernel) : Prop where
  list : k'.processList = k.processList
  proc : ∀ q, view (k'.proc q) = view (k.proc q)

namespace Same

variable {α : Type*} {view : Process → α} {k k₁ k₂ : Kernel}

theorem refl (k : Kernel) : Same view k k := ⟨rfl, fun _ => rfl⟩

theorem trans (h₁ : Same view k k₁) (h₂ : Same view k₁ k₂) : Same view k k₂ :=
  ⟨h₂.list.trans h₁.list, fun q => (h₂.proc q).trans (h₁.proc q)⟩

theorem modify (k : Kernel) (p : Nat) {f : Process → Process}
    (h : view (f (k.proc p)) = view (k.proc p)) : Same view k (k.modify p f) := by
  refine ⟨rfl, fun q => ?_⟩
  rw [Kernel.modify_proc]
  split
  · rename_i hq; rw [hq, h]
  · rfl

/-- The same store into two states with the same view. -/
theorem congr_modify (h : Same view k k₁) (p : Nat) {f : Process → Process}
    (hf : ∀ pr pr', view pr = view pr' → view (f pr) = view (f pr')) :
    Same view (k.modify p f) (k₁.modify p f) := by
  refine ⟨h.list, fun q => ?_⟩
  rw [Kernel.modify_proc, Kernel.modify_proc]
  split
  · exact hf _ _ (h.proc p)
  · exact h.proc q

theorem setMachine (k : Kernel) (m : Machine) : Same view k (k.setMachine m) := ⟨rfl, fun _ => rfl⟩

theorem kmalloc (k : Kernel) : Same view k k.kmalloc.2 := ⟨rfl, fun _ => rfl⟩

/-- The value of a field of the view. -/
theorem field {β : Type*} (h : Same view k k₁) (g : α → β) (q : Nat) :
    g (view (k₁.proc q)) = g (view (k.proc q)) := congrArg g (h.proc q)

end Same

variable {α : Type*} {v : Process → α}

theorem addSignal_same (hview : ∀ sig type pr, v (Process.queueSignal sig type pr) = v pr)
    (sig : Int) (proc : Option Nat) (type : Nat) (k : Kernel) :
    Same v k (addSignal sig proc type k).2 := by
  rcases addSignal_spec sig proc type k with ⟨p, k', -, rfl, h⟩ | h | h
  · rw [h]; exact (Same.kmalloc k).trans (Same.modify _ p (hview ..))
  · rw [h]; exact Same.refl k
  · rw [h]; exact Same.kmalloc k

/-- The signals of the parent are queued for a child. -/
theorem copySignals_same (hview : ∀ sig type pr, v (Process.queueSignal sig type pr) = v pr)
    (new : Nat) (queue : List SigQueue) (k : Kernel) : Same v k
      (queue.foldl (fun k s => (addSignal s.sigHandled (some new) s.state k).2) k) := by
  induction queue generalizing k with
  | nil => exact Same.refl k
  | cons s queue ih => exact (addSignal_same hview _ _ _ k).trans (ih _)

theorem processAllocPid_same (hview : ∀ pr pid, v { pr with pid := pid } = v pr) (p : Nat)
    (k : Kernel) : Same v k (processAllocPid p k).2 := by
  refine ⟨rfl, fun q => ?_⟩
  have hpid : Same v k (k.modify p fun pr => { pr with
      pid := (allocPidLoop (k.processList.map fun q => (k.proc q).pid)
        (PROC_MAX_PID - PROC_MIN_PID + 1).toNat k.lastPid).2.1 }) := Same.modify k p (hview ..)
  exact hpid.proc q

theorem copyMaps_same (L : Layout) (swap swap2 : Nat) (maps : List MapMemory) :
    ∀ (copied : List MapMemory) (k : Kernel),
      Same v k (copyMaps L swap swap2 maps copied k).2.2 := by
  induction maps with
  | nil => exact fun _ k => Same.refl k
  | cons pm maps ih =>
    intro copied k
    unfold copyMaps
    split
    · rename_i hm
      exact (Kernel.kmalloc_eq hm).2 ▸ Same.kmalloc k
    · rename_i k₁ hm
      have hs : Same v k k₁ := (Kernel.kmalloc_eq hm).2 ▸ Same.kmalloc k
      dsimp only
      split
      · exact hs.trans (Same.setMachine _ _)
      · exact (hs.trans (Same.setMachine _ _)).trans (ih ..)

/-- The memory part of `copy_process` writes only the maps of the child. -/
theorem copyMemory_same (hheap : ∀ pr ms, v { pr with mmHeap := ms } = v pr)
    (hstack : ∀ pr ms, v { pr with mmStack := ms } = v pr)
    (hcode : ∀ pr pm, v { pr with mmCode := pm } = v pr)
    (L : Layout) (swap swap2 p new : Nat) (k : Kernel) :
    Same v k (copyMemory L swap swap2 p new k).2 := by
  unfold copyMemory
  have h₁ : Same v k _ := copyMaps_same L swap swap2 (k.proc p).mmHeap [] k
  generalize copyMaps L swap swap2 (k.proc p).mmHeap [] k = r at h₁
  dsimp only
  replace h₁ := h₁.trans
    (Same.modify r.2.2 new (f := fun pr => { pr with mmHeap := r.2.1 }) (hheap ..))
  generalize r.2.2.modify new (fun pr => { pr with mmHeap := r.2.1 }) = k₁ at h₁
  split
  · exact h₁
  have h₂ := h₁.trans (copyMaps_same L swap swap2 (k₁.proc p).mmStack [] k₁)
  generalize copyMaps L swap swap2 (k₁.proc p).mmStack [] k₁ = r at h₂
  replace h₂ := h₂.trans
    (Same.modify r.2.2 new (f := fun pr => { pr with mmStack := r.2.1 }) (hstack ..))
  generalize r.2.2.modify new (fun pr => { pr with mmStack := r.2.1 }) = k₂ at h₂
  split
  · exact h₂
  generalize processCopyMemBlock L swap swap2 (k₂.proc p).mmCode k₂.machine = r
  replace h₂ := (h₂.trans (Same.setMachine k₂ r.2.2)).trans
    (Same.modify _ new (f := fun pr => { pr with mmCode := r.2.1 }) (hcode ..))
  split
  · exact h₂
  · exact h₂

/-- The states that a `copy_memory` that succeeds goes through: the heap has been copied, then the
stack, and last the code. -/
theorem copyMemory_ok {L : Layout} {swap swap2 p new : Nat} {k : Kernel}
    (h : ¬ (copyMemory L swap swap2 p new k).1 < 0) :
    ∃ r s k₁ k₂, ¬ r.1 < 0 ∧ ¬ s.1 < 0 ∧ copyMaps L swap swap2 (k.proc p).mmHeap [] k = r ∧
      r.2.2.modify new (fun pr => { pr with mmHeap := r.2.1 }) = k₁ ∧
      copyMaps L swap swap2 (k₁.proc p).mmStack [] k₁ = s ∧
      s.2.2.modify new (fun pr => { pr with mmStack := s.2.1 }) = k₂ ∧
      ¬ (processCopyMemBlock L swap swap2 (k₂.proc p).mmCode k₂.machine).1 < 0 ∧
      (copyMemory L swap swap2 p new k).2 = (k₂.setMachine
        (processCopyMemBlock L swap swap2 (k₂.proc p).mmCode k₂.machine).2.2).modify new fun pr =>
          { pr with mmCode := (processCopyMemBlock L swap swap2 (k₂.proc p).mmCode k₂.machine).2.1 } := by
  have herr : (-1 : Int) < 0 := Int.negSucc_lt_zero 0
  unfold copyMemory at h
  dsimp only at h
  split at h
  · exact absurd herr h
  rename_i hheap
  split at h
  · exact absurd herr h
  rename_i hstack
  split at h
  · exact absurd herr h
  rename_i hcode
  refine ⟨_, _, _, _, hheap, hstack, rfl, rfl, rfl, rfl, hcode, ?_⟩
  unfold copyMemory
  dsimp only
  rw [if_neg hheap, if_neg hstack, if_neg hcode]

/-- The states that a `copy_process` that succeeds goes through: the child has a pid, then the
memory of the parent, its signals, and last its links. -/
theorem copyProcess_ok {L : Layout} {swap swap2 p new : Nat} {k : Kernel}
    (h : ¬ (copyProcess L swap swap2 p new k).1 < 0) :
    ∃ k₁ k₂ k₃, ¬ (processAllocPid new k).1 < 0 ∧ (processAllocPid new k).2 = k₁ ∧
      ¬ (copyMemory L swap swap2 p new k₁).1 < 0 ∧ (copyMemory L swap swap2 p new k₁).2 = k₂ ∧
      (k₂.proc p).signal.sigQueue.foldl
        (fun k s => (addSignal s.sigHandled (some new) s.state k).2) k₂ = k₃ ∧
      (copyProcess L swap swap2 p new k).2 = linkChild p new k₃.kmalloc.2 := by
  have herr : (-1 : Int) < 0 := Int.negSucc_lt_zero 0
  unfold copyProcess at h
  dsimp only at h
  split at h
  · exact absurd herr h
  rename_i hpid
  split at h
  · exact absurd herr h
  rename_i hmem
  split at h
  · exact absurd herr h
  · rename_i k₄ hm
    refine ⟨_, _, _, hpid, rfl, hmem, rfl, rfl, ?_⟩
    unfold copyProcess
    dsimp only
    rw [if_neg hpid, if_neg hmem, hm]

theorem processFreeAllMemory_same (hview : ∀ pr, v (Process.dropMaps pr) = v pr)
    (L : Layout) (p : Nat) (k : Kernel) : Same v k (processFreeAllMemory L p k) :=
  (Same.setMachine k _).trans (Same.modify _ p (hview _))

theorem moveOrphans_same (hview : ∀ pr cs, v { pr with children := cs } = v pr)
    (cs : List Nat) (k : Kernel) : Same v k (cs.foldl moveOrphan k) := by
  induction cs generalizing k with
  | nil => exact Same.refl k
  | cons c cs ih =>
    refine Same.trans ?_ (ih _)
    unfold moveOrphan
    split
    · exact Same.modify k _ (hview ..)
    · exact Same.refl k

/-- `free_process` takes the process out of the list and changes nothing else but `children`. -/
theorem freeProcess_same (hview : ∀ pr cs, v { pr with children := cs } = v pr)
    (p : Nat) (k : Kernel) :
    Same v { k with processList := k.processList.erase p } (freeProcess p k) := by
  unfold freeProcess
  dsimp only
  refine Same.trans ?_ (Same.modify _ p (hview ..))
  split
  · exact (Same.modify _ _ (hview ..)).trans (moveOrphans_same hview _ _)
  · exact moveOrphans_same hview _ _

end Moonlight
