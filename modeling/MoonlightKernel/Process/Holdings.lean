import MoonlightKernel.Lib.Ownership
import MoonlightKernel.Process.Trade

/-!
# Who has which frame

The frames of a machine have one allocator and many users: the maps of the processes, the page
tables, and the blocks that other parts of the kernel take.

* `MemorySystem`, `MemoryOk` — a frame is available, or it has one holder;
* `MemoryOk.trade` — the rule for a call that trades frames for one process, `Trades` — such a call;
* `processDie_trades`, `sendSignal_trades`, `processWaitpid_memory` — the end of a process.
-/

set_option autoImplicit false

namespace Moonlight

open Sys Sys.Bitmap

/-! ## The system -/

/-- The process is in the list and its memory has not been given back. -/
def HasMemory (k : Kernel) (p : Nat) : Prop := p ∈ k.processList ∧ (k.proc p).state ≠ .ZOMBIE

instance (k : Kernel) (p : Nat) : Decidable (HasMemory k p) :=
  inferInstanceAs (Decidable (_ ∧ _))

/-- The kernel, and the blocks of frames that its own parts have from the allocator. -/
structure MemorySystem where
  kernel : Kernel
  blocks : List (Nat × Nat)

/-- Whoever can have a frame beside the page tables. -/
inductive Holder where
  | kernel
  | process (p : Nat)
  deriving DecidableEq

/-- The frames of a holder. -/
def MemorySystem.Has (s : MemorySystem) : Holder → Nat → Prop
  | .kernel, f => ∃ b ∈ s.blocks, InBlock b f
  | .process p, f => HasMemory s.kernel p ∧ HasFrame (s.kernel.proc p).maps f

/-- The frame is in use, or may be handed out. -/
def MemorySystem.Circulates (s : MemorySystem) (f : Nat) : Prop :=
  Sys.Circulates (Avail s.kernel.machine) s.Has f

/-- The maps of a process are well formed, apart from each other and in user space. -/
structure MapsSound (L : Layout) (maps : List MapMemory) : Prop where
  ok : MapsOk maps
  user : ∀ pm ∈ maps, UserMap pm
  image : ∀ f, HasFrame maps f → f ≠ L.kernelFrame

/-- **Every frame has one use.** -/
structure MemoryOk (L : Layout) (s : MemorySystem) : Prop where
  ledger : LedgerInv L ⟨s.kernel.machine, s.blocks⟩
  exclusive : Exclusive (Avail s.kernel.machine) s.Has
  maps : ∀ p, HasMemory s.kernel p → MapsSound L (s.kernel.proc p).maps

/-! ## One trade -/

/-- Everybody but `p` keeps what he has. -/
structure Bystanders (p : Nat) (k k' : Kernel) : Prop where
  hasMemory : ∀ q, q ≠ p → (HasMemory k' q ↔ HasMemory k q)
  maps : ∀ q, q ≠ p → HasMemory k q → (k'.proc q).maps = (k.proc q).maps

/-- The process `q` has the same maps, and they have the same contents. -/
structure Untouched (k k' : Kernel) (q : Nat) : Prop where
  hasMemory : HasMemory k' q
  maps : (k'.proc q).maps = (k.proc q).maps
  ram : ∀ f, HasFrame (k.proc q).maps f → k'.machine.ram f = k.machine.ram f

section trade

variable {L : Layout} {s t : MemorySystem} {k k' : Kernel} {p q : Nat} {got gave : Nat → Prop}

theorem Bystanders.refl (p : Nat) (k : Kernel) : Bystanders p k k :=
  ⟨fun _ _ => Iff.rfl, fun _ _ _ => rfl⟩

/-- The holders beside `p` have gained nothing. -/
theorem Bystanders.holds (h : Bystanders p s.kernel t.kernel) (hblocks : t.blocks = s.blocks)
    (o : Holder) (f : Nat) (ho : o ≠ .process p) (hf : t.Has o f) : s.Has o f := by
  cases o with
  | kernel =>
    show ∃ b ∈ s.blocks, InBlock b f
    rw [← hblocks]
    exact hf
  | process q =>
    have hne : q ≠ p := fun he => ho (by rw [he])
    have hq := (h.hasMemory q hne).mp hf.1
    exact ⟨hq, by rw [← h.maps q hne hq]; exact hf.2⟩

/-- The same processes have memory, and the same maps. -/
structure SameMemory (k k' : Kernel) : Prop where
  hasMemory : ∀ q, HasMemory k' q ↔ HasMemory k q
  maps : ∀ q, HasMemory k q → (k'.proc q).maps = (k.proc q).maps

theorem SameMemory.of_same (h : Same Process.body k k') : SameMemory k k' := by
  refine ⟨fun q => ?_, fun q _ => Process.maps_of_body (h.proc q)⟩
  have hstate : (k'.proc q).state = (k.proc q).state := h.field Prod.fst q
  unfold HasMemory
  rw [h.list, hstate]

theorem SameMemory.trans {k₁ : Kernel} (h : SameMemory k k₁) (h' : SameMemory k₁ k') :
    SameMemory k k' :=
  ⟨fun q => (h'.hasMemory q).trans (h.hasMemory q),
    fun q hq => (h'.maps q ((h.hasMemory q).mpr hq)).trans (h.maps q hq)⟩

theorem SameMemory.bystanders (h : SameMemory k k') (p : Nat) : Bystanders p k k' :=
  ⟨fun q _ => h.hasMemory q, fun q _ hq => h.maps q hq⟩

theorem Untouched.trans {k₁ : Kernel} (h : Untouched k k₁ q) (h' : Untouched k₁ k' q) :
    Untouched k k' q :=
  ⟨h'.hasMemory, h'.maps.trans h.maps,
    fun f hf => (h'.ram f (by rw [h.maps]; exact hf)).trans (h.ram f hf)⟩

namespace MemoryOk

/-- A frame of a process is no frame of the allocator or the page tables. -/
theorem notAvail (h : MemoryOk L s) (hp : HasMemory s.kernel p) {f : Nat}
    (hf : HasFrame (s.kernel.proc p).maps f) : ¬ Avail s.kernel.machine f :=
  h.exclusive.taken (o := .process p) ⟨hp, hf⟩

/-- A frame of a process is in no block of the kernel's. -/
theorem notBlock (h : MemoryOk L s) (hp : HasMemory s.kernel p) {f : Nat}
    (hf : HasFrame (s.kernel.proc p).maps f) : ¬ ∃ b ∈ s.blocks, InBlock b f := fun hb => by
  have hkernel : s.Has .kernel f := hb
  have hproc : s.Has (.process p) f := ⟨hp, hf⟩
  exact Holder.noConfusion (h.exclusive.sole hkernel hproc)

/-- It belongs to no other process. -/
theorem sole (h : MemoryOk L s) (hp : HasMemory s.kernel p) (hq : HasMemory s.kernel q) {f : Nat}
    (hf : HasFrame (s.kernel.proc p).maps f) (hf' : HasFrame (s.kernel.proc q).maps f) : p = q := by
  have hproc : s.Has (.process p) f := ⟨hp, hf⟩
  have hother : s.Has (.process q) f := ⟨hq, hf'⟩
  exact Holder.process.inj (h.exclusive.sole hproc hother)

/-- **Trading rule.**  A call takes frames that were available for the process `p`, gives frames of
`p` back, and leaves everybody else alone. -/
theorem trade (h : MemoryOk L s) (p : Nat) (hblocks : t.blocks = s.blocks)
    (ht : Traded L got gave s.kernel.machine t.kernel.machine)
    (hothers : Bystanders p s.kernel t.kernel)
    (hgave : ∀ f, gave f → s.Has (.process p) f)
    (hself : ∀ f, t.Has (.process p) f → (s.Has (.process p) f ∧ ¬ gave f) ∨ got f)
    (hmaps : HasMemory t.kernel p → MapsSound L (t.kernel.proc p).maps) : MemoryOk L t := by
  have hexcl : Exclusive (Avail t.kernel.machine) t.Has := by
    refine h.exclusive.exchange (.process p) (hothers.holds hblocks) (fun f hf => ?_)
      (fun f hfree => ?_) fun f hf hfree => ?_
    · exact (hself f hf).imp (fun h => h.1) (ht.fresh f)
    · exact (ht.avail f hfree).1.imp_right (hgave f)
    · obtain ⟨hfrom, hno⟩ := ht.avail f hfree
      rcases hself f hf with ⟨hold, hnot⟩ | hg
      · exact h.exclusive.taken hold (hfrom.resolve_right hnot)
      · exact hno hg
  refine ⟨⟨ht.paging, ht.plain h.ledger.plain, (hasTable_congr ht.kernel).mpr h.ledger.kernel, ?_,
    fun b hb f hf => hexcl.taken (o := .kernel) ⟨b, hb, hf⟩, ?_⟩, hexcl, fun q hq => ?_⟩
  · rw [hblocks]
    exact h.ledger.inRange
  · rw [hblocks]
    exact h.ledger.disjoint
  · by_cases hne : q = p
    · rw [hne] at hq ⊢
      exact hmaps hq
    · have hold := (hothers.hasMemory q hne).mp hq
      rw [hothers.maps q hne hold]
      exact h.maps q hold

/-- A trade leaves the memory of the others untouched. -/
theorem untouched (h : MemoryOk L s) (ht : Traded L got gave s.kernel.machine k'.machine)
    (hothers : Bystanders p s.kernel k') (hq : HasMemory s.kernel q) (hne : q ≠ p) :
    Untouched s.kernel k' q :=
  ⟨(hothers.hasMemory q hne).mpr hq, hothers.maps q hne hq,
    fun f hf => ht.ram f ((h.maps q hq).image f hf) (h.notAvail hq hf)⟩

end MemoryOk

/-- What a call may do: it trades for the process `p`, or for nobody. -/
structure Trades (L : Layout) (p : Nat) (k k' : Kernel) : Prop where
  trade : ∃ got gave, Traded L got gave k.machine k'.machine ∧
    (∀ f, gave f → HasMemory k p ∧ HasFrame (k.proc p).maps f) ∧
    ∀ f, HasMemory k' p → HasFrame (k'.proc p).maps f →
      (HasMemory k p ∧ HasFrame (k.proc p).maps f ∧ ¬ gave f) ∨ got f
  others : Bystanders p k k'
  maps : HasMemory k' p → MapsSound L (k'.proc p).maps

theorem MemoryOk.trades (h : MemoryOk L s) (ht : Trades L p s.kernel t.kernel)
    (hblocks : t.blocks = s.blocks) : MemoryOk L t := by
  obtain ⟨got, gave, htraded, hgave, hself⟩ := ht.trade
  refine h.trade p hblocks htraded ht.others hgave (fun f hf => ?_) ht.maps
  exact (hself f hf.1 hf.2).imp_left fun h => ⟨⟨h.1, h.2.1⟩, h.2.2⟩

/-- A trade brings no frame in. -/
theorem Trades.circulates (ht : Trades L p s.kernel t.kernel) (hblocks : t.blocks = s.blocks)
    {f : Nat} (hf : t.Circulates f) : s.Circulates f := by
  obtain ⟨got, gave, htraded, hgave, hself⟩ := ht.trade
  refine Circulates.exchange (.process p) (ht.others.holds hblocks) (fun f hf => ?_)
    (fun f hfree => (htraded.avail f hfree).1.imp_right (hgave f)) hf
  exact (hself f hf.1 hf.2).imp (fun h => ⟨h.1, h.2.1⟩) (htraded.fresh f)

theorem Trades.untouched (h : MemoryOk L s) (ht : Trades L p s.kernel k')
    (hq : HasMemory s.kernel q) (hne : q ≠ p) : Untouched s.kernel k' q := by
  obtain ⟨got, gave, htraded, -⟩ := ht.trade
  exact h.untouched htraded ht.others hq hne

/-- Nobody's maps change, and no frame is taken for a map. -/
theorem Trades.nobody (h : MemoryOk L s) (hsame : SameMemory s.kernel k')
    (ht : Traded L got NoFrame s.kernel.machine k'.machine) (p : Nat) :
    Trades L p s.kernel k' := by
  refine ⟨⟨NoFrame, NoFrame, ht.lost, fun _ hf => hf.elim, fun f hp hf => .inl ?_⟩,
    hsame.bystanders p, fun hp => ?_⟩
  · have hold := (hsame.hasMemory p).mp hp
    rw [hsame.maps p hold] at hf
    exact ⟨hold, hf, not_false⟩
  · have hold := (hsame.hasMemory p).mp hp
    rw [hsame.maps p hold]
    exact h.maps p hold

/-- Stores that concern no memory, before the call. -/
theorem Trades.after_stores {k₁ : Kernel} (hsame : SameMemory k k₁) (hmach : k₁.machine = k.machine)
    (ht : Trades L p k₁ k') : Trades L p k k' := by
  obtain ⟨got, gave, htraded, hgave, hself⟩ := ht.trade
  rw [hmach] at htraded
  have hfrom : ∀ f, HasMemory k₁ p ∧ HasFrame (k₁.proc p).maps f →
      HasMemory k p ∧ HasFrame (k.proc p).maps f := by
    rintro f ⟨hp, hf⟩
    have hold := (hsame.hasMemory p).mp hp
    rw [hsame.maps p hold] at hf
    exact ⟨hold, hf⟩
  refine ⟨⟨got, gave, htraded, fun f hf => hfrom f (hgave f hf), fun f hp hf => ?_⟩, ?_, ht.maps⟩
  · refine (hself f hp hf).imp_left fun h => ?_
    obtain ⟨hp, hf⟩ := hfrom f ⟨h.1, h.2.1⟩
    exact ⟨hp, hf, h.2.2⟩
  · exact ⟨fun q hq => (ht.others.hasMemory q hq).trans (hsame.hasMemory q), fun q hne hq =>
      (ht.others.maps q hne ((hsame.hasMemory q).mpr hq)).trans (hsame.maps q hq)⟩

/-- Stores that concern no memory, after the call. -/
theorem Trades.before_stores {k₁ : Kernel} (ht : Trades L p k k₁) (hsame : SameMemory k₁ k')
    (hmach : k'.machine = k₁.machine) : Trades L p k k' := by
  obtain ⟨got, gave, htraded, hgave, hself⟩ := ht.trade
  rw [← hmach] at htraded
  refine ⟨⟨got, gave, htraded, hgave, fun f hp hf => ?_⟩, ?_, fun hp => ?_⟩
  · have hp₁ := (hsame.hasMemory p).mp hp
    rw [hsame.maps p hp₁] at hf
    exact hself f hp₁ hf
  · exact ⟨fun q hq => (hsame.hasMemory q).trans (ht.others.hasMemory q hq), fun q hne hq =>
      (hsame.maps q ((ht.others.hasMemory q hne).mpr hq)).trans (ht.others.maps q hne hq)⟩
  · have hp₁ := (hsame.hasMemory p).mp hp
    rw [hsame.maps p hp₁]
    exact ht.maps hp₁

/-- The account of the machine is that of the kernel, whatever its other fields. -/
theorem MemoryOk.stores (h : MemoryOk L s) (hsame : SameMemory s.kernel k')
    (hmach : k'.machine = s.kernel.machine) : MemoryOk L ⟨k', s.blocks⟩ := by
  have ht : Trades L 0 s.kernel k' := .nobody h hsame
    (by rw [hmach]; exact .refl h.ledger.paging) 0
  exact h.trades (t := ⟨k', s.blocks⟩) ht rfl

end trade

/-! ## The end of a process -/

section death

variable {L : Layout} {s : MemorySystem} {k k' : Kernel} {p c : Nat}

theorem sameMemory_modify (k : Kernel) (p : Nat) {f : Process → Process}
    (h : (f (k.proc p)).body = (k.proc p).body) : SameMemory k (k.modify p f) :=
  .of_same (Same.modify k p h)

/-- A state that is not that of a zombie. -/
theorem sameMemory_live {f : Process → Process} (hp : (k.proc p).state ≠ .ZOMBIE)
    (hstate : (f (k.proc p)).state ≠ .ZOMBIE) (hmem : (f (k.proc p)).maps = (k.proc p).maps) :
    SameMemory k (k.modify p f) := by
  refine ⟨fun q => ?_, fun q _ => ?_⟩
  · unfold HasMemory
    rw [Kernel.modify_processList, Kernel.modify_proc]
    split
    · rename_i hq
      rw [hq]
      exact and_congr_right fun _ => iff_of_true hstate hp
    · exact Iff.rfl
  · rw [Kernel.modify_proc]
    split
    · rename_i hq
      rw [hq, hmem]
    · rfl

/-- The father of a dead process is told: the process is no zombie before, and has no memory
after. -/
theorem notifyFather_memory (p : Nat) (k : Kernel) :
    Bystanders p k (notifyFather p k) ∧ ((notifyFather p k).proc p).state = .ZOMBIE := by
  -- setting the state, and `free_process` after it
  have hdead : ∀ k₁ : Kernel, Same Process.body k k₁ →
      (Bystanders p k (k₁.modify p (Process.setState .ZOMBIE)) ∧
        ((k₁.modify p (Process.setState .ZOMBIE)).proc p).state = .ZOMBIE) ∧
      (Bystanders p k (freeProcess p (k₁.modify p (Process.setState .ZOMBIE))) ∧
        ((freeProcess p (k₁.modify p (Process.setState .ZOMBIE))).proc p).state = .ZOMBIE) := by
    intro k₁ hsame
    have hmem := (SameMemory.of_same hsame).hasMemory
    have hmaps := (SameMemory.of_same hsame).maps
    have hfree := freeProcess_same (v := Process.body) (fun _ _ => rfl) p
      (k₁.modify p (Process.setState .ZOMBIE))
    refine ⟨⟨⟨fun q hq => ?_, fun q hne hq => ?_⟩, ?_⟩, ⟨fun q hq => ?_, fun q hne hq => ?_⟩, ?_⟩
    · rw [← hmem q]
      unfold HasMemory
      rw [Kernel.modify_processList, Kernel.modify_proc_of_ne _ hq]
    · rw [← hmaps q hq, Kernel.modify_proc_of_ne _ hne]
    · rw [Kernel.modify_proc_self]
      rfl
    · have hbody := hfree.proc q
      rw [Kernel.modify_proc_of_ne _ hq] at hbody
      have hstate : ((freeProcess p (k₁.modify p (Process.setState .ZOMBIE))).proc q).state =
          (k₁.proc q).state := congrArg Prod.fst hbody
      rw [← hmem q]
      unfold HasMemory
      rw [hfree.list, hstate]
      exact and_congr_left fun _ => List.mem_erase_of_ne hq
    · have hbody := hfree.proc q
      rw [Kernel.modify_proc_of_ne _ hne] at hbody
      exact (Process.maps_of_body hbody).trans (hmaps q hq)
    · have hstate := congrArg Prod.fst (hfree.proc p)
      exact hstate.trans (by rw [Kernel.modify_proc_self]; rfl)
  unfold notifyFather
  cases (k.proc p).father with
  | none => exact (hdead k (Same.refl k)).2
  | some f =>
    have hsig := addSignal_same (v := Process.body) (fun _ _ _ => rfl) SIGCHLD (some f) SIG_SOFT k
    dsimp only
    split
    · exact (hdead _ hsig).2
    · exact (hdead _ hsig).1

/-- **`process_die`** gives the frames of the process back. -/
theorem processDie_trades (h : MemoryOk L s) (hp : HasMemory s.kernel p) :
    Trades L p s.kernel (processDie L p s.kernel) := by
  have hsound := h.maps p hp
  have hfree := processFreeAllMemory_traded h.ledger.paging
    (fun pm hpm => (hsound.ok.ok pm hpm).frames) fun f hf => h.notAvail hp hf
  have hmach : (processDie L p s.kernel).machine = (processFreeAllMemory L p s.kernel).machine :=
    processDieSafe_machine L p s.kernel
  generalize hk₁ : (processFreeAllMemory L p s.kernel).modify p Process.clearQueue = k₁
  have hkeep : Bystanders p s.kernel k₁ := by
    rw [← hk₁]
    refine ⟨fun q hq => ?_, fun q hne _ => ?_⟩
    · unfold HasMemory processFreeAllMemory
      rw [Kernel.modify_proc_of_ne _ hq, Kernel.modify_proc_of_ne _ hq]
      rfl
    · unfold processFreeAllMemory
      rw [Kernel.modify_proc_of_ne _ hne, Kernel.modify_proc_of_ne _ hne]
      rfl
  obtain ⟨hnotify, hzombie⟩ := notifyFather_memory p k₁
  have hend : ∃ cur, processDie L p s.kernel = { notifyFather p k₁ with current := cur } := by
    unfold processDie processDieSafe
    dsimp only
    rw [hk₁]
    split
    · exact ⟨_, rfl⟩
    · exact ⟨(notifyFather p k₁).current, rfl⟩
  obtain ⟨cur, hend⟩ := hend
  have hgone : ¬ HasMemory (processDie L p s.kernel) p := fun hm => by
    rw [hend] at hm
    exact hm.2 hzombie
  refine ⟨⟨NoFrame, HasFrame (s.kernel.proc p).maps, ?_, fun f hf => ⟨hp, hf⟩,
    fun f hm => absurd hm hgone⟩, ?_, fun hm => absurd hm hgone⟩
  · rw [hmach]
    exact hfree
  · rw [hend]
    exact ⟨fun q hq => (hnotify.hasMemory q hq).trans (hkeep.hasMemory q hq), fun q hne hq =>
      (hnotify.maps q hne ((hkeep.hasMemory q hne).mpr hq)).trans (hkeep.maps q hne hq)⟩

/-- A zombie is reaped: it has no memory any more, and its father was no zombie. -/
theorem endOfChild_memory (hc : (k.proc c).state = .ZOMBIE) (hp : (k.proc p).state ≠ .ZOMBIE) :
    SameMemory k (endOfChild c p k) := by
  have hreply : Same Process.body k
      (k.modify p (Process.setReply (k.proc c).pid (k.proc c).endValue)) := Same.modify k p rfl
  have hfree := freeProcess_same (v := Process.body) (fun _ _ => rfl) c
    (k.modify p (Process.setReply (k.proc c).pid (k.proc c).endValue))
  have hbody : ∀ q, ((freeProcess c (k.modify p
      (Process.setReply (k.proc c).pid (k.proc c).endValue))).proc q).body = (k.proc q).body :=
    fun q => (hfree.proc q).trans (hreply.proc q)
  unfold endOfChild
  dsimp only
  generalize hk₁ : freeProcess c (k.modify p
    (Process.setReply (k.proc c).pid (k.proc c).endValue)) = k₁ at hbody
  have hlist : k₁.processList = k.processList.erase c := by
    rw [← hk₁]
    exact hfree.list
  have hstate : ∀ q, (k₁.proc q).state = (k.proc q).state := fun q => congrArg Prod.fst (hbody q)
  have hfreed : SameMemory k k₁ := by
    refine ⟨fun q => ?_, fun q _ => Process.maps_of_body (hbody q)⟩
    unfold HasMemory
    rw [hlist, hstate]
    exact and_congr_left fun hq => List.mem_erase_of_ne fun he => hq (by rw [he]; exact hc)
  have hrun : (Process.setState .RUN (k₁.proc p)).state ≠ .ZOMBIE := ProcState.noConfusion
  exact hfreed.trans (sameMemory_live (by rw [hstate]; exact hp) hrun rfl)

theorem endOfChild_machine (c p : Nat) (k : Kernel) : (endOfChild c p k).machine = k.machine := by
  unfold endOfChild
  dsimp only
  rw [Kernel.modify_machine, freeProcess_machine, Kernel.modify_machine]

/-- `child_ended`. -/
theorem childEnded_memory (hp : (k.proc p).state ≠ .ZOMBIE) :
    SameMemory k (childEnded p k) ∧ (childEnded p k).machine = k.machine := by
  unfold childEnded
  cases hfind : (k.proc p).children.find? fun c => Reapable k p c with
  | none => exact ⟨.of_same (Same.refl k), rfl⟩
  | some c =>
    have hreap : Reapable k p c := by simpa using List.find?_some hfind
    exact ⟨endOfChild_memory hreap.1 hp, endOfChild_machine c p k⟩

/-- **`process_waitpid`** of a living process. -/
theorem processWaitpid_memory (hp : (k.proc p).state ≠ .ZOMBIE) (pid : Int) (option : Nat) :
    SameMemory k (processWaitpid p pid option k).2 ∧
      (processWaitpid p pid option k).2.machine = k.machine := by
  have hid : SameMemory k k := .of_same (Same.refl k)
  have hstop : SameMemory k
      (k.modify p fun pr => { pr with state := .STOPPED, waitingPid := pid }) :=
    sameMemory_live hp ProcState.noConfusion rfl
  have htake : ∀ k₁ : Kernel, SameMemory k₁ (takeReply p k₁).2 := fun k₁ =>
    sameMemory_modify k₁ p (f := fun pr => { pr with waitingReturn := 0 }) rfl
  unfold processWaitpid
  dsimp only
  split
  · exact ⟨hid, rfl⟩
  split
  · exact ⟨htake k, rfl⟩
  split
  · rename_i c hc
    split
    · rename_i hz
      have hreaped := endOfChild_memory hz hp
      exact ⟨hreaped.trans (htake _), endOfChild_machine c p k⟩
    split
    · exact ⟨hstop, rfl⟩
    · exact ⟨hid, rfl⟩
  · split
    · split
      · exact ⟨hid, rfl⟩
      · exact ⟨hstop, rfl⟩
    · exact ⟨hid, rfl⟩

end death

/-! ## The delivery of a signal -/

section deliver

variable {L : Layout} {s : MemorySystem} {k k' : Kernel} {p : Nat}

/-- A handler of the kernel's is run for a living process. -/
theorem runHandler_trades (h : MemoryOk L s) (hp : HasMemory s.kernel p) (hd : Shandler)
    (signum : Nat) : Trades L p s.kernel (runHandler L hd p signum s.kernel) := by
  have hidle : ∀ k', SameMemory s.kernel k' → k'.machine = s.kernel.machine →
      Trades L p s.kernel k' := fun k' hsame hmach =>
    .nobody h hsame (by rw [hmach]; exact .refl h.ledger.paging) p
  have hdie : ∀ v, Trades L p s.kernel
      (processDie L p (s.kernel.modify p (Process.setEndValue v))) := fun v => by
    have hstore : SameMemory s.kernel (s.kernel.modify p (Process.setEndValue v)) :=
      sameMemory_modify _ p rfl
    exact Trades.after_stores hstore rfl
      (processDie_trades (h.stores hstore rfl) ((hstore.hasMemory p).mpr hp))
  have hlive : ∀ v st, st ≠ ProcState.ZOMBIE → SameMemory s.kernel
      ((s.kernel.modify p (Process.setEndValue v)).modify p (Process.setState st)) :=
    fun v st hst => by
      have hstore : SameMemory s.kernel (s.kernel.modify p (Process.setEndValue v)) :=
        sameMemory_modify _ p rfl
      refine hstore.trans (sameMemory_live ?_ hst rfl)
      exact ((hstore.hasMemory p).mpr hp).2
  cases hd with
  | sigTerm => exact hdie _
  | sigCore => exact hdie _
  | sigIgn => exact hidle _ (.of_same (Same.refl _)) rfl
  | sigStop => exact hidle _ (hlive _ _ ProcState.noConfusion) rfl
  | sigCont => exact hidle _ (hlive _ _ ProcState.noConfusion) rfl
  | childEnded =>
    obtain ⟨hsame, hmach⟩ := childEnded_memory hp.2
    exact hidle _ hsame hmach
  | user a => exact hidle _ (.of_same (Same.refl _)) rfl

/-- **`send_signal`** to a process of the list. -/
theorem sendSignal_trades (h : MemoryOk L s) (hp : p ∈ s.kernel.processList)
    (hs : sendSignal L p s.kernel = some k') : Trades L p s.kernel k' := by
  have hidle : ∀ k', SameMemory s.kernel k' → k'.machine = s.kernel.machine →
      Trades L p s.kernel k' := fun k' hsame hmach =>
    .nobody h hsame (by rw [hmach]; exact .refl h.ledger.paging) p
  unfold sendSignal at hs
  split at hs
  · cases hs
    exact hidle _ (.of_same (Same.refl _)) rfl
  split at hs
  · cases hs
    exact hidle _ (sameMemory_modify _ p rfl) rfl
  rename_i hz
  split at hs
  · cases hs
    exact hidle _ (.of_same (Same.refl _)) rfl
  obtain ⟨hd, -, rfl⟩ := Option.map_eq_some_iff.mp hs
  have hrun := runHandler_trades h ⟨hp, hz⟩ hd
  dsimp only
  split
  · exact hrun _
  · exact (hrun _).before_stores (sameMemory_modify _ p rfl) rfl

end deliver

end Moonlight
