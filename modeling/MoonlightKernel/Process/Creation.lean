import MoonlightKernel.Process.MapBlocks
import MoonlightKernel.Process.Pid
import MoonlightKernel.UserPages

/-!
# Creating a process

`fork`, `process_dup` and `process_ini_kern` make a process and leave its cleaning up to
`free_process` when they fail.  A creation that fails ought to leave nothing behind; `free_process`
gives back the record of the process, and nothing of what it has got in the meantime.

* `Tracked.processDup`, `Tracked.processIniKern` — the source functions with `kmalloc` and `kfree`;
* `Creation` — a call of one of the three, `NoTrace` — what it owes when it fails;
* `Takes` — what has been taken from the two allocators so far;
* `undone_iff` — `free_process` undoes a creation that has taken nothing yet;
* `NoPid`, `processAllocPid_fails_iff` — when `process_alloc_pid` fails.
-/

set_option autoImplicit false

namespace Moonlight

open Sys Sys.Bitmap

namespace Tracked

/-! ## The source functions -/

/-- `process_dup`. -/
def processDup (L : Layout) (swap swap2 p : Nat) (t : Tracked) : Option Nat × Tracked :=
  match t.processNew with
  | (none, t) => (none, t)
  | (some new, t) =>
    let r := copyProcess L swap swap2 p new t
    if r.1 < 0 then (none, freeProcess new r.2) else (some new, r.2)

/-- `process_ini_kern`. -/
def processIniKern (L : Layout) (vAddr size : Nat) (t : Tracked) : Option Nat × Tracked :=
  match t.processNew with
  | (none, t) => (none, t)
  | (some a, t) =>
    let prot := PAGE_PRESENT ||| PAGE_WRITE ||| PAGE_USER_SUPERVISOR
    let r := processAllocPid a t
    if r.1 ≠ 0 then (none, freeProcess a r.2) else
    let r := r.2.processMemoryAdd L a size vAddr prot (PROC_MEM_ADD_IMEDIATE ||| PROC_MEM_ADD_CODE)
    if r.1 ≠ 0 then (none, freeProcess a r.2) else
    let r := r.2.processMemoryAdd L a 4096 (KERNEL_POS - 4096) prot
      (PROC_MEM_ADD_IMEDIATE ||| PROC_MEM_ADD_STACK)
    if r.1 ≠ 0 then (none, freeProcess a r.2) else
    (some a, r.2.setKernel { r.2.kernel with processList := a :: r.2.kernel.processList })

section kernel

variable (t : Tracked)

/-- **`process_dup`** on the kernel state. -/
theorem processDup_kernel (L : Layout) (swap swap2 p : Nat) :
    ((t.processDup L swap swap2 p).1, (t.processDup L swap swap2 p).2.kernel) =
      Moonlight.processDup L swap swap2 p t.kernel := by
  unfold processDup Moonlight.processDup
  rw [← t.processNew_kernel]
  obtain ⟨new, t₁⟩ := t.processNew
  cases new with
  | none => rfl
  | some new =>
    dsimp only
    rw [← t₁.copyProcess_kernel L swap swap2 p new]
    split <;> rfl

/-- **`process_ini_kern`** on the kernel state. -/
theorem processIniKern_kernel (L : Layout) (vAddr size : Nat) :
    ((t.processIniKern L vAddr size).1, (t.processIniKern L vAddr size).2.kernel) =
      Moonlight.processIniKern L vAddr size t.kernel := by
  unfold processIniKern Moonlight.processIniKern processAllocPid
  rw [← t.processNew_kernel]
  obtain ⟨a, t₁⟩ := t.processNew
  cases a with
  | none => rfl
  | some a =>
    dsimp only
    by_cases h₁ : (Moonlight.processAllocPid a t₁.kernel).1 ≠ 0
    · rw [if_pos h₁, if_pos h₁]
      rfl
    rw [if_neg h₁, if_neg h₁]
    generalize ht₂ : t₁.setKernel (Moonlight.processAllocPid a t₁.kernel).2 = t₂
    have hk₂ : (Moonlight.processAllocPid a t₁.kernel).2 = t₂.kernel := by rw [← ht₂]; rfl
    rw [hk₂, ← t₂.processMemoryAdd_kernel]
    generalize t₂.processMemoryAdd L a size vAddr (PAGE_PRESENT ||| PAGE_WRITE ||| PAGE_USER_SUPERVISOR)
      (PROC_MEM_ADD_IMEDIATE ||| PROC_MEM_ADD_CODE) = r
    dsimp only
    by_cases h₂ : r.1 ≠ 0
    · rw [if_pos h₂, if_pos h₂]
      rfl
    rw [if_neg h₂, if_neg h₂, ← r.2.processMemoryAdd_kernel]
    dsimp only
    split <;> rfl

end kernel

end Tracked

/-! ## What a creation that fails owes -/

/-- A call that creates a process. -/
inductive Creation where
  | fork (p : Nat)
  | dup (p : Nat)
  | iniKern (vAddr size : Nat)

/-- What a call does: whether it reports failure, and the state it leaves. -/
def Tracked.create (L : Layout) (swap swap2 : Nat) (t : Tracked) : Creation → Bool × Tracked
  | .fork p => (decide ((t.fork L swap swap2 p).1 < 0), (t.fork L swap swap2 p).2)
  | .dup p => ((t.processDup L swap swap2 p).1.isNone, (t.processDup L swap swap2 p).2)
  | .iniKern v n => ((t.processIniKern L v n).1.isNone, (t.processIniKern L v n).2)

/-- Nothing is left of a creation: the processes and their children, the blocks, the frames, tables
apart, and the pages in user space are those of before. -/
structure NoTrace (L : Layout) (t u : Tracked) : Prop where
  list : u.kernel.processList = t.kernel.processList
  children : ∀ q ∈ t.kernel.processList, (u.kernel.proc q).children = (t.kernel.proc q).children
  blocks : u.live = t.live
  frames : ∀ f, Avail u.kernel.machine f ↔ Avail t.kernel.machine f
  pages : SameUserPages L t.kernel.machine u.kernel.machine

/-- From `t` to `u`, the blocks `n` and the frames `F` have been taken; processes and their children
are as before. -/
structure Takes (n : Multiset Nat) (F : Nat → Prop) (t u : Tracked) : Prop where
  tree : Same Process.tree t.kernel u.kernel
  records : ∀ q, (u.recs q).children = (t.recs q).children
  live : u.live = n + t.live
  avail : ∀ f, Avail u.kernel.machine f ↔ Avail t.kernel.machine f ∧ ¬ F f
  held : ∀ f, F f → Avail t.kernel.machine f

namespace Takes

variable {n m : Multiset Nat} {F G : Nat → Prop} {t u v : Tracked}

theorem nothing (htree : Same Process.tree t.kernel u.kernel)
    (hrecs : ∀ q, (u.recs q).children = (t.recs q).children) (hlive : u.live = t.live)
    (havail : ∀ f, Avail u.kernel.machine f ↔ Avail t.kernel.machine f) :
    Takes 0 (fun _ => False) t u :=
  ⟨htree, hrecs, hlive.trans (zero_add _).symm,
    fun f => (havail f).trans (and_iff_left not_false).symm, fun _ h => h.elim⟩

theorem refl (t : Tracked) : Takes 0 (fun _ => False) t t :=
  .nothing (Same.refl _) (fun _ => rfl) rfl fun _ => Iff.rfl

theorem trans (h : Takes n F t u) (h' : Takes m G u v) : Takes (m + n) (fun f => F f ∨ G f) t v where
  tree := h.tree.trans h'.tree
  records q := (h'.records q).trans (h.records q)
  live := by rw [h'.live, h.live, add_assoc]
  avail f := by rw [h'.avail, h.avail, not_or, and_assoc]
  held f := by
    rintro (hf | hf)
    · exact h.held f hf
    · exact ((h.avail f).mp (h'.held f hf)).1

theorem congr (h : Takes n F t u) (hF : ∀ f, F f ↔ G f) : Takes n G t u := by
  have hFG : F = G := funext fun f => propext (hF f)
  rwa [← hFG]

/-- A step that takes blocks only. -/
theorem trans_blocks (h : Takes n F t u) (h' : Takes m (fun _ => False) u v) :
    Takes (m + n) F t v :=
  (h.trans h').congr fun _ => or_iff_left not_false

/-- A step that takes nothing comes first. -/
theorem nothing_trans (h : Takes 0 (fun _ => False) t u) (h' : Takes n F u v) : Takes n F t v := by
  have hboth := h.trans h'
  rw [add_zero] at hboth
  exact hboth.congr fun _ => or_iff_right not_false

end Takes

/-- The state after `process_new` with a block at `a`. -/
def Tracked.born (a : Nat) (t : Tracked) : Tracked :=
  ({ t with kernel := t.kernel.kmalloc.2, live := a ::ₘ t.live }.modify a fun _ => Process.zero).record a
    fun _ => .empty

section born

variable (a : Nat) (t : Tracked)

theorem Tracked.born_kernel :
    (t.born a).kernel = t.kernel.kmalloc.2.modify a fun _ => Process.zero := rfl

@[simp] theorem Tracked.born_machine : (t.born a).kernel.machine = t.kernel.machine := rfl

@[simp] theorem Tracked.born_live : (t.born a).live = a ::ₘ t.live := rfl

@[simp] theorem Tracked.born_recs : (t.born a).recs a = .empty := record_recs_self ..

@[simp] theorem Tracked.born_proc : (t.born a).kernel.proc a = Process.zero := by
  rw [born_kernel, Kernel.modify_proc_self]

theorem Tracked.born_proc_of_ne {q : Nat} (h : q ≠ a) :
    (t.born a).kernel.proc q = t.kernel.proc q := by
  rw [born_kernel, Kernel.modify_proc_of_ne _ h, Kernel.kmalloc_proc]

end born

/-- **`process_new`.** -/
theorem Tracked.processNew_spec (t : Tracked) :
    (t.kernel.kmallocs 0 = none ∧ t.processNew = (none, t.setKernel t.kernel.kmalloc.2)) ∨
      ∃ a, t.kernel.kmallocs 0 = some a ∧ t.processNew = (some a, t.born a) := by
  unfold processNew
  rcases t.kmalloc_spec with ⟨hno, he⟩ | ⟨a, ha, he⟩
  · rw [he]
    exact .inl ⟨hno, rfl⟩
  · rw [he]
    exact .inr ⟨a, ha, rfl⟩

section undone

variable {L : Layout} {n : Multiset Nat} {F : Nat → Prop} {t u : Tracked} {a : Nat}

theorem noTrace_of_noRecord (L : Layout) (t : Tracked) :
    NoTrace L t (t.setKernel t.kernel.kmalloc.2) :=
  ⟨rfl, fun _ _ => rfl, rfl, fun _ => Iff.rfl, .refl L _⟩

/-- **What `free_process` undoes.** -/
theorem undone_iff (hfresh : a ∉ t.kernel.processList) (h : Takes n F (t.born a) u) :
    NoTrace L t (u.freeProcess a) ↔
      (n = 0 ∧ ∀ f, ¬ F f) ∧ SameUserPages L t.kernel.machine u.kernel.machine := by
  have hfather : (u.kernel.proc a).father = none := by
    rw [h.tree.father, Tracked.born_proc]
    rfl
  have hchildren : (u.kernel.proc a).children = [] := by
    rw [h.tree.children, Tracked.born_proc]
    rfl
  have hrecords : (u.recs a).children = [] := by
    rw [h.records, Tracked.born_recs]
    rfl
  have hlive : (u.freeProcess a).live = n + t.live := by
    unfold Tracked.freeProcess
    dsimp only
    rw [hfather]
    dsimp only
    rw [hrecords, List.foldl_nil, Tracked.setKernel_live, Tracked.kfree_live, Tracked.record_live,
      h.live, Tracked.born_live, Multiset.add_cons, Multiset.erase_cons_head]
  have hmach : (u.freeProcess a).kernel.machine = u.kernel.machine := by
    rw [Tracked.freeProcess_kernel, freeProcess_machine]
  have hlist : (u.freeProcess a).kernel.processList = t.kernel.processList := by
    rw [Tracked.freeProcess_kernel, (freeProcess_leaf hchildren).1, h.tree.list]
    exact List.erase_of_not_mem hfresh
  have hkids (q : Nat) (hq : q ∈ t.kernel.processList) :
      ((u.freeProcess a).kernel.proc q).children = (t.kernel.proc q).children := by
    have hne : q ≠ a := fun he => hfresh (he ▸ hq)
    rw [Tracked.freeProcess_kernel, ((freeProcess_leaf hchildren).2 q).2, hfather,
      if_neg (by simp), h.tree.children, Tracked.born_proc_of_ne a t hne]
  constructor
  · intro hno
    refine ⟨⟨?_, fun f hf => ?_⟩, ?_⟩
    · have hblocks := hno.blocks
      rw [hlive] at hblocks
      exact right_eq_add.mp hblocks.symm
    · have hav := hno.frames f
      rw [hmach, h.avail] at hav
      exact (hav.mpr (h.held f hf)).2 hf
    · have hpages := hno.pages
      rwa [hmach] at hpages
  · rintro ⟨⟨hn, hF⟩, hpages⟩
    refine ⟨hlist, hkids, by rw [hlive, hn, zero_add], fun f => ?_, by rwa [hmach]⟩
    rw [hmach, h.avail]
    exact and_iff_left (hF f)

end undone

/-! ## The pid -/

/-- Every pid that `process_alloc_pid` can try is in use: `PROC_MAX_PID` is one of them when it is
the next. -/
structure NoPid (k : Kernel) : Prop where
  used : ∀ i, PROC_MIN_PID ≤ i → i < PROC_MAX_PID → i ∈ pidsOf k
  last : k.lastPid = PROC_MAX_PID → PROC_MAX_PID ∈ pidsOf k

/-- Only the first try can be `PROC_MAX_PID`. -/
theorem allocPidLoop_lt (pids : List Int) (n : Nat) : ∀ {x : Int},
    (PROC_MIN_PID ≤ x ∧ x < PROC_MAX_PID) → (allocPidLoop pids n x).1 = 0 →
      (allocPidLoop pids n x).2.1 < PROC_MAX_PID := by
  induction n with
  | zero =>
    intro x _ h
    exact absurd h (by show ¬ -EAGAIN = 0; decide)
  | succ n ih =>
    intro x hx
    rw [allocPidLoop_succ]
    split
    · exact ih (nextPid_bounds ⟨hx.1, Int.le_of_lt hx.2⟩)
    · exact fun _ => hx.2

theorem processAllocPid_fails_iff {k : Kernel} (h : PidInv k.lastPid) (p : Nat) :
    (processAllocPid p k).1 ≠ 0 ↔ NoPid k := by
  have hloop : (processAllocPid p k).1 = (allocPidLoop (pidsOf k) (4094 + 1) k.lastPid).1 := by
    rw [← pidTries]
    rfl
  constructor
  · intro hfail
    refine ⟨fun i hlo hhi => h.complete hfail ⟨hlo, hhi⟩, fun hlast => ?_⟩
    by_contra hfree
    rw [hloop, allocPidLoop_succ, hlast, if_neg hfree] at hfail
    exact hfail rfl
  · intro hno hok
    rw [hloop] at hok
    rcases allocPidLoop_spec (pidsOf k) (4094 + 1) h with hfail | ⟨-, hbounds, hnew⟩
    · rw [hok] at hfail
      exact absurd hfail (by decide)
    by_cases hlt : (allocPidLoop (pidsOf k) (4094 + 1) k.lastPid).2.1 < PROC_MAX_PID
    · exact hnew (hno.used _ hbounds.1 hlt)
    by_cases hlast : k.lastPid < PROC_MAX_PID
    · exact hlt (allocPidLoop_lt _ _ ⟨h.1, hlast⟩ hok)
    · have hmax : (allocPidLoop (pidsOf k) (4094 + 1) k.lastPid).2.1 = PROC_MAX_PID :=
        Int.le_antisymm hbounds.2 (Int.not_lt.mp hlt)
      rw [hmax] at hnew
      exact hnew (hno.last (Int.le_antisymm h.2 (Int.not_lt.mp hlast)))

/-- The error code of `process_alloc_pid` is negative. -/
theorem processAllocPid_lt_iff {k : Kernel} (h : PidInv k.lastPid) (p : Nat) :
    (processAllocPid p k).1 < 0 ↔ NoPid k := by
  rw [← processAllocPid_fails_iff h p]
  rcases allocPidLoop_spec (pidsOf k) (PROC_MAX_PID - PROC_MIN_PID + 1).toNat h with hfail | ⟨hok, -⟩
  · have hr : (processAllocPid p k).1 = -EAGAIN := hfail
    rw [hr]
    decide
  · have hr : (processAllocPid p k).1 = 0 := hok
    rw [hr]
    decide

end Moonlight
