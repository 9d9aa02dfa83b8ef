import MoonlightKernel.Lib.Run
import MoonlightKernel.Process.Frame
import Mathlib.Tactic.Tauto

/-!
# The process tree

`process_list`, the `father` pointers and the `children` records describe one forest.  They are
updated in `process_ini_kern`, `copy_process` and `free_process`; the last one moves the records
of orphans to the process with pid 1 but leaves their `father` pointers at the freed process.

* `TreeOk` — the three agree;
* `freeProcess_treeOk`, `linkChild_treeOk` — the two functions that change the forest;
* `freed` — the process that a step passes to `free_process`;
* `tree_ok_without_orphans` — the forest stays intact as long as no freed process has children.
-/

set_option autoImplicit false

namespace Moonlight

open Sys

/-- The fields of a process that belong to the tree. -/
def Process.tree (pr : Process) : Option Nat × List Nat := (pr.father, pr.children)

/-- **The process tree is intact.** -/
structure TreeOk (k : Kernel) : Prop where
  nodup : k.processList.Nodup
  father : ∀ p ∈ k.processList, ∀ f, (k.proc p).father = some f →
    f ∈ k.processList ∧ (k.proc f).children.count p = 1
  children : ∀ p ∈ k.processList, ∀ c ∈ (k.proc p).children,
    c ∈ k.processList ∧ (k.proc c).father = some p

theorem Same.father {k k' : Kernel} (h : Same Process.tree k k') (q : Nat) :
    (k'.proc q).father = (k.proc q).father := h.field Prod.fst q

theorem Same.children {k k' : Kernel} (h : Same Process.tree k k') (q : Nat) :
    (k'.proc q).children = (k.proc q).children := h.field Prod.snd q

theorem TreeOk.same {k k' : Kernel} (hk : TreeOk k) (h : Same Process.tree k k') : TreeOk k' := by
  constructor
  · rw [h.list]; exact hk.nodup
  · intro p hp f hf
    rw [h.list] at hp ⊢
    rw [h.father] at hf
    rw [h.children]
    exact hk.father p hp f hf
  · intro p hp c hc
    rw [h.list] at hp ⊢
    rw [h.children] at hc
    rw [h.father]
    exact hk.children p hp c hc

/-! ## `free_process` -/

/-- What `free_process` does to the tree when the process has no children. -/
theorem freeProcess_leaf {p : Nat} {k : Kernel} (h : (k.proc p).children = []) :
    (freeProcess p k).processList = k.processList.erase p ∧
      ∀ q, ((freeProcess p k).proc q).father = (k.proc q).father ∧
        ((freeProcess p k).proc q).children =
          if (k.proc p).father = some q then (k.proc q).children.erase p
          else (k.proc q).children := by
  unfold freeProcess
  dsimp only
  cases hf : (k.proc p).father with
  | none =>
    dsimp only
    rw [h, List.foldl_nil]
    refine ⟨rfl, fun q => ?_⟩
    rw [Kernel.modify_proc]
    split
    · rename_i hq; subst hq; simp [h]
    · simp
  | some f =>
    dsimp only
    have hp : (({ k with processList := k.processList.erase p }.modify f fun pr =>
        { pr with children := pr.children.erase p }).proc p).children = [] := by
      rw [Kernel.modify_proc]
      split
      · rename_i hpf; subst hpf; simp [h]
      · exact h
    rw [hp, List.foldl_nil]
    refine ⟨rfl, fun q => ?_⟩
    by_cases hq : q = p
    · subst hq
      rw [Kernel.modify_proc_self]
      refine ⟨?_, ?_⟩
      · rw [Kernel.modify_proc]
        split
        · rename_i hqf; subst hqf; rfl
        · rfl
      · simp [h]
    · rw [Kernel.modify_proc_of_ne _ hq, Kernel.modify_proc]
      by_cases hqf : q = f
      · subst hqf; simp
      · rw [if_neg hqf, if_neg fun h => hqf (Option.some.inj h).symm]
        exact ⟨rfl, rfl⟩

/-- **A childless process can be freed.** -/
theorem freeProcess_treeOk {p : Nat} {k : Kernel} (hk : TreeOk k) (h : (k.proc p).children = []) :
    TreeOk (freeProcess p k) := by
  obtain ⟨hlist, hproc⟩ := freeProcess_leaf h
  have hmem : ∀ q, q ∈ (freeProcess p k).processList ↔ q ≠ p ∧ q ∈ k.processList := fun q => by
    rw [hlist]; exact hk.nodup.mem_erase_iff
  constructor
  · rw [hlist]; exact hk.nodup.erase p
  · intro q hq f hf
    rw [(hproc q).1] at hf
    obtain ⟨hqp, hq⟩ := (hmem q).mp hq
    obtain ⟨hfl, hcount⟩ := hk.father q hq f hf
    refine ⟨(hmem f).mpr ⟨?_, hfl⟩, ?_⟩
    · -- the freed process is nobody's father
      rintro rfl
      rw [h] at hcount
      cases hcount
    · rw [(hproc f).2]
      split
      · rw [List.count_erase_of_ne hqp]; exact hcount
      · exact hcount
  · intro q hq c hc
    obtain ⟨hqp, hq⟩ := (hmem q).mp hq
    rw [(hproc q).2] at hc
    have hc' : c ∈ (k.proc q).children := by
      split at hc
      · exact List.mem_of_mem_erase hc
      · exact hc
    obtain ⟨hcl, hcf⟩ := hk.children q hq c hc'
    refine ⟨(hmem c).mpr ⟨?_, hcl⟩, ?_⟩
    · -- its only record has been removed from its father's list
      rintro rfl
      rw [if_pos hcf] at hc
      have hcount := (hk.father c hcl q hcf).2
      have : ((k.proc q).children.erase c).count c = 0 := by
        rw [List.count_erase_self, hcount]
      exact absurd hc (List.count_eq_zero.mp this)
    · rw [(hproc c).1]; exact hcf

/-- **A process with children cannot be freed**: the child keeps a pointer to it. -/
theorem freeProcess_orphan {p c : Nat} {k : Kernel} (hk : TreeOk k) (hp : p ∈ k.processList)
    (hc : c ∈ (k.proc p).children) (hcp : c ≠ p) : ¬ TreeOk (freeProcess p k) := by
  intro h
  have hs : Same Process.father _ _ := freeProcess_same (fun _ _ => rfl) p k
  have hlist : (freeProcess p k).processList = k.processList.erase p := hs.list
  obtain ⟨hcl, hcf⟩ := hk.children p hp c hc
  have hmem : c ∈ (freeProcess p k).processList := by
    rw [hlist]; exact hk.nodup.mem_erase_iff.mpr ⟨hcp, hcl⟩
  have hgone := (h.father c hmem p ((hs.proc c).trans hcf)).1
  rw [hlist] at hgone
  exact (hk.nodup.mem_erase_iff.mp hgone).1 rfl

/-! ## New processes -/

/-- `a` is a process under construction: in no list, without father and children. -/
structure Newborn (a : Nat) (k : Kernel) : Prop where
  tree : TreeOk k
  notMem : a ∉ k.processList
  father : (k.proc a).father = none
  children : (k.proc a).children = []

theorem Newborn.same {a : Nat} {k k' : Kernel} (h : Newborn a k) (hs : Same Process.tree k k') :
    Newborn a k' := by
  refine ⟨h.tree.same hs, ?_, ?_, ?_⟩
  · rw [hs.list]; exact h.notMem
  · rw [hs.father]; exact h.father
  · rw [hs.children]; exact h.children

theorem Newborn.free {a : Nat} {k : Kernel} (h : Newborn a k) : TreeOk (freeProcess a k) :=
  freeProcess_treeOk h.tree h.children

/-- The record that `process_new` returns is not one of a process in the list. -/
def FreshRecord (k : Kernel) : Prop := ∀ a, k.kmallocs 0 = some a → a ∉ k.processList

theorem processNew_newborn {a : Nat} {k k' : Kernel} (hk : TreeOk k) (hf : FreshRecord k)
    (h : processNew k = (some a, k')) : Newborn a k' := by
  unfold processNew at h
  split at h
  · cases h
  rename_i b k₁ hm
  obtain ⟨hb, rfl⟩ := Kernel.kmalloc_eq hm
  cases h
  have ha : a ∉ k.processList := hf a hb
  have hne : ∀ q ∈ k.processList, q ≠ a := fun q hq h => ha (h ▸ hq)
  refine ⟨⟨hk.nodup, fun p hp f hf => ?_, fun p hp c hc => ?_⟩, ha, ?_, ?_⟩
  · rw [Kernel.modify_proc_of_ne _ (hne p hp)] at hf
    obtain ⟨h1, h2⟩ := hk.father p hp f hf
    rw [Kernel.modify_proc_of_ne _ (hne f h1)]
    exact ⟨h1, h2⟩
  · rw [Kernel.modify_proc_of_ne _ (hne p hp)] at hc
    obtain ⟨h1, h2⟩ := hk.children p hp c hc
    rw [Kernel.modify_proc_of_ne _ (hne c h1)]
    exact ⟨h1, h2⟩
  · rw [Kernel.modify_proc_self]; rfl
  · rw [Kernel.modify_proc_self]; rfl

theorem processNew_none {k k' : Kernel} (h : processNew k = (none, k')) : Same Process.tree k k' := by
  unfold processNew at h
  split at h
  · rename_i hm
    cases h
    exact (Kernel.kmalloc_eq hm).2 ▸ Same.kmalloc k
  · cases h

theorem addMap_tree {pflags : Nat} {pm : MapMemory} {pr pr' : Process}
    (h : pr.addMap pflags pm = some pr') : pr'.tree = pr.tree := by
  unfold Process.addMap at h
  split at h
  · cases h; rfl
  split at h
  · cases h; rfl
  split at h
  · cases h; rfl
  · cases h

theorem processMemoryFill_same (L : Layout) (p : Nat) (pm : MapMemory) (pflags : Nat) (k : Kernel) :
    Same Process.tree k (processMemoryFill L p pm pflags k).2 := by
  unfold processMemoryFill
  generalize physBzero L pm.pAddr pm.size k.machine = r
  dsimp only
  split
  · exact Same.setMachine k _
  generalize (if pflags &&& PROC_MEM_ADD_IMEDIATE ≠ 0
    then pageMapRange L pm.pAddr pm.vAddr pm.flags pm.size r.2 else (0, r.2)) = r
  split
  · exact Same.setMachine k _
  generalize (if pflags &&& PROC_MEM_ADD_IMEDIATE ≠ 0
    then pflags - PROC_MEM_ADD_IMEDIATE else pflags) = pflags
  split
  · rename_i pr hpr
    refine (Same.setMachine k r.2).trans ?_
    exact Same.modify (k.setMachine r.2) p (f := fun _ => pr) (addMap_tree hpr)
  · exact Same.setMachine k _

theorem processMemoryAdd_same (L : Layout) (p size vAddr mflags pflags : Nat) (k : Kernel) :
    Same Process.tree k (processMemoryAdd L p size vAddr mflags pflags k).2 := by
  unfold processMemoryAdd
  dsimp only
  generalize pageGetPhys L (vAddr &&& PAGE_ADDR) k.machine = q
  generalize (if add32 size (vAddr - (vAddr &&& PAGE_ADDR)) % 4096 ≠ 0
    then (add32 size (vAddr - (vAddr &&& PAGE_ADDR)) >>> 12) + 1
    else add32 size (vAddr - (vAddr &&& PAGE_ADDR)) >>> 12) = n
  split
  · exact Same.setMachine k _
  split
  · exact Same.setMachine k _
  have hs : Same Process.tree k (k.setMachine q.2).kmalloc.2 :=
    (Same.setMachine k _).trans (Same.kmalloc _)
  split
  · rename_i hm
    rw [← (Kernel.kmalloc_eq hm).2] at hs
    exact hs
  · rename_i hm
    rw [← (Kernel.kmalloc_eq hm).2] at hs
    split
    · exact hs.trans (Same.setMachine _ _)
    · exact (hs.trans (Same.setMachine _ _)).trans (processMemoryFill_same ..)

/-- **`process_ini_kern` keeps the tree intact**, also when it fails. -/
theorem processIniKern_treeOk {L : Layout} {vAddr size : Nat} {k : Kernel} (hk : TreeOk k)
    (hf : FreshRecord k) : TreeOk (processIniKern L vAddr size k).2 := by
  unfold processIniKern
  split
  · rename_i k₁ hn
    exact hk.same (processNew_none hn)
  · rename_i a k₁ hn
    have h₁ := processNew_newborn hk hf hn
    have h₂ := h₁.same (processAllocPid_same (fun _ _ => rfl) a k₁)
    dsimp only
    split
    · exact h₂.free
    have h₃ := h₂.same (processMemoryAdd_same L a size vAddr
      (PAGE_PRESENT ||| PAGE_WRITE ||| PAGE_USER_SUPERVISOR)
      (PROC_MEM_ADD_IMEDIATE ||| PROC_MEM_ADD_CODE) _)
    split
    · exact h₃.free
    have h₄ := h₃.same (processMemoryAdd_same L a 4096 (KERNEL_POS - 4096)
      (PAGE_PRESENT ||| PAGE_WRITE ||| PAGE_USER_SUPERVISOR)
      (PROC_MEM_ADD_IMEDIATE ||| PROC_MEM_ADD_STACK) _)
    split
    · exact h₄.free
    -- the new process has no father and no children
    refine ⟨List.nodup_cons.mpr ⟨h₄.notMem, h₄.tree.nodup⟩, fun p hp f hpf => ?_,
      fun p hp c hc => ?_⟩
    · rcases List.mem_cons.mp hp with rfl | hp
      · rw [h₄.father] at hpf; cases hpf
      · obtain ⟨h1, h2⟩ := h₄.tree.father p hp f hpf
        exact ⟨List.mem_cons_of_mem _ h1, h2⟩
    · rcases List.mem_cons.mp hp with rfl | hp
      · rw [h₄.children] at hc; cases hc
      · obtain ⟨h1, h2⟩ := h₄.tree.children p hp c hc
        exact ⟨List.mem_cons_of_mem _ h1, h2⟩

/-! ## `fork` -/

theorem mem_insertAfter {p new q : Nat} : ∀ {l : List Nat}, p ∈ l →
    (q ∈ insertAfter p new l ↔ q = new ∨ q ∈ l)
  | x :: xs, hp => by
    rw [insertAfter]
    split
    · simp only [List.mem_cons]; tauto
    · rename_i hx
      have hp' : p ∈ xs := (List.mem_cons.mp hp).resolve_left (Ne.symm hx)
      simp only [List.mem_cons, mem_insertAfter hp']
      tauto

theorem nodup_insertAfter {p new : Nat} : ∀ {l : List Nat}, p ∈ l → new ∉ l → l.Nodup →
    (insertAfter p new l).Nodup
  | x :: xs, hp, hn, hl => by
    rw [insertAfter]
    rw [List.nodup_cons] at hl
    rw [List.mem_cons, not_or] at hn
    split
    · simp only [List.nodup_cons, List.mem_cons, not_or]
      exact ⟨⟨Ne.symm hn.1, hl.1⟩, hn.2, hl.2⟩
    · rename_i hx
      have hp' : p ∈ xs := (List.mem_cons.mp hp).resolve_left (Ne.symm hx)
      rw [List.nodup_cons, mem_insertAfter hp', not_or]
      exact ⟨⟨Ne.symm hn.1, hl.1⟩, nodup_insertAfter hp' hn.2 hl.2⟩

/-- What `linkChild` does to the tree. -/
theorem linkChild_tree {p new : Nat} {k : Kernel} (hne : new ≠ p) (q : Nat) :
    ((linkChild p new k).proc q).tree =
      if q = new then (some p, []) else
      if q = p then ((k.proc p).father, new :: (k.proc p).children) else (k.proc q).tree := by
  unfold linkChild
  dsimp only
  rw [Kernel.modify_proc]
  by_cases hq : q = p
  · subst hq
    rw [if_pos rfl, if_neg (Ne.symm hne), if_pos rfl, Kernel.modify_proc_of_ne _ (Ne.symm hne)]
    rfl
  · rw [if_neg hq, Kernel.modify_proc]
    split <;> rfl

/-- **The child takes its place in the tree.** -/
theorem linkChild_treeOk {p new : Nat} {k : Kernel} (h : Newborn new k) (hp : p ∈ k.processList) :
    TreeOk (linkChild p new k) := by
  have hk := h.tree
  have hnew : ∀ q ∈ k.processList, q ≠ new := fun q hq he => h.notMem (he ▸ hq)
  have hmem : ∀ q, q ∈ (linkChild p new k).processList ↔ q = new ∨ q ∈ k.processList :=
    fun q => mem_insertAfter hp
  have htree : ∀ q, ((linkChild p new k).proc q).tree = _ :=
    fun q => linkChild_tree (hnew p hp).symm q
  have hfather : ∀ q ∈ k.processList, ((linkChild p new k).proc q).father = (k.proc q).father := by
    intro q hq
    refine (congrArg Prod.fst (htree q)).trans ?_
    rw [if_neg (hnew q hq)]
    split
    · rename_i hqp; subst hqp; rfl
    · rfl
  have hchildren : ∀ q ∈ k.processList, ((linkChild p new k).proc q).children =
      if q = p then new :: (k.proc q).children else (k.proc q).children := by
    intro q hq
    refine (congrArg Prod.snd (htree q)).trans ?_
    rw [if_neg (hnew q hq)]
    split
    · rename_i hqp; subst hqp; rfl
    · rfl
  have hnewTree : ((linkChild p new k).proc new).tree = (some p, []) := by
    rw [htree, if_pos rfl]
  -- no record names the newborn yet
  have hno : ∀ q ∈ k.processList, (k.proc q).children.count new = 0 := fun q hq =>
    List.count_eq_zero.mpr fun hc => h.notMem (hk.children q hq new hc).1
  constructor
  · exact nodup_insertAfter hp h.notMem hk.nodup
  · intro q hq f hf
    rcases (hmem q).mp hq with rfl | hq
    · have : f = p := Option.some.inj (hf.symm.trans (congrArg Prod.fst hnewTree))
      subst this
      refine ⟨(hmem f).mpr (.inr hp), ?_⟩
      rw [hchildren f hp, if_pos rfl, List.count_cons_self, hno f hp]
    · rw [hfather q hq] at hf
      obtain ⟨h1, h2⟩ := hk.father q hq f hf
      refine ⟨(hmem f).mpr (.inr h1), ?_⟩
      rw [hchildren f h1]
      split
      · rw [List.count_cons_of_ne (hnew q hq).symm]; exact h2
      · exact h2
  · intro q hq c hc
    rcases (hmem q).mp hq with rfl | hq
    · have hnone : ((linkChild p q k).proc q).children = [] := congrArg Prod.snd hnewTree
      rw [hnone] at hc
      cases hc
    · rw [hchildren q hq] at hc
      have hold : c ∈ (k.proc q).children → c ∈ (linkChild p new k).processList ∧
          ((linkChild p new k).proc c).father = some q := fun hc => by
        obtain ⟨h1, h2⟩ := hk.children q hq c hc
        exact ⟨(hmem c).mpr (.inr h1), (hfather c h1).trans h2⟩
      split at hc
      · rename_i hqp
        subst hqp
        rcases List.mem_cons.mp hc with rfl | hc
        · exact ⟨(hmem c).mpr (.inl rfl), congrArg Prod.fst hnewTree⟩
        · exact hold hc
      · exact hold hc

theorem processNew_list {k k' : Kernel} {a : Option Nat} (h : processNew k = (a, k')) :
    k'.processList = k.processList := by
  unfold processNew at h
  split at h <;> rename_i hm <;> cases h <;> rw [(Kernel.kmalloc_eq hm).2] <;> rfl

/-- `copy_process` fails with the child still outside the tree, or links it. -/
theorem copyProcess_newborn (L : Layout) (swap swap2 : Nat) {p new : Nat} {k : Kernel}
    (h : Newborn new k) (hp : p ∈ k.processList) :
    ((copyProcess L swap swap2 p new k).1 < 0 → Newborn new (copyProcess L swap swap2 p new k).2) ∧
      (¬ (copyProcess L swap swap2 p new k).1 < 0 →
        TreeOk (copyProcess L swap swap2 p new k).2 ∧
          ((copyProcess L swap swap2 p new k).2.proc new).father = some p) := by
  unfold copyProcess
  have h₁ := processAllocPid_same (v := Process.tree) (fun _ _ => rfl) new k
  generalize processAllocPid new k = r at h₁
  dsimp only
  split
  · exact ⟨fun _ => h.same h₁, fun hn => absurd (show (-1 : Int) < 0 by decide) hn⟩
  have h₂ := h₁.trans (copyMemory_same (fun _ _ => rfl) (fun _ _ => rfl) (fun _ _ => rfl)
    L swap swap2 p new r.2)
  generalize copyMemory L swap swap2 p new r.2 = r at h₂
  split
  · exact ⟨fun _ => h.same h₂, fun hn => absurd (show (-1 : Int) < 0 by decide) hn⟩
  replace h₂ := h₂.trans
    (copySignals_same (fun _ _ _ => rfl) new (r.2.proc p).signal.sigQueue r.2)
  generalize (r.2.proc p).signal.sigQueue.foldl
    (fun k s => (addSignal s.sigHandled (some new) s.state k).2) r.2 = k₂ at h₂
  have h₃ := h₂.trans (Same.kmalloc k₂)
  split
  · rename_i hm
    rw [← (Kernel.kmalloc_eq hm).2] at h₃
    exact ⟨fun _ => h.same h₃, fun hn => absurd (show (-1 : Int) < 0 by decide) hn⟩
  · rename_i k₃ hm
    rw [← (Kernel.kmalloc_eq hm).2] at h₃
    have hp₃ : p ∈ k₃.processList := h₃.list ▸ hp
    have hborn := h.same h₃
    refine ⟨fun hn => absurd hn (Int.lt_irrefl 0), fun _ => ⟨linkChild_treeOk hborn hp₃, ?_⟩⟩
    have hne : new ≠ p := fun he => hborn.notMem (he ▸ hp₃)
    exact (congrArg Prod.fst (linkChild_tree hne new)).trans (by rw [if_pos rfl])

/-- **`fork` keeps the tree intact**, also when it fails. -/
theorem fork_treeOk {L : Layout} {swap swap2 p : Nat} {k : Kernel} (hk : TreeOk k)
    (hf : FreshRecord k) (hp : p ∈ k.processList) : TreeOk (fork L swap swap2 p k).2 := by
  unfold fork
  split
  · rename_i k₁ hn
    exact hk.same (processNew_none hn)
  rename_i new k₁ hn
  have hp₁ : p ∈ k₁.processList := by
    rw [processNew_list hn]; exact hp
  obtain ⟨hcopy, htree⟩ := copyProcess_newborn L swap swap2 (processNew_newborn hk hf hn) hp₁
  dsimp only
  split
  · rename_i herr
    exact (hcopy herr).free
  · rename_i hok
    obtain ⟨h1, h2⟩ := htree hok
    exact h1.same (Same.modify _ new (f := fun pr => { pr with father := some p })
      (Prod.ext h2.symm rfl))

/-! ## Death and reaping -/

/-- A process that dies now is freed at once: it has no father, or one that has set a handler for
`SIGCHLD`. -/
def FreedAtDeath (k : Kernel) (p : Nat) : Prop :=
  (k.proc p).father.all fun f => ((k.proc f).signal.sigHandler SIGCHLD).isSome

instance (k : Kernel) (p : Nat) : Decidable (FreedAtDeath k p) :=
  inferInstanceAs (Decidable (_ = true))

/-- Whether a process is freed when it dies depends on the tree and on the handlers. -/
theorem FreedAtDeath.same {k k' : Kernel} {p : Nat} (ht : Same Process.tree k k')
    (hh : Same (fun pr => pr.signal.sigHandler) k k') : FreedAtDeath k' p ↔ FreedAtDeath k p := by
  unfold FreedAtDeath
  rw [ht.father p]
  have : (fun f => ((k'.proc f).signal.sigHandler SIGCHLD).isSome) =
      fun f => ((k.proc f).signal.sigHandler SIGCHLD).isSome := by
    funext f
    rw [hh.proc f]
  rw [this]

theorem notifyFather_treeOk {p : Nat} {k : Kernel} (hk : TreeOk k)
    (h : FreedAtDeath k p → (k.proc p).children = []) : TreeOk (notifyFather p k) := by
  unfold notifyFather
  split
  · rename_i f hf
    have hs : Same Process.tree k (addSignal SIGCHLD (some f) SIG_SOFT k).2 :=
      addSignal_same (fun _ _ _ => rfl) _ _ _ k
    have hh : Same (fun pr => pr.signal.sigHandler) k (addSignal SIGCHLD (some f) SIG_SOFT k).2 :=
      addSignal_same (fun _ _ _ => rfl) _ _ _ k
    generalize (addSignal SIGCHLD (some f) SIG_SOFT k).2 = k₁ at hs hh
    have hz : Same Process.tree k (k₁.modify p (Process.setState .ZOMBIE)) :=
      hs.trans (Same.modify k₁ p rfl)
    dsimp only
    split
    · rename_i hset
      refine freeProcess_treeOk (hk.same hz) ((hz.children p).trans (h ?_))
      rw [FreedAtDeath, hf, Option.all_some, ← hh.proc f]
      exact hset
    · exact hk.same hz
  · rename_i hf
    have hz : Same Process.tree k (k.modify p (Process.setState .ZOMBIE)) := Same.modify k p rfl
    refine freeProcess_treeOk (hk.same hz) ((hz.children p).trans (h ?_))
    rw [FreedAtDeath, hf, Option.all_none]

theorem processDie_treeOk {L : Layout} {p : Nat} {k : Kernel} (hk : TreeOk k)
    (h : FreedAtDeath k p → (k.proc p).children = []) : TreeOk (processDie L p k) := by
  have hmem : Same Process.tree k ((processFreeAllMemory L p k).modify p Process.clearQueue) :=
    (processFreeAllMemory_same (fun _ => rfl) L p k).trans (Same.modify _ p rfl)
  have hh : Same (fun pr => pr.signal.sigHandler) k
      ((processFreeAllMemory L p k).modify p Process.clearQueue) :=
    (processFreeAllMemory_same (fun _ => rfl) L p k).trans (Same.modify _ p rfl)
  have hdead : TreeOk (notifyFather p
      ((processFreeAllMemory L p k).modify p Process.clearQueue)) := by
    refine notifyFather_treeOk (hk.same hmem) fun hfreed => (hmem.children p).trans (h ?_)
    exact (FreedAtDeath.same hmem hh).mp hfreed
  unfold processDie processDieSafe
  dsimp only
  split
  · exact ⟨hdead.nodup, hdead.father, hdead.children⟩
  · exact hdead

theorem endOfChild_treeOk {c p : Nat} {k : Kernel} (hk : TreeOk k) (h : (k.proc c).children = []) :
    TreeOk (endOfChild c p k) := by
  have hs : Same Process.tree k
      (k.modify p (Process.setReply (k.proc c).pid (k.proc c).endValue)) := Same.modify k p rfl
  exact (freeProcess_treeOk (hk.same hs) ((hs.children c).trans h)).same (Same.modify _ p rfl)

theorem runHandler_treeOk {L : Layout} {h : Shandler} {p signum : Nat} {k : Kernel} (hk : TreeOk k)
    (hdie : h = .sigTerm ∨ h = .sigCore → FreedAtDeath k p → (k.proc p).children = [])
    (hreap : h = .childEnded → ∀ c, ((k.proc p).children.find? fun c => Reapable k p c) = some c →
      (k.proc c).children = []) : TreeOk (runHandler L h p signum k) := by
  have hset : ∀ v, TreeOk (k.modify p (Process.setEndValue v)) := fun v =>
    hk.same (Same.modify k p rfl)
  have hfreed : ∀ v, FreedAtDeath (k.modify p (Process.setEndValue v)) p → FreedAtDeath k p :=
    fun v => (FreedAtDeath.same (Same.modify k p rfl) (Same.modify k p rfl)).mp
  cases h with
  | sigTerm =>
    refine processDie_treeOk (hset _) fun hd => ?_
    rw [Kernel.modify_proc_self]
    exact hdie (.inl rfl) (hfreed _ hd)
  | sigCore =>
    refine processDie_treeOk (hset _) fun hd => ?_
    rw [Kernel.modify_proc_self]
    exact hdie (.inr rfl) (hfreed _ hd)
  | sigIgn => exact hk
  | sigStop => exact (hset _).same (Same.modify _ p rfl)
  | sigCont => exact (hset _).same (Same.modify _ p rfl)
  | childEnded =>
    show TreeOk (childEnded p k)
    unfold childEnded
    split
    · rename_i c hc; exact endOfChild_treeOk hk (hreap rfl c hc)
    · exact hk
  | user => exact hk

theorem takeReply_treeOk {p : Nat} {k : Kernel} (hk : TreeOk k) : TreeOk (takeReply p k).2 :=
  hk.same (Same.modify k p (f := fun pr => { pr with waitingReturn := 0 }) rfl)

/-! ## Runs -/

/-- What may happen to the processes. -/
inductive ProcOp where
  | iniKern (vAddr size : Nat)
  | fork (swap swap2 p : Nat)
  | exit (p status : Nat)
  | addSignal (sig : Int) (type p : Nat)
  | sendSignal (p : Nat)
  | waitpid (p : Nat) (pid : Int) (option : Nat)
  | schedule (current : Option Nat)
  | memory (machine : Machine)

/-- One step.  The record of a new process is not that of a process in the list; a process that
has exited runs no more; `memory` stands for everything that changes only the machine, such as
`process_memory_switch`. -/
def procStep (L : Layout) (k : Kernel) : ProcOp → Kernel → Prop
  | .iniKern v n, k' => FreshRecord k ∧ k' = (processIniKern L v n k).2
  | .fork s s2 p, k' => p ∈ k.processList ∧ FreshRecord k ∧ k' = (Moonlight.fork L s s2 p k).2
  | .exit p status, k' =>
    p ∈ k.processList ∧ (k.proc p).state ≠ .ZOMBIE ∧ k' = Moonlight.exit L p status k
  | .addSignal sig type p, k' =>
    p ∈ k.processList ∧ k' = (Moonlight.addSignal sig (some p) type k).2
  | .sendSignal p, k' => p ∈ k.processList ∧ Moonlight.sendSignal L p k = some k'
  | .waitpid p pid option, k' => p ∈ k.processList ∧ k' = (processWaitpid p pid option k).2
  | .schedule c, k' => (∀ p, c = some p → p ∈ k.processList) ∧ k' = { k with current := c }
  | .memory m, k' => k' = k.setMachine m

/-- The process that the step passes to `free_process`, apart from one that was never in the
list. -/
def freed (k : Kernel) : ProcOp → Option Nat
  | .exit p _ => if FreedAtDeath k p then some p else none
  | .sendSignal p =>
    match (k.proc p).signal.sigQueue with
    | [] => none
    | s :: _ =>
      if (k.proc p).state = .ZOMBIE ∨ s.state = SIG_EXECUTING then none else
      match handlerFor (k.proc p) s with
      | some .sigTerm | some .sigCore => if FreedAtDeath k p then some p else none
      | some .childEnded => (k.proc p).children.find? fun c => Reapable k p c
      | _ => none
  | .waitpid p pid _ =>
    if pid = 0 ∨ pid < -1 ∨
        ((k.proc p).waitingPid = pid ∨ pid = -1) ∧ (k.proc p).waitingReturn ≠ 0 then none
    else (waitCandidate k p pid).filter fun c => (k.proc c).state = .ZOMBIE
  | _ => none

/-- No process with children is freed in this step. -/
def NoOrphans (k : Kernel) (op : ProcOp) : Prop := ∀ c, freed k op = some c → (k.proc c).children = []

theorem exit_treeOk {L : Layout} {p status : Nat} {k : Kernel} (hk : TreeOk k)
    (hg : NoOrphans k (.exit p status)) : TreeOk (exit L p status k) := by
  have hs : Same Process.tree k
      (k.modify p (Process.setEndValue (WAIT_EXITCODE (status % 256) 0))) := Same.modify k p rfl
  refine processDie_treeOk (hk.same hs) fun hd => (hs.children p).trans (hg p ?_)
  rw [freed, if_pos ((FreedAtDeath.same hs (Same.modify k p rfl)).mp hd)]

theorem sendSignal_treeOk {L : Layout} {p : Nat} {k k' : Kernel} (hk : TreeOk k)
    (hg : NoOrphans k (.sendSignal p)) (h : sendSignal L p k = some k') : TreeOk k' := by
  unfold sendSignal at h
  unfold NoOrphans freed at hg
  dsimp only at hg
  split at h
  · cases h; exact hk
  rename_i s rest hq
  rw [hq] at hg
  dsimp only at hg
  split at h
  · cases h; exact hk.same (Same.modify k p rfl)
  rename_i hz
  split at h
  · cases h; exact hk
  rename_i hx
  rw [if_neg (not_or.mpr ⟨hz, hx⟩)] at hg
  obtain ⟨hd, hhd, rfl⟩ := Option.map_eq_some_iff.mp h
  rw [hhd] at hg
  have hrun : TreeOk (runHandler L hd p s.sigHandled k) := by
    refine runHandler_treeOk hk (fun hdie hfr => hg p ?_) fun hc c hfind => hg c ?_
    · rcases hdie with rfl | rfl <;> exact if_pos hfr
    · subst hc; exact hfind
  dsimp only
  split
  · exact hrun
  · exact hrun.same (Same.modify _ p rfl)

theorem processWaitpid_treeOk {p : Nat} {pid : Int} {option : Nat} {k : Kernel} (hk : TreeOk k)
    (hg : NoOrphans k (.waitpid p pid option)) : TreeOk (processWaitpid p pid option k).2 := by
  have hwait : TreeOk (k.modify p fun pr => { pr with state := .STOPPED, waitingPid := pid }) :=
    hk.same (Same.modify k p rfl)
  unfold NoOrphans freed at hg
  dsimp only at hg
  unfold processWaitpid
  dsimp only
  split
  · exact hk
  rename_i hpid
  split
  · exact takeReply_treeOk hk
  rename_i hreply
  rw [if_neg (by tauto)] at hg
  split
  · rename_i c hc
    split
    · rename_i hz
      refine takeReply_treeOk (endOfChild_treeOk hk (hg c ?_))
      rw [hc, Option.filter_some, if_pos (by simpa using hz)]
    · split
      · exact hwait
      · exact hk
  · split
    · split
      · exact hk
      · exact hwait
    · exact hk

/-- **One step** that frees no process with children keeps the tree intact. -/
theorem procStep_treeOk {L : Layout} {op : ProcOp} {k k' : Kernel} (hk : TreeOk k)
    (h : procStep L k op k') (hg : NoOrphans k op) : TreeOk k' := by
  cases op with
  | iniKern v n => obtain ⟨hf, rfl⟩ := h; exact processIniKern_treeOk hk hf
  | fork s s2 p => obtain ⟨hp, hf, rfl⟩ := h; exact fork_treeOk hk hf hp
  | exit p status => obtain ⟨-, -, rfl⟩ := h; exact exit_treeOk hk hg
  | addSignal sig type p =>
    obtain ⟨-, rfl⟩ := h
    exact hk.same (addSignal_same (fun _ _ _ => rfl) sig (some p) type k)
  | sendSignal p => exact sendSignal_treeOk hk hg h.2
  | waitpid p pid option => obtain ⟨-, rfl⟩ := h; exact processWaitpid_treeOk hk hg
  | schedule c => obtain ⟨-, rfl⟩ := h; exact ⟨hk.nodup, hk.father, hk.children⟩
  | memory m => cases h; exact hk.same (Same.setMachine k m)

/-- **The process tree stays intact** in every run from the empty process list in which no
process that has children is freed. -/
theorem tree_ok_without_orphans (L : Layout) (k₀ k : Kernel) (ops : List ProcOp)
    (hboot : k₀.processList = [])
    (h : Run (fun k op k' => procStep L k op k' ∧ NoOrphans k op) k₀ ops k) : TreeOk k := by
  refine h.invariant TreeOk (fun k op k' hk hs => procStep_treeOk hk hs.1 hs.2) ?_
  refine ⟨?_, ?_, ?_⟩ <;> rw [hboot]
  · exact List.nodup_nil
  · simp
  · simp

theorem freshRecord_of {k : Kernel} {a : Nat} (h : k.kmallocs 0 = some a) (ha : a ∉ k.processList) :
    FreshRecord k := by
  intro b hb
  rwa [← Option.some.inj (h.symm.trans hb)]

theorem noOrphans_of {k : Kernel} {op : ProcOp} {c : Nat} (h : freed k op = some c)
    (hc : (k.proc c).children = []) : NoOrphans k op := by
  intro d hd
  rwa [← Option.some.inj (h.symm.trans hd)]

theorem noOrphans_of_none {k : Kernel} {op : ProcOp} (h : freed k op = none) : NoOrphans k op :=
  fun c hc => by rw [h] at hc; cases hc

/-- The kernel before its first process, with every frame free. -/
def Kernel.boot : Kernel where
  machine :=
    { mmBitmap := fun _ => 0xFF
      pageDirectory := fun d => if d = 768 then 0x110001 else 0
      ram := fun _ _ => 0 }
  kmallocs := fun i => some (100 + i)
  current := none
  processList := []
  proc := fun _ => Process.zero
  lastPid := 1

/-- `init` (at 100) and a child of it (at 103). -/
def Kernel.family : Kernel :=
  (fork .sample 0xBFFFE100 0xBFFFD100 100 (processIniKern .sample 0x1000 4096 .boot).2).2

theorem family_run : Run (fun k op k' => procStep .sample k op k' ∧ NoOrphans k op) .boot
    [.iniKern 0x1000 4096, .fork 0xBFFFE100 0xBFFFD100 100] .family :=
  .cons ⟨⟨freshRecord_of rfl (by decide), rfl⟩, noOrphans_of_none rfl⟩
    (.single ⟨⟨by decide +kernel, freshRecord_of (a := 103) (by decide +kernel) (by decide +kernel),
      rfl⟩, noOrphans_of_none rfl⟩)

/-- The child exits and is reaped. -/
theorem tree_ok_after_reaping : TreeOk (processWaitpid 100 (-1) 0 (exit .sample 103 3 .family)).2 :=
  tree_ok_without_orphans .sample .boot _ [.iniKern 0x1000 4096, .fork 0xBFFFE100 0xBFFFD100 100,
    .exit 103 3, .waitpid 100 (-1) 0] rfl
    (family_run.append (.cons
      ⟨⟨by decide +kernel, by decide +kernel, rfl⟩, noOrphans_of_none (by decide +kernel)⟩
      (.single ⟨⟨by decide +kernel, rfl⟩,
        noOrphans_of (c := 103) (by decide +kernel) (by decide +kernel)⟩)))

/-- The child forks in turn, exits and is reaped. -/
def Kernel.orphaned : Kernel :=
  (processWaitpid 100 (-1) 0
    (exit .sample 103 3 (fork .sample 0xBFFFE100 0xBFFFD100 103 .family).2)).2

/-- The child of the freed process is still in the list, and its `father` pointer still names
the freed process. -/
theorem orphan_keeps_freed_father :
    (∃ ops, Run (procStep .sample) .boot ops .orphaned) ∧
      ∃ p ∈ Kernel.orphaned.processList, ∃ f, (Kernel.orphaned.proc p).father = some f ∧
        f ∉ Kernel.orphaned.processList := by
  have hrun : Run (procStep .sample) .family [.fork 0xBFFFE100 0xBFFFD100 103, .exit 103 3,
      .waitpid 100 (-1) 0] .orphaned :=
    .cons ⟨by decide +kernel, freshRecord_of (a := 106) (by decide +kernel) (by decide +kernel), rfl⟩
      (.cons ⟨by decide +kernel, by decide +kernel, rfl⟩ (.single ⟨by decide +kernel, rfl⟩))
  refine ⟨⟨_, (family_run.imp fun _ _ _ h => h.1).append hrun⟩, 106, ?_, 103, ?_, ?_⟩ <;>
    decide +kernel

end Moonlight
