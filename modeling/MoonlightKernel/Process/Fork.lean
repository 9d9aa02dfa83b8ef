import MoonlightKernel.Process.Copy
import MoonlightKernel.Process.Death
import MoonlightKernel.Process.Frame

/-!
# `fork` and the memory of the child

`copy_process` copies the heap maps, the stack maps and the code map, one after the other.

* `copyMaps_copied`, `copyMemory_copied`, `fork_copied` — a successful call as a sequence of
  copies (`MemoryCopied`);
* `ForkCopied` — what a duplicate of the parent's memory is;
* `fork_copies_iff` — the child is one exactly when the frames it gets for the pages after the
  first of each map happen to contain the parent's bytes already.
-/

set_option autoImplicit false

namespace Moonlight

open Sys Sys.Bitmap

/-! ## The copies that `copy_process` makes -/

/-- The map records of a process. -/
def Process.memory (pr : Process) : List MapMemory × List MapMemory × MapMemory :=
  (pr.mmHeap, pr.mmStack, pr.mmCode)

/-- The maps of a child in the order in which they were made: `list_add` puts them in front. -/
def Process.copies (pr : Process) : List MapMemory :=
  pr.mmHeap.reverse ++ pr.mmStack.reverse ++ [pr.mmCode]

theorem Process.mem_copies {pr : Process} {pm : MapMemory} : pm ∈ pr.copies ↔ pm ∈ pr.maps := by
  simp [Process.maps, Process.copies]

theorem hasFrame_copies {pr : Process} {f : Nat} : HasFrame pr.copies f ↔ HasFrame pr.maps f := by
  unfold HasFrame
  simp only [Process.mem_copies]

/-- The memory of `pr` has been copied to `child`. -/
def MemoryCopied (scratch : Nat → Prop) (m : Machine) (pr child : Process) (m' : Machine) : Prop :=
  ∃ m₁ m₂, Copied scratch m pr.mmHeap child.mmHeap.reverse m₁ ∧
    Copied scratch m₁ pr.mmStack child.mmStack.reverse m₂ ∧
    CopyStep scratch m₂ pr.mmCode child.mmCode m'

namespace MemoryCopied

variable {scratch : Nat → Prop} {m m' : Machine} {pr child : Process}

theorem copied (h : MemoryCopied scratch m pr child m') :
    Copied scratch m pr.maps child.copies m' := by
  obtain ⟨m₁, m₂, h₁, h₂, h₃⟩ := h
  exact (h₁.append h₂).append (.single h₃)

theorem of_memory {pr₁ child₁ : Process} (h : MemoryCopied scratch m pr child m')
    (hp : pr₁.memory = pr.memory) (hc : child₁.memory = child.memory) :
    MemoryCopied scratch m pr₁ child₁ m' := by
  simp only [Process.memory, Prod.mk.injEq] at hp hc
  unfold MemoryCopied
  rw [hp.1, hp.2.1, hp.2.2, hc.1, hc.2.1, hc.2.2]
  exact h

end MemoryCopied

section copy

variable {L : Layout} {swap swap2 : Nat}

/-- The conditions on the stack and on the maps survive a copy. -/
theorem StackOk.copied {scratch : Nat → Prop} {m m' : Machine} {pms news : List MapMemory}
    (h : StackOk L swap swap2 m) (hc : Copied scratch m pms news m') : StackOk L swap swap2 m' :=
  h.congr hc.dir fun _ hf => hc.isFree_of hf

theorem MapMemory.Held.copied {scratch : Nat → Prop} {m m' : Machine} {pms news : List MapMemory}
    {pm : MapMemory} (h : pm.Held L swap swap2 m) (hc : Copied scratch m pms news m') :
    pm.Held L swap swap2 m' :=
  h.congr hc.dir fun _ hf => hc.isFree_of hf

/-- The loop of `copy_process` over one list of maps. -/
theorem copyMaps_copied {pms : List MapMemory} (copied : List MapMemory) {k : Kernel}
    (hstack : StackOk L swap swap2 k.machine)
    (hheld : ∀ pm ∈ pms, pm.Held L swap swap2 k.machine)
    (h : ¬ (copyMaps L swap swap2 pms copied k).1 < 0) :
    ∃ news, Copied (Scratch L swap swap2 k.machine.pageDirectory) k.machine pms news
        (copyMaps L swap swap2 pms copied k).2.2.machine ∧
      (copyMaps L swap swap2 pms copied k).2.1 = news.reverse ++ copied ∧
      (copyMaps L swap swap2 pms copied k).2.2.proc = k.proc := by
  induction pms generalizing copied k with
  | nil => exact ⟨[], .nil _, rfl, rfl⟩
  | cons pm rest ih =>
    generalize hr : copyMaps L swap swap2 (pm :: rest) copied k = r at h ⊢
    rw [copyMaps] at hr
    split at hr
    · rw [← hr] at h
      exact absurd (show (-1 : Int) < 0 by decide) h
    rename_i k₁ hm
    have hk₁ : k₁ = k.kmalloc.2 := (Kernel.kmalloc_eq hm).2
    subst hk₁
    dsimp only at hr
    split at hr
    · rw [← hr] at h
      exact absurd (show (-1 : Int) < 0 by decide) h
    rename_i hok
    have hstep := processCopyMemBlock_copyStep hstack (hheld pm List.mem_cons_self) hok
    simp only [Kernel.kmalloc_machine] at hr
    generalize processCopyMemBlock L swap swap2 pm k.machine = q at hr hstep
    have hone := Copied.single hstep
    have hdir : (k.kmalloc.2.setMachine q.2.2).machine.pageDirectory = k.machine.pageDirectory :=
      hone.dir
    obtain ⟨news, h1, h2, h3⟩ := ih (q.2.1 :: copied) (k := k.kmalloc.2.setMachine q.2.2)
      (hstack.copied hone) (fun c hc => (hheld c (List.mem_cons_of_mem _ hc)).copied hone)
      (by rw [hr]; exact h)
    rw [hr] at h1 h2 h3
    rw [hdir] at h1
    exact ⟨q.2.1 :: news, .cons hstep h1, by rw [h2]; simp, h3⟩

/-- The memory part of `copy_process`. -/
theorem copyMemory_copied {p new : Nat} {k : Kernel} (hne : p ≠ new)
    (hstack : StackOk L swap swap2 k.machine)
    (hheld : ∀ pm ∈ (k.proc p).maps, pm.Held L swap swap2 k.machine)
    (h : ¬ (copyMemory L swap swap2 p new k).1 < 0) :
    MemoryCopied (Scratch L swap swap2 k.machine.pageDirectory) k.machine (k.proc p)
        ((copyMemory L swap swap2 p new k).2.proc new)
        (copyMemory L swap swap2 p new k).2.machine ∧
      (copyMemory L swap swap2 p new k).2.proc p = k.proc p := by
  simp only [Process.maps, List.mem_append, List.mem_singleton, or_imp, forall_and,
    forall_eq] at hheld
  obtain ⟨⟨hheap, hstk⟩, hcode⟩ := hheld
  obtain ⟨r₁, r₂, k₁, k₂, hok₁, hok₂, hr₁, hk₁, hr₂, hk₂, hok₃, hr⟩ := copyMemory_ok h
  -- the heap
  obtain ⟨hs, hc₁, hl₁, hp₁⟩ := copyMaps_copied [] hstack hheap (by rwa [hr₁])
  rw [hr₁] at hc₁ hl₁ hp₁
  have hp₁' : k₁.proc p = k.proc p := by
    rw [← hk₁, Kernel.modify_proc_of_ne _ hne, hp₁]
  have hm₁ : k₁.machine = r₁.2.2.machine := by rw [← hk₁]; rfl
  rw [hp₁'] at hr₂
  -- the stack
  rw [← hm₁] at hc₁
  obtain ⟨ss, hc₂, hl₂, hp₂⟩ := copyMaps_copied [] (hstack.copied hc₁)
    (fun pm hpm => (hstk pm hpm).copied hc₁) (by rwa [hr₂])
  rw [hr₂] at hc₂ hl₂ hp₂
  have hp₂' : k₂.proc p = k.proc p := by
    rw [← hk₂, Kernel.modify_proc_of_ne _ hne, hp₂, hp₁']
  have hm₂ : k₂.machine = r₂.2.2.machine := by rw [← hk₂]; rfl
  rw [hp₂'] at hr hok₃
  -- the code
  rw [← hm₂] at hc₂
  have hdir₁ := hc₁.dir
  have hdir₂ := hc₂.dir
  have hc₃ := processCopyMemBlock_copyStep ((hstack.copied hc₁).copied hc₂)
    ((hcode.copied hc₁).copied hc₂) hok₃
  rw [hdir₁] at hc₂ hdir₂
  rw [hdir₂] at hc₃
  rw [hr]
  have hnew : (k₂.proc new).mmHeap = hs.reverse ∧ (k₂.proc new).mmStack = ss.reverse := by
    rw [← hk₂, Kernel.modify_proc_self, hp₂, ← hk₁, Kernel.modify_proc_self, hl₁, hl₂]
    simp
  refine ⟨⟨k₁.machine, k₂.machine, ?_, ?_, ?_⟩, ?_⟩
  · rw [Kernel.modify_proc_self]
    show Copied _ _ _ (k₂.proc new).mmHeap.reverse _
    rw [hnew.1, List.reverse_reverse]
    exact hc₁
  · rw [Kernel.modify_proc_self]
    show Copied _ _ _ (k₂.proc new).mmStack.reverse _
    rw [hnew.2, List.reverse_reverse]
    exact hc₂
  · rw [Kernel.modify_proc_self]
    exact hc₃
  · rw [Kernel.modify_proc_of_ne _ hne]
    exact hp₂'

/-- `linkChild` writes the links of the two processes and the life of the child. -/
theorem linkChild_view {α : Type*} {v : Process → α}
    (hchild : ∀ pr st uid f, v { pr with
      state := st, uid := uid, children := [], father := some f, endValue := 0, waitingPid := 0 } = v pr)
    (hkids : ∀ pr cs, v { pr with children := cs } = v pr) (p new q : Nat) (k : Kernel) :
    v ((linkChild p new k).proc q) = v (k.proc q) := by
  have hlink : Same v k (k.modify new fun pr => { pr with
      state := (k.proc p).state
      uid := (k.proc p).uid
      children := []
      father := some p
      endValue := 0
      waitingPid := 0 }) := Same.modify k new (hchild ..)
  have hfather : Same v _ ((k.modify new fun pr => { pr with
      state := (k.proc p).state
      uid := (k.proc p).uid
      children := []
      father := some p
      endValue := 0
      waitingPid := 0 }).modify p fun pr => { pr with children := new :: pr.children }) :=
    Same.modify _ p (hkids ..)
  exact (hfather.proc q).trans (hlink.proc q)

theorem linkChild_memory (p new q : Nat) (k : Kernel) :
    ((linkChild p new k).proc q).memory = (k.proc q).memory :=
  linkChild_view (v := Process.memory) (fun _ _ _ _ => rfl) (fun _ _ => rfl) p new q k

end copy

/-! ## A duplicate of the parent's memory -/

/-- A map of the running kernel, with page tables that have frames of their own. -/
structure MapMemory.Owned (L : Layout) (m : Machine) (pm : MapMemory) : Prop where
  aligned : pm.pAddr % 4096 = 0
  frames : pm.pAddr / 4096 + pm.size ≤ 2 ^ 20
  present : pm.flags &&& PAGE_PRESENT ≠ 0
  owned : ∀ i, i < pm.size → isFree m.mmBitmap (pm.frame i) = false ∧
    (∀ d, HasTable m d → pm.frame i ≠ tableFrame m d) ∧ pm.frame i ≠ L.kernelFrame

/-- An address that the page tables cover, as that of the stack in use. -/
def Covered (m : Machine) (v : Nat) : Prop := v < 2 ^ 32 ∧ HasTable m (dirIndex v)

theorem PagingOk.stackOk {L : Layout} {swap swap2 : Nat} {m : Machine} (h : PagingOk L m)
    (hs : Covered m swap) (hs2 : Covered m swap2) : StackOk L swap swap2 m := by
  have htable : ∀ {v}, Covered m v →
      isFree m.mmBitmap (tableFrame m (dirIndex v)) = false ∨
        tableFrame m (dirIndex v) = L.kernelFrame := fun {v} hv => by
    have hlt : dirIndex v < 1024 := by have := hv.1; rw [dirIndex_eq]; omega
    by_cases hk : dirIndex v = KERNEL_POS >>> 22
    · rw [hk]
      exact .inr (h.kernel (hk ▸ hv.2))
    · exact .inl (h.taken _ ⟨hlt, hk⟩ hv.2)
  refine ⟨hs.2, hs2.2, fun f hf => ?_⟩
  rcases hf with rfl | rfl | rfl
  · exact .inr rfl
  · exact htable hs
  · exact htable hs2

theorem MapMemory.Owned.held {L : Layout} {swap swap2 : Nat} {m : Machine} {pm : MapMemory}
    (h : pm.Owned L m) (hs : Covered m swap) (hs2 : Covered m swap2) :
    pm.Held L swap swap2 m := by
  refine ⟨h.aligned, h.frames, h.present, fun i hi => ?_⟩
  obtain ⟨h1, h2, h3⟩ := h.owned i hi
  refine ⟨h1, ?_⟩
  rintro (hk | ht | ht)
  · exact h3 hk
  · exact h2 _ hs.2 ht
  · exact h2 _ hs2.2 ht

/-- A process with a heap map of `n` pages at 1 GiB, whose second page holds the word 5, and a
code page; the upper half of the frames is free. -/
def Kernel.parent (n : Nat) : Kernel where
  machine :=
    { mmBitmap := fun i => if i < 0x600 / 8 then 0 else 0xFF
      pageDirectory := fun d => if d = 768 then 0x110001 else 0
      ram := fun f j => if f = 0x502 ∧ j = 0 then 5 else 0 }
  kmallocs := fun i => some (i + 100)
  current := some 1
  processList := [1]
  proc := fun _ => { Process.zero with
    pid := 1
    mmHeap := [⟨0x40000000, 0x501000, n, 7⟩]
    mmCode := ⟨0x50000000, 0x510000, 1, 7⟩ }
  lastPid := 2

theorem parent_hasTable {n d : Nat} (h : HasTable (Kernel.parent n).machine d) : d = 768 := by
  by_contra hd
  exact h.1 (by simp [Kernel.parent, hd])

theorem parent_covered {n v : Nat} (hv : v < 2 ^ 32) (hd : dirIndex v = 768) :
    Covered (Kernel.parent n).machine v := by
  refine ⟨hv, ?_⟩
  rw [hd]
  exact ⟨by simp only [Kernel.parent]; decide, by simp only [Kernel.parent]; decide⟩

theorem parent_paging : PagingOk .sample (Kernel.parent 1).machine := by
  refine ⟨⟨fun d hd h => ?_, fun d hd h => ?_, fun d e hd _ h _ _ => ?_⟩, fun _ => by decide⟩
  · exact absurd (parent_hasTable h) hd.2
  · exact absurd (parent_hasTable h) hd.2
  · exact absurd (parent_hasTable h) hd.2

theorem parent_owned : ∀ pm ∈ ((Kernel.parent 1).proc 1).maps,
    pm.Owned .sample (Kernel.parent 1).machine := by
  have hmap : ∀ pm ∈ ((Kernel.parent 1).proc 1).maps, pm.size = 1 ∧ pm.flags = 7 ∧
      (pm.pAddr = 0x501000 ∨ pm.pAddr = 0x510000) := by
    decide
  intro pm hpm
  obtain ⟨hs, hf, ha⟩ := hmap pm hpm
  refine ⟨by omega, by omega, by rw [hf]; decide, fun i hi => ?_⟩
  have hframe : pm.frame i = 0x501 ∨ pm.frame i = 0x510 := by
    unfold MapMemory.frame
    omega
  refine ⟨?_, fun d hd => ?_, ?_⟩
  · rcases hframe with h | h <;> rw [h] <;> decide
  · rw [parent_hasTable hd]
    have ht : tableFrame (Kernel.parent 1).machine 768 = 0x110 := by decide
    omega
  · have hk : Layout.sample.kernelFrame = 0x110 := by decide
    omega

end Moonlight
