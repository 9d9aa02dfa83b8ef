import MoonlightKernel.Process.Creation

/-!
# A copy that fails

`copy_process` copies the maps of the parent one after the other, each into a record and a run of
frames of its own, and then its signals.  Where it fails, all that it has copied stays.

* `CantCopy` — there is nothing for a map, `Made` — some maps have been copied;
* `ListCopied` — what the loop over one list does, and `ListCopied.trans` — two lists are one;
* `copyMemory_made` — the memory part, told from the first map in the lists;
* `copyProcess_takes` — when a `copy_process` that fails has taken nothing.
-/

set_option autoImplicit false

namespace Moonlight

open Sys Sys.Bitmap

/-- The stack of the kernel, on which `process_copy_mem_block` has its arrays. -/
structure KernelStack (m : Machine) (v : Nat) : Prop where
  above : KERNEL_POS ≤ v
  covered : Covered m v

/-- There is no block for the record of the copy, or no frames for its pages. -/
def CantCopy (pm : MapMemory) (k : Kernel) : Prop :=
  k.kmallocs 0 = none ∨ (getPhysBlock pm.size k.machine.mmBitmap).1 = 0

/-- The memory part of `copy_process` stops at the first thing it comes to. -/
def CopyStops (pr : Process) (k : Kernel) : Prop :=
  (∃ pm ∈ (pr.mmHeap ++ pr.mmStack).head?, CantCopy pm k) ∨
    pr.mmHeap ++ pr.mmStack = [] ∧ (getPhysBlock pr.mmCode.size k.machine.mmBitmap).1 = 0

/-- There is nothing to copy. -/
def Process.Bare (pr : Process) : Prop := pr.mmHeap ++ pr.mmStack = [] ∧ pr.mmCode.size = 0

/-- Some maps have been copied into `news`, and the blocks `n` have been taken for that. -/
structure Made (scratch : Nat → Prop) (n : Multiset Nat) (news : List MapMemory)
    (t u : Tracked) : Prop where
  copied : ∃ pms, Copied scratch t.kernel.machine pms news u.kernel.machine
  tree : Same Process.tree t.kernel u.kernel
  records : ∀ q, (u.recs q).children = (t.recs q).children
  live : u.live = n + t.live

namespace Made

variable {L : Layout} {swap swap2 : Nat} {scratch : Nat → Prop} {n m : Multiset Nat}
  {news news' : List MapMemory} {t u v : Tracked}

theorem nothing (htree : Same Process.tree t.kernel u.kernel)
    (hmach : u.kernel.machine = t.kernel.machine) (hrecs : u.recs = t.recs)
    (hlive : u.live = t.live) : Made scratch 0 [] t u :=
  ⟨⟨[], by rw [hmach]; exact .nil _⟩, htree, fun q => by rw [hrecs], hlive.trans (zero_add _).symm⟩

theorem trans (h : Made scratch n news t u) (h' : Made scratch m news' u v) :
    Made scratch (m + n) (news ++ news') t v := by
  obtain ⟨pms, hc⟩ := h.copied
  obtain ⟨pms', hc'⟩ := h'.copied
  exact ⟨⟨pms ++ pms', hc.append hc'⟩, h.tree.trans h'.tree,
    fun q => (h'.records q).trans (h.records q), by rw [h'.live, h.live, add_assoc]⟩

/-- The list of copies and that of their records are stored in the process. -/
theorem store (h : Made scratch n news t u) (p : Nat) {f : Process → Process}
    {g : Records → Records} (hf : ∀ pr, (f pr).tree = pr.tree)
    (hg : ∀ rs, (g rs).children = rs.children) :
    Made scratch n news t ((u.modify p f).record p g) := by
  refine ⟨h.copied, h.tree.trans (Same.modify _ p (hf _)), fun q => ?_, h.live⟩
  by_cases hq : q = p
  · rw [hq, Tracked.record_recs_self, hg]
    exact h.records p
  · rw [Tracked.record_recs_of_ne _ hq]
    exact h.records q

theorem dir (h : Made scratch n news t u) :
    u.kernel.machine.pageDirectory = t.kernel.machine.pageDirectory := by
  obtain ⟨pms, hc⟩ := h.copied
  exact hc.dir

/-- The blocks and the frames of the copies. -/
theorem takes (h : Made scratch n news t u) (hm : PagingOk L t.kernel.machine) :
    Takes n (HasFrame news) t u := by
  obtain ⟨pms, hc⟩ := h.copied
  refine ⟨h.tree, h.records, h.live, fun f => ?_, fun f hf => .inl (hc.fresh hf).2⟩
  have hfree := hc.isFree_iff f
  have htable := isTableFrame_congr hc.dir f
  have hno : IsTableFrame t.kernel.machine f → ¬ HasFrame news f := by
    rintro ⟨d, hd, ht, rfl⟩ hf
    have htaken := hm.taken d hd ht
    rw [(hc.fresh hf).2] at htaken
    exact Bool.noConfusion htaken
  unfold Avail
  rw [hfree, htable]
  tauto

/-- Copying writes to no table of user space. -/
theorem userPages (h : Made (Scratch L swap swap2 t.kernel.machine.pageDirectory) n news t u)
    (hm : PagingOk L t.kernel.machine) (hswap : KernelStack t.kernel.machine swap)
    (hswap2 : KernelStack t.kernel.machine swap2) :
    SameUserPages L t.kernel.machine u.kernel.machine := by
  obtain ⟨pms, hc⟩ := h.copied
  refine .of_tables hm hc.dir fun d hd ht => ?_
  have hk : KERNEL_POS >>> 22 = 768 := by decide
  have hpage : PageDir d := ⟨by omega, Nat.ne_of_lt hd⟩
  have hstack : ∀ {w}, KernelStack t.kernel.machine w →
      tableFrame t.kernel.machine d ≠ tableFrame t.kernel.machine (dirIndex w) := by
    intro w hw
    have habove := hw.above
    obtain ⟨hlt, htw⟩ := hw.covered
    have hdw := dirIndex_eq w
    unfold KERNEL_POS at habove
    exact (hm.frame_ne hpage (by omega) (by omega) ht htw).symm
  refine hc.ram_of_taken ?_ (hm.taken d hpage ht)
  rintro (hf | hf | hf)
  · exact hm.notKernel d hpage ht hf
  · exact hstack hswap hf
  · exact hstack hswap2 hf

end Made

/-! ## One list of maps -/

section copy

variable {L : Layout} {swap swap2 : Nat} {scratch : Nat → Prop} {maps maps' : List MapMemory}
  {t u v : Tracked} {err err' : Int}

/-- **`process_copy_mem_block`** fails when there are no frames, and then leaves the machine
alone. -/
theorem processCopyMemBlock_cases (L : Layout) (swap swap2 : Nat) (pm : MapMemory) (m : Machine) :
    ((getPhysBlock pm.size m.mmBitmap).1 = 0 ∧ (processCopyMemBlock L swap swap2 pm m).1 < 0 ∧
        (processCopyMemBlock L swap swap2 pm m).2.2 = m) ∨
      ((getPhysBlock pm.size m.mmBitmap).1 ≠ 0 ∧ ¬ (processCopyMemBlock L swap swap2 pm m).1 < 0) := by
  unfold processCopyMemBlock
  dsimp only
  by_cases hg : (getPhysBlock pm.size m.mmBitmap).1 = 0
  · rw [if_pos hg]
    refine .inl ⟨hg, Int.negSucc_lt_zero 0, ?_⟩
    rcases getPhysBlock_spec pm.size m.mmBitmap with h | ⟨p, h, hlo, -⟩
    · rw [h]
      rfl
    · rw [h] at hg
      dsimp only at hg
      omega
  · rw [if_neg hg]
    exact .inr ⟨hg, Int.lt_irrefl 0⟩

/-- What copying the list `maps` does, with the error code `err`: the first map alone decides
whether anything is taken. -/
structure ListCopied (scratch : Nat → Prop) (maps : List MapMemory) (t : Tracked) (err : Int)
    (u : Tracked) : Prop where
  made : ∃ n news, Made scratch n news t u ∧ (n = 0 ↔ ∀ pm ∈ maps.head?, CantCopy pm t.kernel) ∧
    (n = 0 → news = [])
  stops : ∀ pm ∈ maps.head?, CantCopy pm t.kernel → err < 0
  idle : maps = [] → ¬ err < 0 ∧ u.kernel.machine = t.kernel.machine ∧
    u.kernel.kmallocs = t.kernel.kmallocs

namespace ListCopied

/-- The first map cannot be copied. -/
theorem stopped {pm : MapMemory} {rest : List MapMemory} (hno : CantCopy pm t.kernel)
    (hmade : Made scratch 0 [] t u) (herr : err < 0) :
    ListCopied scratch (pm :: rest) t err u := by
  refine ⟨⟨0, [], hmade, iff_of_true rfl fun pm' hpm' => ?_, fun _ => rfl⟩, fun _ _ _ => herr,
    fun h => absurd h (List.cons_ne_nil _ _)⟩
  rw [List.head?_cons, Option.mem_some_iff] at hpm'
  exact hpm' ▸ hno

/-- The first map has been copied. -/
theorem went {pm : MapMemory} {rest news : List MapMemory} {n : Multiset Nat}
    (hcan : ¬ CantCopy pm t.kernel) (hmade : Made scratch n news t u) (hn : n ≠ 0) :
    ListCopied scratch (pm :: rest) t err u := by
  refine ⟨⟨n, news, hmade, iff_of_false hn fun h => hcan (h pm rfl), fun h => absurd h hn⟩,
    fun pm' hpm' hno => ?_, fun h => absurd h (List.cons_ne_nil _ _)⟩
  rw [List.head?_cons, Option.mem_some_iff] at hpm'
  exact absurd (hpm' ▸ hno) hcan

theorem store (h : ListCopied scratch maps t err u) (p : Nat) {f : Process → Process}
    {g : Records → Records} (hf : ∀ pr, (f pr).tree = pr.tree)
    (hg : ∀ rs, (g rs).children = rs.children) :
    ListCopied scratch maps t err ((u.modify p f).record p g) := by
  obtain ⟨n, news, hmade, hn, hnews⟩ := h.made
  exact ⟨⟨n, news, hmade.store p hf hg, hn, hnews⟩, h.stops, h.idle⟩

/-- The loop over the first list has failed. -/
theorem failed (h : ListCopied scratch maps t err u) (herr : err < 0) (maps' : List MapMemory) :
    ListCopied scratch (maps ++ maps') t err u := by
  cases maps with
  | nil => exact absurd herr (h.idle rfl).1
  | cons pm rest =>
    exact ⟨h.made, h.stops, fun he => absurd he (List.cons_ne_nil _ _)⟩

/-- **Two lists are one.** -/
theorem trans (h : ListCopied scratch maps t err u) (hok : ¬ err < 0)
    (h' : ListCopied scratch maps' u err' v) : ListCopied scratch (maps ++ maps') t err' v := by
  obtain ⟨n, news, hmade, hn, hnews⟩ := h.made
  obtain ⟨m, news', hmade', hm, hnews'⟩ := h'.made
  cases maps with
  | nil =>
    -- nothing has happened so far
    obtain ⟨-, hmach, hmallocs⟩ := h.idle rfl
    have hsame : ∀ pm, CantCopy pm u.kernel ↔ CantCopy pm t.kernel := fun pm => by
      rw [CantCopy, CantCopy, hmach, hmallocs]
    have hn0 : n = 0 := hn.mpr fun pm hpm => by cases hpm
    have hboth := hmade.trans hmade'
    rw [hn0, add_zero, hnews hn0, List.nil_append] at hboth
    refine ⟨⟨m, news', hboth, hm.trans (forall₂_congr fun pm _ => hsame pm), hnews'⟩,
      fun pm hpm hno => h'.stops pm hpm ((hsame pm).mpr hno), fun he => ?_⟩
    obtain ⟨hok', hmach', hmallocs'⟩ := h'.idle he
    exact ⟨hok', hmach'.trans hmach, hmallocs'.trans hmallocs⟩
  | cons pm rest =>
    have hcan : ¬ CantCopy pm t.kernel := fun hno => hok (h.stops pm rfl hno)
    have hn0 : n ≠ 0 := fun h0 => hcan (hn.mp h0 pm rfl)
    refine went hcan (hmade.trans hmade') fun h0 => hn0 ?_
    exact ((add_eq_zero_iff_of_nonneg (Multiset.zero_le m) (Multiset.zero_le n)).mp h0).2

end ListCopied

/-- **The loop of `copy_process`** over one list of maps. -/
theorem copyMaps_listCopied (maps copied : List MapMemory) (recs : List Nat) (t : Tracked)
    (hstack : StackOk L swap swap2 t.kernel.machine)
    (hheld : ∀ pm ∈ maps, pm.Held L swap swap2 t.kernel.machine) :
    ListCopied (Scratch L swap swap2 t.kernel.machine.pageDirectory) maps t
      (t.copyMaps L swap swap2 maps copied recs).1
      (t.copyMaps L swap swap2 maps copied recs).2.2.2 := by
  induction maps generalizing copied recs t with
  | nil =>
    refine ⟨⟨0, [], .nothing (Same.refl _) rfl rfl rfl, iff_of_true rfl fun pm hpm => ?_,
      fun _ => rfl⟩, fun pm hpm => ?_, fun _ => ⟨Int.lt_irrefl 0, rfl, rfl⟩⟩
    · cases hpm
    · cases hpm
  | cons pm rest ih =>
    rw [Tracked.copyMaps]
    rcases t.kmalloc_spec with ⟨hno, he⟩ | ⟨a, ha, he⟩
    · rw [he]
      exact .stopped (.inl hno) (.nothing (Same.kmalloc _) rfl rfl rfl) (Int.negSucc_lt_zero 0)
    rw [he]
    dsimp only
    rw [Kernel.kmalloc_machine]
    have hstep := fun hok =>
      processCopyMemBlock_copyStep hstack (hheld pm List.mem_cons_self) hok
    rcases processCopyMemBlock_cases L swap swap2 pm t.kernel.machine with
      ⟨hno, herr, hmach⟩ | ⟨hgot, hok⟩
    · rw [if_pos herr]
      refine .stopped (.inr hno) (.nothing ?_ hmach rfl ?_) (Int.negSucc_lt_zero 0)
      · exact (Same.kmalloc _).trans (Same.setMachine _ _)
      · rw [Tracked.kfree_live, Tracked.setKernel_live, Multiset.erase_cons_head]
    · rw [if_neg hok]
      replace hstep := hstep hok
      generalize processCopyMemBlock L swap swap2 pm t.kernel.machine = q at hstep
      have hone := Copied.single hstep
      generalize hu : Tracked.setKernel { t with kernel := t.kernel.kmalloc.2, live := a ::ₘ t.live }
        (t.kernel.kmalloc.2.setMachine q.2.2) = u
      have hmach : u.kernel.machine = q.2.2 := by rw [← hu]; rfl
      have hfirst : Made (Scratch L swap swap2 t.kernel.machine.pageDirectory) {a} [q.2.1] t u := by
        refine ⟨⟨[pm], by rw [hmach]; exact hone⟩, ?_, fun _ => by rw [← hu]; rfl, by rw [← hu]; rfl⟩
        rw [← hu]
        exact (Same.kmalloc _).trans (Same.setMachine _ _)
      have hrest := ih (q.2.1 :: copied) (a :: recs) u (by rw [hmach]; exact hstack.copied hone)
        fun c hc => by rw [hmach]; exact (hheld c (List.mem_cons_of_mem _ hc)).copied hone
      rw [hfirst.dir] at hrest
      obtain ⟨n, news, hmade, -, -⟩ := hrest.made
      refine .went ?_ (hfirst.trans hmade) fun h0 => ?_
      · rintro (hno | hno)
        · rw [ha] at hno
          cases hno
        · exact hgot hno
      · exact Multiset.singleton_ne_zero a
          ((add_eq_zero_iff_of_nonneg (Multiset.zero_le n) (Multiset.zero_le _)).mp h0).2

end copy

/-! ## The memory of a process -/

/-- What the memory part of `copy_process` does with the maps of `pr`: it takes nothing exactly when
it stops at the first thing, or there is nothing to copy. -/
structure MemoryMade (scratch : Nat → Prop) (pr : Process) (t : Tracked) (err : Int)
    (u : Tracked) : Prop where
  made : ∃ n news, Made scratch n news t u ∧
    ((n = 0 ∧ ∀ f, ¬ HasFrame news f) ↔ CopyStops pr t.kernel ∨ pr.Bare)
  stops : CopyStops pr t.kernel → err < 0
  bare : pr.Bare → err < 0 → CopyStops pr t.kernel
  idle : pr.mmHeap ++ pr.mmStack = [] → u.kernel.kmallocs = t.kernel.kmallocs

theorem hasFrame_single {new : MapMemory} : (∀ f, ¬ HasFrame [new] f) ↔ new.size = 0 := by
  constructor
  · intro h
    by_contra hpos
    exact h _ ⟨new, List.mem_singleton_self new, 0, Nat.pos_of_ne_zero hpos, rfl⟩
  · rintro h f ⟨pm, hpm, i, hi, -⟩
    rw [List.mem_singleton.mp hpm, h] at hi
    exact absurd hi (Nat.not_lt_zero i)

section memory

variable {L : Layout} {p new : Nat} {scratch : Nat → Prop} {pr : Process}
  {t u v : Tracked} {err : Int}

/-- The code comes after the lists, and does not matter when these have something. -/
theorem copyStops_of_cons {pm : MapMemory} {rest : List MapMemory}
    (h : pr.mmHeap ++ pr.mmStack = pm :: rest) (k : Kernel) : CopyStops pr k ↔ CantCopy pm k := by
  rw [CopyStops, h, or_iff_left fun hc => List.cons_ne_nil _ _ hc.1]
  constructor
  · rintro ⟨pm', hpm', hno⟩
    rw [List.head?_cons, Option.mem_some_iff] at hpm'
    exact hpm' ▸ hno
  · exact fun hno => ⟨pm, rfl, hno⟩

theorem copyStops_of_nil (h : pr.mmHeap ++ pr.mmStack = []) (k : Kernel) :
    CopyStops pr k ↔ (getPhysBlock pr.mmCode.size k.machine.mmBitmap).1 = 0 := by
  rw [CopyStops, h]
  refine (or_iff_right ?_).trans (and_iff_right rfl)
  rintro ⟨pm, hpm, -⟩
  cases hpm

namespace ListCopied

/-- The lists have something, and its copy has been made or not. -/
theorem memoryMade (h : ListCopied scratch (pr.mmHeap ++ pr.mmStack) t err u) {n : Multiset Nat}
    {news : List MapMemory} {err' : Int} (hrest : Made scratch n news u v)
    (hne : pr.mmHeap ++ pr.mmStack ≠ []) (herr : err < 0 → n = 0 ∧ news = [] ∧ err' < 0) :
    MemoryMade scratch pr t err' v := by
  obtain ⟨m, news', hmade, hm, hnews⟩ := h.made
  obtain ⟨pm, rest, hl⟩ := List.exists_cons_of_ne_nil hne
  have hhead : m = 0 ↔ CantCopy pm t.kernel := by
    rw [hm, hl]
    simp only [List.head?_cons, Option.mem_some_iff, forall_eq']
  have hstop : CantCopy pm t.kernel → err < 0 := h.stops pm (by rw [hl]; rfl)
  have hbare : ¬ pr.Bare := fun hb => hne hb.1
  refine ⟨⟨_, _, hmade.trans hrest, ?_⟩, fun hs => ?_, fun hb => absurd hb hbare,
    fun he => absurd he hne⟩
  · rw [copyStops_of_cons hl, or_iff_left hbare, ← hhead]
    constructor
    · rintro ⟨h0, -⟩
      exact ((add_eq_zero_iff_of_nonneg (Multiset.zero_le n) (Multiset.zero_le m)).mp h0).2
    · intro h0
      obtain ⟨hn, hnone, -⟩ := herr (hstop (hhead.mp h0))
      rw [hn, h0, hnone, hnews h0]
      exact ⟨rfl, hasFrame_nil⟩
  · rw [copyStops_of_cons hl] at hs
    exact (herr (hstop hs)).2.2

/-- The lists are empty, and the code is copied or not. -/
theorem memoryMade_nil (h : ListCopied scratch (pr.mmHeap ++ pr.mmStack) t err u)
    {news : List MapMemory} {err' : Int} (hrest : Made scratch 0 news u v)
    (hnil : pr.mmHeap ++ pr.mmStack = []) (hmallocs : v.kernel.kmallocs = u.kernel.kmallocs)
    (hcode : ((getPhysBlock pr.mmCode.size u.kernel.machine.mmBitmap).1 = 0 ∧ err' < 0 ∧ news = []) ∨
      ((getPhysBlock pr.mmCode.size u.kernel.machine.mmBitmap).1 ≠ 0 ∧ ¬ err' < 0 ∧
        ∃ c : MapMemory, news = [c] ∧ c.size = pr.mmCode.size)) :
    MemoryMade scratch pr t err' v := by
  obtain ⟨m, news', hmade, hm, hnews⟩ := h.made
  obtain ⟨-, hmach, hsame⟩ := h.idle hnil
  have hm0 : m = 0 := hm.mpr fun pm hpm => by
    rw [hnil] at hpm
    cases hpm
  have hboth := hmade.trans hrest
  rw [hm0, hnews hm0, add_zero, List.nil_append] at hboth
  rw [hmach] at hcode
  have hbare : pr.Bare ↔ pr.mmCode.size = 0 := and_iff_right hnil
  refine ⟨⟨0, news, hboth, ?_⟩, fun hs => ?_, fun _ herr => ?_, fun _ => hmallocs.trans hsame⟩
  · rw [copyStops_of_nil hnil, hbare, and_iff_right rfl]
    rcases hcode with ⟨hno, -, rfl⟩ | ⟨hgot, -, c, rfl, hc⟩
    · exact iff_of_true hasFrame_nil (.inl hno)
    · rw [hasFrame_single, hc, or_iff_right hgot]
  · rw [copyStops_of_nil hnil] at hs
    rcases hcode with ⟨-, herr, -⟩ | ⟨hgot, -⟩
    · exact herr
    · exact absurd hs hgot
  · rw [copyStops_of_nil hnil]
    rcases hcode with ⟨hno, -⟩ | ⟨-, hok, -⟩
    · exact hno
    · exact absurd herr hok

end ListCopied

/-- **The memory part of `copy_process`.** -/
theorem copyMemory_made (swap swap2 : Nat) (t : Tracked) (hne : p ≠ new)
    (hstack : StackOk L swap swap2 t.kernel.machine)
    (hheld : ∀ pm ∈ (t.kernel.proc p).maps, pm.Held L swap swap2 t.kernel.machine) :
    MemoryMade (Scratch L swap swap2 t.kernel.machine.pageDirectory) (t.kernel.proc p) t
      (t.copyMemory L swap swap2 p new).1 (t.copyMemory L swap swap2 p new).2 := by
  have herr : (-1 : Int) < 0 := Int.negSucc_lt_zero 0
  have hheap : ∀ pm ∈ (t.kernel.proc p).mmHeap, pm.Held L swap swap2 t.kernel.machine :=
    fun pm hpm => hheld pm (by simp [Process.maps, hpm])
  have hstk : ∀ pm ∈ (t.kernel.proc p).mmStack, pm.Held L swap swap2 t.kernel.machine :=
    fun pm hpm => hheld pm (by simp [Process.maps, hpm])
  have hcode : (t.kernel.proc p).mmCode.Held L swap swap2 t.kernel.machine :=
    hheld _ (by simp [Process.maps])
  unfold Tracked.copyMemory
  -- the heap
  have hlist₁ := copyMaps_listCopied (t.kernel.proc p).mmHeap [] [] t hstack hheap
  have hsame₁ : Same (fun pr => pr) t.kernel _ :=
    copyMaps_same L swap swap2 (t.kernel.proc p).mmHeap [] t.kernel
  have hk₁ := congrArg (fun x => x.2.2) (t.copyMaps_kernel L swap swap2 (t.kernel.proc p).mmHeap [] [])
  dsimp only at hk₁
  rw [← hk₁] at hsame₁
  generalize t.copyMaps L swap swap2 (t.kernel.proc p).mmHeap [] [] = r₁ at hlist₁ hsame₁
  replace hlist₁ := hlist₁.store new (f := fun pr => { pr with mmHeap := r₁.2.1 })
    (g := fun rs => { rs with heap := r₁.2.2.1 }) (fun _ => rfl) fun _ => rfl
  dsimp only
  generalize ht₁ : (r₁.2.2.2.modify new fun pr => { pr with mmHeap := r₁.2.1 }).record new
    (fun rs => { rs with heap := r₁.2.2.1 }) = t₁ at hlist₁
  have hp₁ : t₁.kernel.proc p = t.kernel.proc p := by
    rw [← ht₁, Tracked.record_kernel, Tracked.modify_kernel, Kernel.modify_proc_of_ne _ hne]
    exact hsame₁.proc p
  have hstart : Made (Scratch L swap swap2 t.kernel.machine.pageDirectory) 0 [] t₁ t₁ :=
    .nothing (Same.refl _) rfl rfl rfl
  by_cases hfail₁ : r₁.1 < 0
  · rw [if_pos hfail₁]
    exact (hlist₁.failed hfail₁ _).memoryMade hstart
      (fun he => (hlist₁.idle (List.append_eq_nil_iff.mp he).1).1 hfail₁) fun _ => ⟨rfl, rfl, herr⟩
  rw [if_neg hfail₁, hp₁]
  -- the stack
  obtain ⟨n₁, news₁, hmade₁, -, -⟩ := hlist₁.made
  obtain ⟨pms₁, hc₁⟩ := hmade₁.copied
  have hlist₂ := copyMaps_listCopied (t.kernel.proc p).mmStack [] [] t₁ (hstack.copied hc₁)
    fun pm hpm => (hstk pm hpm).copied hc₁
  rw [hc₁.dir] at hlist₂
  have hsame₂ : Same (fun pr => pr) t₁.kernel _ :=
    copyMaps_same L swap swap2 (t.kernel.proc p).mmStack [] t₁.kernel
  have hk₂ := congrArg (fun x => x.2.2) (t₁.copyMaps_kernel L swap swap2 (t.kernel.proc p).mmStack [] [])
  dsimp only at hk₂
  rw [← hk₂] at hsame₂
  generalize t₁.copyMaps L swap swap2 (t.kernel.proc p).mmStack [] [] = r₂ at hlist₂ hsame₂
  replace hlist₂ := hlist₁.trans hfail₁ (hlist₂.store new (f := fun pr => { pr with mmStack := r₂.2.1 })
    (g := fun rs => { rs with stack := r₂.2.2.1 }) (fun _ => rfl) fun _ => rfl)
  generalize ht₂ : (r₂.2.2.2.modify new fun pr => { pr with mmStack := r₂.2.1 }).record new
    (fun rs => { rs with stack := r₂.2.2.1 }) = t₂ at hlist₂
  have hp₂ : t₂.kernel.proc p = t.kernel.proc p := by
    rw [← ht₂, Tracked.record_kernel, Tracked.modify_kernel, Kernel.modify_proc_of_ne _ hne, ← hp₁]
    exact hsame₂.proc p
  have hstart : Made (Scratch L swap swap2 t.kernel.machine.pageDirectory) 0 [] t₂ t₂ :=
    .nothing (Same.refl _) rfl rfl rfl
  by_cases hfail₂ : r₂.1 < 0
  · rw [if_pos hfail₂]
    exact hlist₂.memoryMade hstart (fun he => (hlist₂.idle he).1 hfail₂) fun _ => ⟨rfl, rfl, herr⟩
  rw [if_neg hfail₂, hp₂]
  -- the code
  obtain ⟨n₂, news₂, hmade₂, -, -⟩ := hlist₂.made
  obtain ⟨pms₂, hc₂⟩ := hmade₂.copied
  have hstep := processCopyMemBlock_copyStep (hstack.copied hc₂) (hcode.copied hc₂)
  rw [hc₂.dir] at hstep
  have hcases := processCopyMemBlock_cases L swap swap2 (t.kernel.proc p).mmCode t₂.kernel.machine
  generalize processCopyMemBlock L swap swap2 (t.kernel.proc p).mmCode t₂.kernel.machine = q
    at hstep hcases
  have htree : Same Process.tree t₂.kernel ((t₂.kernel.setMachine q.2.2).modify new
      fun pr => { pr with mmCode := q.2.1 }) :=
    (Same.setMachine _ _).trans (Same.modify _ new rfl)
  rcases hcases with ⟨hno, hfail, hmach⟩ | ⟨hgot, hok⟩
  · have hlast : Made (Scratch L swap swap2 t.kernel.machine.pageDirectory) 0 [] t₂
        ((t₂.setKernel (t₂.kernel.setMachine q.2.2)).modify new
          fun pr => { pr with mmCode := q.2.1 }) := .nothing htree hmach rfl rfl
    rw [if_pos hfail]
    by_cases hnil : (t.kernel.proc p).mmHeap ++ (t.kernel.proc p).mmStack = []
    · exact hlist₂.memoryMade_nil hlast hnil rfl (.inl ⟨hno, herr, rfl⟩)
    · exact hlist₂.memoryMade hlast hnil fun he => absurd he hfail₂
  · have hcopy := hstep hok
    have hlast : Made (Scratch L swap swap2 t.kernel.machine.pageDirectory) 0 [q.2.1] t₂
        ((t₂.setKernel (t₂.kernel.setMachine q.2.2)).modify new
          fun pr => { pr with mmCode := q.2.1 }) :=
      ⟨⟨[(t.kernel.proc p).mmCode], .single hcopy⟩, htree, fun _ => rfl, (zero_add _).symm⟩
    rw [if_neg hok]
    by_cases hnil : (t.kernel.proc p).mmHeap ++ (t.kernel.proc p).mmStack = []
    · exact hlist₂.memoryMade_nil hlast hnil rfl
        (.inr ⟨hgot, Int.lt_irrefl 0, q.2.1, rfl, hcopy.size_eq⟩)
    · exact hlist₂.memoryMade hlast hnil fun he => absurd he hfail₂

end memory

/-! ## `copy_process` -/

theorem copyStops_congr {pr : Process} {k k' : Kernel} (hmach : k'.machine = k.machine)
    (hmallocs : k'.kmallocs = k.kmallocs) : CopyStops pr k' ↔ CopyStops pr k := by
  simp only [CopyStops, CantCopy, hmach, hmallocs]

/-- A process with nothing in its lists passes its signals on right away. -/
theorem inheritsNone_of_nil {p skip : Nat} {k : Kernel}
    (h : (k.proc p).mmHeap ++ (k.proc p).mmStack = []) : InheritsNone p skip k ↔
      ∀ i < ((k.proc p).signal.sigQueue.filter fun s => Accepts s.sigHandled s.state).length,
        k.kmallocs (skip + i) = none := by
  obtain ⟨hheap, hstack⟩ := List.append_eq_nil_iff.mp h
  simp only [InheritsNone, hheap, hstack, List.length_nil, zero_add]

section process

variable {L : Layout} {swap swap2 p new : Nat} {t u : Tracked} {n : Multiset Nat}

/-- The signals that a child inherits take blocks, and no frames. -/
theorem takes_copySignals {queue : List SigQueue} (h : Keeps n t (t.copySignals new queue)) :
    Takes n (fun _ => False) t (t.copySignals new queue) := by
  refine ⟨?_, fun q => by rw [h.recs], h.live, fun f => ?_, fun _ hf => hf.elim⟩
  · rw [Tracked.copySignals_kernel]
    exact copySignals_same (fun _ _ _ => rfl) new queue t.kernel
  · exact (h.avail f).trans (and_iff_left not_false).symm

/-- **A `copy_process` that fails** has taken nothing exactly when there is no pid, or it stops at
the first thing to copy, or there is nothing to copy and no signal gets a block. -/
theorem copyProcess_takes (hne : p ≠ new) (hborn : t.kernel.proc new = Process.zero)
    (hpid : PidInv t.kernel.lastPid) (hm : PagingOk L t.kernel.machine)
    (hswap : KernelStack t.kernel.machine swap) (hswap2 : KernelStack t.kernel.machine swap2)
    (hmaps : ∀ pm ∈ (t.kernel.proc p).maps, pm.Owned L t.kernel.machine)
    (h : (t.copyProcess L swap swap2 p new).1 < 0) :
    ∃ n F, Takes n F t (t.copyProcess L swap swap2 p new).2 ∧
      SameUserPages L t.kernel.machine (t.copyProcess L swap swap2 p new).2.kernel.machine ∧
      ((n = 0 ∧ ∀ f, ¬ F f) ↔ NoPid t.kernel ∨ CopyStops (t.kernel.proc p) t.kernel ∨
        (t.kernel.proc p).Bare ∧ InheritsNone p 0 t.kernel) := by
  generalize hr : t.copyProcess L swap swap2 p new = r at h ⊢
  unfold Tracked.copyProcess at hr
  dsimp only at hr
  have hsame : Same Process.tree t.kernel (processAllocPid new t.kernel).2 :=
    processAllocPid_same (fun _ _ => rfl) new t.kernel
  have hlinks : Same Process.links t.kernel (processAllocPid new t.kernel).2 :=
    processAllocPid_same (fun _ _ => rfl) new t.kernel
  have hpidTakes : Takes 0 (fun _ => False) t (t.processAllocPid new).2 :=
    .nothing hsame (fun _ => rfl) rfl fun _ => Iff.rfl
  have hpids : (t.processAllocPid new).1 < 0 ↔ NoPid t.kernel := processAllocPid_lt_iff hpid new
  have hp₁ : (t.processAllocPid new).2.kernel.proc p = t.kernel.proc p :=
    Function.update_of_ne hne _ _
  have hmach₁ : (t.processAllocPid new).2.kernel.machine = t.kernel.machine := rfl
  have hmallocs₁ : (t.processAllocPid new).2.kernel.kmallocs = t.kernel.kmallocs := rfl
  have hlinks₁ : ((t.processAllocPid new).2.kernel.proc new).links = Process.zero.links :=
    (hlinks.proc new).trans (by rw [hborn])
  split at hr
  · rename_i hfail
    rw [← hr]
    exact ⟨0, _, hpidTakes, .refl L _, iff_of_true ⟨rfl, fun _ => not_false⟩ (.inl (hpids.mp hfail))⟩
  rename_i hok
  rw [hpids] at hok
  generalize (t.processAllocPid new).2 = t₁ at hr hpidTakes hp₁ hmach₁ hmallocs₁ hlinks₁
  -- the maps
  have hmade := copyMemory_made swap swap2 t₁ hne
    (by rw [hmach₁]; exact hm.stackOk hswap.covered hswap2.covered)
    (by rw [hmach₁, hp₁]; exact fun pm hpm => (hmaps pm hpm).held hswap.covered hswap2.covered)
  have hlinks₂ : Same Process.links t₁.kernel _ := copyMemory_same (fun _ _ => rfl) (fun _ _ => rfl)
    (fun _ _ => rfl) L swap swap2 p new t₁.kernel
  rw [← t₁.copyMemory_kernel] at hlinks₂
  rw [hp₁] at hmade
  have hstops : CopyStops (t.kernel.proc p) t₁.kernel ↔ CopyStops (t.kernel.proc p) t.kernel :=
    copyStops_congr hmach₁ hmallocs₁
  generalize t₁.copyMemory L swap swap2 p new = r₂ at hr hmade hlinks₂
  obtain ⟨n, news, hcopied, hclean⟩ := hmade.made
  have hpages := hcopied.userPages (by rwa [hmach₁]) (by rwa [hmach₁]) (by rwa [hmach₁])
  have htakes := hpidTakes.nothing_trans (hcopied.takes (by rwa [hmach₁]))
  rw [hmach₁] at hpages
  rw [hstops] at hclean
  split at hr
  · rename_i hfail
    rw [← hr]
    refine ⟨n, HasFrame news, htakes, hpages, hclean.trans ?_⟩
    have hbare : (t.kernel.proc p).Bare → CopyStops (t.kernel.proc p) t.kernel := fun hb =>
      hstops.mp (hmade.bare hb hfail)
    rw [or_iff_right hok, or_iff_left_of_imp hbare, or_iff_left_of_imp fun hb => hbare hb.1]
  rename_i hok₂
  have hgoes : ¬ CopyStops (t.kernel.proc p) t.kernel := fun hs => hok₂ (hmade.stops (hstops.mpr hs))
  rw [or_iff_right hgoes] at hclean
  -- the signals
  have hnew := (hlinks₂.proc new).trans hlinks₁
  have hqueue : (r₂.2.kernel.proc p).signal = (t.kernel.proc p).signal := by
    rw [← hp₁]
    exact congrArg (fun x => x.2.2) (hlinks₂.proc p)
  obtain ⟨m, hkeeps, hm0⟩ := r₂.2.copySignals_blocks new (r₂.2.kernel.proc p).signal.sigQueue
    (by rw [show (r₂.2.kernel.proc new).state = .RUN from congrArg Prod.fst hnew]; decide)
    (congrArg (fun x => x.2.2.sigAvalaible) hnew)
  have hmach₃ : (r₂.2.copySignals new (r₂.2.kernel.proc p).signal.sigQueue).kernel.machine =
      r₂.2.kernel.machine := by
    rw [Tracked.copySignals_kernel, copySignals_machine]
  have htakes₃ := htakes.trans_blocks (takes_copySignals hkeeps)
  rw [hqueue] at hr hm0 hmach₃ htakes₃
  generalize r₂.2.copySignals new (t.kernel.proc p).signal.sigQueue = t₃ at hr hmach₃ htakes₃
  -- the record of the child
  rcases t₃.kmalloc_spec with ⟨-, he⟩ | ⟨c, -, he⟩
  · rw [he] at hr
    rw [← hr]
    have hlast : Takes 0 (fun _ => False) t₃ (t₃.setKernel t₃.kernel.kmalloc.2) :=
      .nothing (Same.kmalloc _) (fun _ => rfl) rfl fun _ => Iff.rfl
    have hall := htakes₃.trans_blocks hlast
    rw [zero_add] at hall
    refine ⟨m + n, HasFrame news, hall, ?_, ?_⟩
    · show SameUserPages L t.kernel.machine t₃.kernel.machine
      rwa [hmach₃]
    rw [or_iff_right hok, or_iff_right hgoes,
      add_eq_zero_iff_of_nonneg (Multiset.zero_le m) (Multiset.zero_le n), and_assoc, hclean, and_comm]
    refine and_congr_right fun hb => ?_
    rw [hm0, inheritsNone_of_nil hb.1, hmade.idle hb.1, hmallocs₁]
    simp only [zero_add]
  · rw [he] at hr
    rw [← hr] at h
    exact absurd h (Int.lt_irrefl 0)

end process

end Moonlight
