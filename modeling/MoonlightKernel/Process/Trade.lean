import MoonlightKernel.Process.IniTraces
import MoonlightKernel.Process.Munmap

/-!
# What a call does to the frames

A call that works on the memory of a process takes frames from the allocator, gives frames back to
it, opens and drops page tables, and writes to frames that were at its disposal.  `Traded` says so
of the machine before and after:

* `Traded.of_keeps`, `Moved.traded`, `Cleared.traded`, `Copied.traded`, `Traded.release` — the parts;
* `processMemoryAdd_traded`, `switchMaps_traded`, `copyProcess_traded` — the functions that are made
  of them, whether they succeed or fail.
-/

set_option autoImplicit false

namespace Moonlight

open Sys Sys.Bitmap

/-- No frame. -/
def NoFrame (_ : Nat) : Prop := False

/-- From `m` to `m'`, the frames `got` have been taken and the frames `gave` may have become
available.  No frame that was in use has changed its contents, `kernel_page` apart. -/
structure Traded (L : Layout) (got gave : Nat → Prop) (m m' : Machine) : Prop where
  paging : PagingOk L m'
  plain : Plain m → Plain m'
  kernel : m'.pageDirectory (KERNEL_POS >>> 22) = m.pageDirectory (KERNEL_POS >>> 22)
  fresh : ∀ f, got f → Avail m f
  avail : ∀ f, Avail m' f → (Avail m f ∨ gave f) ∧ ¬ got f
  ram : ∀ f, f ≠ L.kernelFrame → ¬ Avail m f → m'.ram f = m.ram f

section traded

variable {L : Layout} {got got' gave : Nat → Prop} {m m₁ m' : Machine}

theorem avail_congr (hdir : m'.pageDirectory = m.pageDirectory) (hbm : m'.mmBitmap = m.mmBitmap)
    (f : Nat) : Avail m' f ↔ Avail m f := by
  unfold Avail
  rw [hbm, isTableFrame_congr hdir]

theorem plain_congr (hdir : m'.pageDirectory = m.pageDirectory) (h : Plain m) : Plain m' := by
  unfold Plain at h ⊢
  rw [hdir]
  exact h

/-- The tables keep their frames when no table becomes free. -/
theorem PagingOk.of_dir (hm : PagingOk L m) (hdir : m'.pageDirectory = m.pageDirectory)
    (hbm : ∀ f, IsTableFrame m f → isFree m'.mmBitmap f = false) : PagingOk L m' :=
  (hm.setBitmap hbm).congr hdir rfl

namespace Traded

/-- Directory and bitmap are as before. -/
theorem of_keeps (hm : PagingOk L m) (hdir : m'.pageDirectory = m.pageDirectory)
    (hbm : m'.mmBitmap = m.mmBitmap)
    (hram : ∀ f, f ≠ L.kernelFrame → ¬ Avail m f → m'.ram f = m.ram f) :
    Traded L NoFrame NoFrame m m' :=
  ⟨hm.congr hdir hbm, plain_congr hdir, congrFun hdir _, fun _ h => h.elim,
    fun f hf => ⟨.inl ((avail_congr hdir hbm f).mp hf), not_false⟩, hram⟩

theorem refl (hm : PagingOk L m) : Traded L NoFrame NoFrame m m :=
  .of_keeps hm rfl rfl fun _ _ _ => rfl

/-- A step that only takes comes first. -/
theorem trans (h : Traded L got NoFrame m m₁) (h' : Traded L got' gave m₁ m')
    (hgave : ∀ f, gave f → ¬ got f) : Traded L (fun f => got f ∨ got' f) gave m m' where
  paging := h'.paging
  plain hp := h'.plain (h.plain hp)
  kernel := h'.kernel.trans h.kernel
  fresh f := by
    rintro (hf | hf)
    · exact h.fresh f hf
    · exact (h.avail f (h'.fresh f hf)).1.resolve_right not_false
  avail f hf := by
    obtain ⟨hfrom, hno'⟩ := h'.avail f hf
    rcases hfrom with ha | hg
    · obtain ⟨ha, hno⟩ := h.avail f ha
      exact ⟨.inl (ha.resolve_right not_false), not_or.mpr ⟨hno, hno'⟩⟩
    · exact ⟨.inr hg, not_or.mpr ⟨hgave f hg, hno'⟩⟩
  ram f hk hf := by
    have hf₁ : ¬ Avail m₁ f := fun ha => hf ((h.avail f ha).1.resolve_right not_false)
    exact (h'.ram f hk hf₁).trans (h.ram f hk hf)

theorem congr (h : Traded L got gave m m') (hgot : ∀ f, got' f ↔ got f) :
    Traded L got' gave m m' := by
  have heq : got' = got := funext fun f => propext (hgot f)
  rwa [heq]

/-- A step that takes nothing comes first. -/
theorem before (h : Traded L NoFrame NoFrame m m₁) (h' : Traded L got gave m₁ m') :
    Traded L got gave m m' :=
  (h.trans h' fun _ _ => not_false).congr fun _ => (or_iff_right not_false).symm

/-- A step that takes nothing comes after. -/
theorem after (h : Traded L got NoFrame m m₁) (h' : Traded L NoFrame NoFrame m₁ m') :
    Traded L got NoFrame m m' :=
  (h.trans h' fun _ hf => hf.elim).congr fun _ => (or_iff_left not_false).symm

/-- What has been taken may be forgotten: the frames are lost. -/
theorem lost (h : Traded L got gave m m') : Traded L NoFrame gave m m' :=
  ⟨h.paging, h.plain, h.kernel, fun _ hf => hf.elim, fun f hf => ⟨(h.avail f hf).1, not_false⟩,
    h.ram⟩

/-- Frames that are neither free nor tables are given back. -/
theorem release (hm : PagingOk L m) {bm : Bytes} (hno : ∀ f, gave f → ¬ Avail m f)
    (hbm : ∀ f, isFree bm f = true ↔ isFree m.mmBitmap f = true ∨ gave f) :
    Traded L NoFrame gave m (m.setBitmap bm) where
  paging := hm.setBitmap fun f hf => by
    have htaken : isFree m.mmBitmap f = false := by
      obtain ⟨d, hd, ht, rfl⟩ := hf
      exact hm.taken d hd ht
    rw [← Bool.not_eq_true, hbm, htaken]
    rintro (h | h)
    · exact Bool.noConfusion h
    · exact hno f h (.inr hf)
  plain h := h
  kernel := rfl
  fresh _ h := h.elim
  avail f hf := ⟨(Avail.released hbm f).mp hf, not_false⟩
  ram _ _ _ := rfl

end Traded

theorem Moved.traded (h : Moved L m m') : Traded L NoFrame NoFrame m m' :=
  ⟨h.paging, h.plain, h.kernel, fun _ hf => hf.elim,
    fun f hf => ⟨.inl ((h.avail f).mp hf), not_false⟩, h.ram⟩

theorem pageGetPhys_traded (hm : PagingOk L m) (v : Nat) :
    Traded L NoFrame NoFrame m (pageGetPhys L v m).2 := by
  obtain ⟨hdir, hbm⟩ := pageGetPhys_keeps L v m
  exact .of_keeps hm hdir hbm fun f hk _ => ram_pageGetPhys L v m hk

/-- The frames from `f` on that a new map gets. -/
def FrameRun (f n q : Nat) : Prop := f ≤ q ∧ q < f + n

theorem Cleared.traded {f n : Nat} (h : Cleared L m f n m₁) (hm : PagingOk L m) :
    Traded L (FrameRun f n) NoFrame m m₁ where
  paging := h.paging hm
  plain := plain_congr h.dir
  kernel := congrFun h.dir _
  fresh q hq := .inl (h.free q hq.1 hq.2)
  avail q hq := ((h.avail hm q).mp hq).imp .inl fun h => h
  ram q hk hq := h.ram q hk (by
    by_contra hin
    exact hq (.inl (h.free q (by omega) (by omega))))

/-! ## Copies -/

/-- The frames that copying writes to are the kernel's or hold page tables. -/
theorem scratch_avail {swap swap2 f : Nat} (hm : PagingOk L m) (hs : Covered m swap)
    (hs2 : Covered m swap2) (hf : Scratch L swap swap2 m.pageDirectory f) (hk : f ≠ L.kernelFrame) :
    Avail m f := by
  have htable : ∀ {v}, Covered m v → f = tableFrame m (dirIndex v) → Avail m f := by
    rintro v ⟨hlt, ht⟩ rfl
    have hd : dirIndex v < 1024 := by rw [dirIndex_eq]; omega
    by_cases hkern : dirIndex v = KERNEL_POS >>> 22
    · rw [hkern] at ht hk
      exact absurd (hm.kernel ht) hk
    · exact tableFrame_avail ⟨hd, hkern⟩ ht
  rcases hf with hf | hf | hf
  · exact absurd hf hk
  · exact htable hs hf
  · exact htable hs2 hf

/-- Copies begin on a frame. -/
theorem Copied.aligned {scratch : Nat → Prop} {pms news : List MapMemory}
    (h : Copied scratch m pms news m') : ∀ new ∈ news, new.pAddr % 4096 = 0 := by
  induction h with
  | nil => exact fun new hnew => by cases hnew
  | @cons m m₁ m' pm new pms news step _ ih =>
    refine List.forall_mem_cons.mpr ⟨?_, ih⟩
    rw [step.new_eq]
    rcases getPhysBlock_spec pm.size m.mmBitmap with hg | ⟨f, hg, -⟩
    · exact absurd (by rw [hg]) step.got
    · rw [hg]
      exact Nat.mul_mod_left f 4096

/-- Maps have been copied. -/
theorem Copied.traded {swap swap2 : Nat} {pms news : List MapMemory} (hm : PagingOk L m)
    (hs : Covered m swap) (hs2 : Covered m swap2)
    (h : Copied (Scratch L swap swap2 m.pageDirectory) m pms news m') :
    Traded L (HasFrame news) NoFrame m m' where
  paging := hm.of_dir h.dir fun f hf => by
    obtain ⟨d, hd, ht, rfl⟩ := hf
    rw [← Bool.not_eq_true, h.isFree_iff, hm.taken d hd ht]
    exact fun hno => Bool.noConfusion hno.1
  plain := plain_congr h.dir
  kernel := congrFun h.dir _
  fresh f hf := .inl (h.fresh hf).2
  avail f hf := by
    rcases hf with hf | hf
    · exact ⟨.inl (.inl (h.isFree_of hf)), ((h.isFree_iff f).mp hf).2⟩
    · rw [isTableFrame_congr h.dir] at hf
      refine ⟨.inl (.inr hf), fun hnew => ?_⟩
      -- a table is not free, and the frames of the copies were
      obtain ⟨d, hd, ht, rfl⟩ := hf
      have htaken := hm.taken d hd ht
      rw [(h.fresh hnew).2] at htaken
      exact Bool.noConfusion htaken
  ram f hk hf := by
    refine h.ram_of_taken (fun hscratch => hf (scratch_avail hm hs hs2 hscratch hk)) ?_
    rw [← Bool.not_eq_true]
    exact fun hfree => hf (.inl hfree)

end traded

/-! ## `process_memory_add` -/

section add

variable {L : Layout} {p size vAddr mflags kind pflags a f n : Nat} {k : Kernel}

/-- The list that `process_memory_add` is to add the map to. -/
def MapKind (kind : Nat) : Prop :=
  kind = PROC_MEM_ADD_HEAP ∨ kind = PROC_MEM_ADD_STACK ∨ kind = PROC_MEM_ADD_CODE

/-- The flags of a call: a list, and whether the pages are mapped at once. -/
def AddFlags (kind pflags : Nat) : Prop :=
  MapKind kind ∧ (pflags = kind ∨ pflags = kind ||| PROC_MEM_ADD_IMEDIATE)

theorem MapKind.addMap (h : MapKind kind) (pm : MapMemory) (pr : Process) :
    ∃ pr', pr.addMap kind pm = some pr' := by
  rcases h with rfl | rfl | rfl
  · exact ⟨_, rfl⟩
  · exact ⟨_, rfl⟩
  · exact ⟨_, rfl⟩

/-- The flags left when `PROC_MEM_ADD_IMEDIATE` has been cleared. -/
theorem AddFlags.kind_eq (h : AddFlags kind pflags) :
    (if pflags &&& PROC_MEM_ADD_IMEDIATE ≠ 0 then pflags - PROC_MEM_ADD_IMEDIATE else pflags) =
      kind := by
  obtain ⟨rfl | rfl | rfl, rfl | rfl⟩ := h <;> decide

/-- A call has added the map `pm` to the list `kind` of the process. -/
structure Added (L : Layout) (p kind : Nat) (pm : MapMemory) (k k' : Kernel) : Prop where
  proc : ∃ pr, (k.proc p).addMap kind pm = some pr ∧ k'.proc = Function.update k.proc p pr
  aligned : pm.pAddr % 4096 = 0
  lo : 1272 ≤ pm.pAddr / 4096
  hi : pm.pAddr / 4096 + pm.size < 2 ^ 20
  traded : Traded L (HasFrame [pm]) NoFrame k.machine k'.machine

theorem hasFrame_singleton {pm : MapMemory} (q : Nat) :
    HasFrame [pm] q ↔ FrameRun (pm.pAddr / 4096) pm.size q := by
  rw [hasFrame_cons, or_iff_left (hasFrame_nil q)]
  exact (mem_frames_iff pm q).symm

/-- `process_memory_add` once it has its frames. -/
theorem processMemoryFill_traded (hfl : AddFlags kind pflags) (huser : a + n * 4096 ≤ KERNEL_POS)
    {k₀ : Kernel} {m₁ : Machine} (hm : PagingOk L k₀.machine) (hproc : k.proc = k₀.proc)
    (hzeroed : physBzero L (f * 4096) n k.machine = (0, m₁)) (hc : Cleared L k₀.machine f n m₁) :
    ((processMemoryFill L p ⟨a, f * 4096, n, mflags⟩ pflags k).1 ≠ 0 ∧
      (processMemoryFill L p ⟨a, f * 4096, n, mflags⟩ pflags k).2.proc = k₀.proc ∧
      Traded L NoFrame NoFrame k₀.machine
        (processMemoryFill L p ⟨a, f * 4096, n, mflags⟩ pflags k).2.machine) ∨
    ((processMemoryFill L p ⟨a, f * 4096, n, mflags⟩ pflags k).1 = 0 ∧
      Added L p kind ⟨a, f * 4096, n, mflags⟩ k₀
        (processMemoryFill L p ⟨a, f * 4096, n, mflags⟩ pflags k).2) := by
  obtain ⟨pr, hpr⟩ := hfl.1.addMap ⟨a, f * 4096, n, mflags⟩ (k₀.proc p)
  have hdiv : f * 4096 / 4096 = f := Nat.mul_div_cancel f (by decide)
  have hlo := hc.lo
  have hhi := hc.hi
  unfold processMemoryFill
  dsimp only
  rw [hzeroed, hfl.kind_eq, hproc, hpr]
  rw [if_neg (not_not.mpr rfl)]
  -- the mapping, if there is one
  have hmap : Traded L NoFrame NoFrame m₁
      (if pflags &&& PROC_MEM_ADD_IMEDIATE ≠ 0 then pageMapRange L (f * 4096) a mflags n m₁
        else (0, m₁)).2 := by
    split
    · exact (hc.moved hm huser).traded
    · exact .refl (hc.paging hm)
  have hall := (hc.traded hm).after hmap
  generalize (if pflags &&& PROC_MEM_ADD_IMEDIATE ≠ 0 then pageMapRange L (f * 4096) a mflags n m₁
    else (0, m₁)) = r at hall
  dsimp only
  split
  · -- the frames go back
    rename_i herr
    refine .inl ⟨herr, hproc, ?_⟩
    have hback : Traded L NoFrame (FrameRun f n) r.2
        (r.2.setBitmap (freePhysBlock (f * 4096) n r.2.mmBitmap)) := by
      refine .release hall.paging (fun q hq ha => (hall.avail q ha).2 hq) fun q => ?_
      rw [isFree_freePhysBlock (by omega), hdiv, Bool.or_eq_true, decide_eq_true_eq]
      exact Iff.rfl
    refine ⟨hback.paging, fun hp => hback.plain (hall.plain hp), hback.kernel.trans hall.kernel,
      fun _ hf => hf.elim, fun q hq => ⟨?_, not_false⟩, fun q hk hq => hall.ram q hk hq⟩
    rcases (hback.avail q hq).1 with ha | hr
    · exact .inl ((hall.avail q ha).1.resolve_right not_false)
    · exact .inl (hall.fresh q hr)
  · refine .inr ⟨rfl, ⟨pr, hpr, ?_⟩, Nat.mul_mod_left f 4096, ?_, ?_, ?_⟩
    · show Function.update k.proc p pr = Function.update k₀.proc p pr
      rw [hproc]
    · dsimp only
      omega
    · dsimp only
      omega
    · refine hall.congr fun q => ?_
      rw [hasFrame_singleton]
      dsimp only
      rw [hdiv]

/-- **`process_memory_add`** below the kernel: an error that takes no frame, or a new map. -/
theorem processMemoryAdd_traded (hfl : AddFlags kind pflags) (hmf : mflags &&& PAGE_PRESENT ≠ 0)
    (huser : (vAddr &&& PAGE_ADDR) + addPages size vAddr * 4096 ≤ KERNEL_POS)
    (hm : PagingOk L k.machine) :
    ((processMemoryAdd L p size vAddr mflags pflags k).1 ≠ 0 ∧
      (processMemoryAdd L p size vAddr mflags pflags k).2.proc = k.proc ∧
      Traded L NoFrame NoFrame k.machine (processMemoryAdd L p size vAddr mflags pflags k).2.machine) ∨
    ((processMemoryAdd L p size vAddr mflags pflags k).1 = 0 ∧
      ∃ f, Added L p kind ⟨vAddr &&& PAGE_ADDR, f * 4096, addPages size vAddr, mflags⟩ k
        (processMemoryAdd L p size vAddr mflags pflags k).2) := by
  generalize ht : (⟨k, fun _ => .empty, 0⟩ : Tracked) = t
  obtain rfl : t.kernel = k := by rw [← ht]
  have hk := t.processMemoryAdd_kernel L p size vAddr mflags pflags
  have hcases := processMemoryAdd_cases L p size vAddr pflags t.kernel hmf
  rcases processMemoryAdd_tracked L p size vAddr pflags t hmf with
    ⟨href, hmach, hproc, -, -⟩ | ⟨hno, f, b, s, hstart, hmach, -, -, hr⟩
  · rcases hcases with ⟨-, herr, -⟩ | ⟨hno, -⟩
    · refine .inl ⟨by rw [herr]; decide, ?_⟩
      rw [← hk]
      refine ⟨hproc, ?_⟩
      rw [hmach]
      exact pageGetPhys_traded hm _
    · exact absurd href hno
  · rw [hr, s.processMemoryFill_kernel] at hk
    obtain ⟨m₁, hzeroed, hcleared⟩ := hstart.cleared hmach
    rw [← hk]
    exact (processMemoryFill_traded hfl huser hm hstart.proc hzeroed hcleared).imp_right
      fun h => ⟨h.1, f, h.2⟩

end add

/-! ## `process_memory_switch` -/

section switch

variable {L : Layout} {maps : List MapMemory}

/-- A map below the kernel, whatever its pages show. -/
def BelowKernel (pm : MapMemory) : Prop := pm.vAddr + pm.size * 4096 ≤ KERNEL_POS

/-- `page_map_range` over a map, with whatever flags and result. -/
theorem pageMapRange_traded {pm : MapMemory} {m : Machine} (hm : PagingOk L m) (h : BelowKernel pm)
    (pa flag : Nat) : Traded L NoFrame NoFrame m (pageMapRange L pa pm.vAddr flag pm.size m).2 :=
  (moved_pageMapRange hm fun _ hj => (dirIndex_user (runPage_below h hj)).2).traded

/-- **The loops of `process_memory_switch`**, in or out, whether they succeed or not. -/
theorem switchMaps_traded (add : Nat) {m : Machine} (hm : PagingOk L m)
    (h : ∀ pm ∈ maps, BelowKernel pm) : Traded L NoFrame NoFrame m (switchMaps L add maps m).2 := by
  induction maps generalizing m with
  | nil => exact .refl hm
  | cons pm rest ih =>
    obtain ⟨hpm, hrest⟩ := List.forall_mem_cons.mp h
    have hone := pageMapRange_traded hm hpm pm.pAddr (switchFlags add pm.flags)
    rw [switchMaps]
    split
    · exact hone
    · exact hone.before (ih hone.paging hrest)

end switch

/-! ## `copy_process` -/

section copy

variable {L : Layout} {swap swap2 p new : Nat} {k : Kernel}

/-- The memory part of `copy_process`: what it has taken, it keeps, and a copy that succeeds has
taken the frames of the child. -/
theorem copyMemory_traded (hne : p ≠ new) (hm : PagingOk L k.machine) (hs : Covered k.machine swap)
    (hs2 : Covered k.machine swap2) (hheld : ∀ pm ∈ (k.proc p).maps, pm.Held L swap swap2 k.machine) :
    (∃ got, Traded L got NoFrame k.machine (copyMemory L swap swap2 p new k).2.machine) ∧
    (¬ (copyMemory L swap swap2 p new k).1 < 0 →
      MemoryCopied (Scratch L swap swap2 k.machine.pageDirectory) k.machine (k.proc p)
        ((copyMemory L swap swap2 p new k).2.proc new) (copyMemory L swap swap2 p new k).2.machine ∧
      Traded L (HasFrame ((copyMemory L swap swap2 p new k).2.proc new).maps) NoFrame k.machine
        (copyMemory L swap swap2 p new k).2.machine) := by
  have hstack := hm.stackOk hs hs2
  constructor
  · generalize ht : (⟨k, fun _ => .empty, 0⟩ : Tracked) = t
    obtain rfl : t.kernel = k := by rw [← ht]
    obtain ⟨n, news, hmade, -⟩ := (copyMemory_made swap swap2 t hne hstack hheld).made
    obtain ⟨pms, hcopied⟩ := hmade.copied
    have hk := congrArg Prod.snd (t.copyMemory_kernel L swap swap2 p new)
    dsimp only at hk
    rw [← hk]
    exact ⟨_, hcopied.traded hm hs hs2⟩
  · intro hok
    obtain ⟨hcopied, -⟩ := copyMemory_copied hne hstack hheld hok
    exact ⟨hcopied, (hcopied.copied.traded hm hs hs2).congr fun f => hasFrame_copies.symm⟩

/-- The fields of a process that say what memory it has and whether it still has it. -/
def Process.body (pr : Process) : ProcState × List MapMemory × List MapMemory × MapMemory :=
  (pr.state, pr.memory)

theorem Process.maps_of_body {pr pr' : Process} (h : pr'.body = pr.body) : pr'.maps = pr.maps := by
  simp only [Process.body, Process.memory, Prod.mk.injEq] at h
  unfold Process.maps
  rw [h.2.1, h.2.2.1, h.2.2.2]

/-- What `copy_process` does: the child `new` gets its memory and its place in the list, or the
frames taken for it are lost. -/
structure CopyTraded (L : Layout) (p new : Nat) (k : Kernel) (err : Int) (k' : Kernel) : Prop where
  others : ∀ q, q ≠ new → (k'.proc q).body = (k.proc q).body
  failed : err < 0 → k'.processList = k.processList ∧
    ∃ got, Traded L got NoFrame k.machine k'.machine
  ok : ¬ err < 0 → k'.processList = insertAfter p new k.processList ∧
    (∃ scratch m, MemoryCopied scratch k.machine (k.proc p) (k'.proc new) m) ∧
    Traded L (HasFrame (k'.proc new).maps) NoFrame k.machine k'.machine

/-- The memory part writes to the child alone. -/
theorem copyMemory_others (L : Layout) (swap swap2 p : Nat) {new q : Nat} (hq : q ≠ new)
    (k : Kernel) : (copyMemory L swap swap2 p new k).2.proc q = k.proc q := by
  have hmaps : ∀ maps copied k, (copyMaps L swap swap2 maps copied k).2.2.proc q = k.proc q :=
    fun maps copied k => (copyMaps_same (v := fun pr => pr) L swap swap2 maps copied k).proc q
  unfold copyMemory
  have h := hmaps (k.proc p).mmHeap [] k
  generalize copyMaps L swap swap2 (k.proc p).mmHeap [] k = r at h
  dsimp only
  replace h := (Kernel.modify_proc_of_ne r.2.2 hq fun pr => { pr with mmHeap := r.2.1 }).trans h
  generalize r.2.2.modify new (fun pr => { pr with mmHeap := r.2.1 }) = k₁ at h
  split
  · exact h
  replace h := (hmaps (k₁.proc p).mmStack [] k₁).trans h
  generalize copyMaps L swap swap2 (k₁.proc p).mmStack [] k₁ = r at h
  replace h := (Kernel.modify_proc_of_ne r.2.2 hq fun pr => { pr with mmStack := r.2.1 }).trans h
  generalize r.2.2.modify new (fun pr => { pr with mmStack := r.2.1 }) = k₂ at h
  split
  · exact h
  generalize processCopyMemBlock L swap swap2 (k₂.proc p).mmCode k₂.machine = r
  replace h : ((k₂.setMachine r.2.2).modify new fun pr => { pr with mmCode := r.2.1 }).proc q =
      k.proc q := (Kernel.modify_proc_of_ne _ hq _).trans h
  split
  · exact h
  · exact h

/-- **`copy_process`**, whether it succeeds or not. -/
theorem copyProcess_traded (hne : p ≠ new) (hm : PagingOk L k.machine) (hs : Covered k.machine swap)
    (hs2 : Covered k.machine swap2) (hheld : ∀ pm ∈ (k.proc p).maps, pm.Held L swap swap2 k.machine) :
    CopyTraded L p new k (copyProcess L swap swap2 p new k).1
      (copyProcess L swap swap2 p new k).2 := by
  have hpid : Same Process.body k (processAllocPid new k).2 :=
    processAllocPid_same (fun _ _ => rfl) new k
  have hmach : (processAllocPid new k).2.machine = k.machine := rfl
  have hp : (processAllocPid new k).2.proc p = k.proc p := Function.update_of_ne hne _ _
  generalize hr : copyProcess L swap swap2 p new k = r
  unfold copyProcess at hr
  dsimp only at hr
  split at hr
  · rw [← hr]
    refine ⟨fun q _ => hpid.proc q, fun _ => ⟨hpid.list, _, .of_keeps hm rfl rfl fun _ _ _ => rfl⟩,
      fun hok => absurd (Int.negSucc_lt_zero 0) hok⟩
  generalize (processAllocPid new k).2 = k₁ at hr hpid hmach hp
  have hmem := copyMemory_traded hne (by rw [hmach]; exact hm) (by rw [hmach]; exact hs)
    (by rw [hmach]; exact hs2) (by rw [hmach, hp]; exact hheld)
  have hothers : ∀ q, q ≠ new → (copyMemory L swap swap2 p new k₁).2.proc q = k₁.proc q :=
    fun q hq => copyMemory_others L swap swap2 p hq k₁
  have hlist := (copyMemory_same (v := fun _ => ()) (fun _ _ => rfl) (fun _ _ => rfl)
    (fun _ _ => rfl) L swap swap2 p new k₁).list
  rw [hmach, hp] at hmem
  split at hr
  · rw [← hr]
    refine ⟨fun q hq => ?_, fun _ => ⟨hlist.trans hpid.list, hmem.1⟩,
      fun hok => absurd (Int.negSucc_lt_zero 0) hok⟩
    rw [hothers q hq]
    exact hpid.proc q
  rename_i hok
  obtain ⟨hcopied, htraded⟩ := hmem.2 hok
  generalize copyMemory L swap swap2 p new k₁ = r₂ at hr hothers hlist hcopied htraded
  -- the signals
  have hsig : Same Process.body r₂.2 _ :=
    copySignals_same (fun _ _ _ => rfl) new (r₂.2.proc p).signal.sigQueue r₂.2
  have hmach₃ := copySignals_machine new (r₂.2.proc p).signal.sigQueue r₂.2
  generalize (r₂.2.proc p).signal.sigQueue.foldl
    (fun k s => (addSignal s.sigHandled (some new) s.state k).2) r₂.2 = k₃ at hr hsig hmach₃
  have hbody : ∀ q, q ≠ new → (k₃.proc q).body = (k.proc q).body := fun q hq => by
    rw [hsig.proc, hothers q hq]
    exact hpid.proc q
  have hlist₃ : k₃.processList = k.processList := hsig.list.trans (hlist.trans hpid.list)
  cases hrec : k₃.kmalloc with
  | mk a k₄ =>
    obtain ⟨-, rfl⟩ := Kernel.kmalloc_eq hrec
    rw [hrec] at hr
    cases a with
    | none =>
      rw [← hr]
      refine ⟨hbody, fun _ => ⟨hlist₃, HasFrame (r₂.2.proc new).maps, ?_⟩,
        fun hok => absurd (Int.negSucc_lt_zero 0) hok⟩
      show Traded L _ NoFrame k.machine k₃.machine
      rw [hmach₃]
      exact htraded
    | some a =>
      rw [← hr]
      dsimp only
      have hmemory := fun q => linkChild_memory p new q k₃.kmalloc.2
      refine ⟨fun q hq => ?_, fun herr => absurd herr (Int.lt_irrefl 0), fun _ => ⟨?_, ?_, ?_⟩⟩
      · have hstate : ((linkChild p new k₃.kmalloc.2).proc q).state = (k₃.proc q).state := by
          unfold linkChild
          dsimp only
          rw [Kernel.modify_proc]
          split
          · rename_i hqp
            rw [hqp, Kernel.modify_proc_of_ne _ hne]
            rfl
          · rw [Kernel.modify_proc_of_ne _ hq]
            rfl
        rw [← hbody q hq]
        exact Prod.ext hstate (hmemory q)
      · show insertAfter p new k₃.processList = _
        rw [hlist₃]
      · refine ⟨_, _, hcopied.of_memory rfl ?_⟩
        rw [hmemory]
        exact (hsig.field Prod.snd new)
      · have hmaps : ((linkChild p new k₃.kmalloc.2).proc new).maps = (r₂.2.proc new).maps := by
          have h₁ : ((linkChild p new k₃.kmalloc.2).proc new).memory = (r₂.2.proc new).memory :=
            (hmemory new).trans (hsig.field Prod.snd new)
          simp only [Process.memory, Prod.mk.injEq] at h₁
          unfold Process.maps
          rw [h₁.1, h₁.2.1, h₁.2.2]
        rw [hmaps]
        show Traded L _ NoFrame k.machine k₃.machine
        rw [hmach₃]
        exact htraded

end copy

/-! ## `munmap` -/

section munmap

variable {L : Layout} {p addr size flags : Nat} {k k' : Kernel} {ref : MapRef} {r : Int}
  {B : MapMemory}

/-- The numbers of pages that `munmap` works with are those of the hole. -/
theorem munmap_sizes (hB : B.Ok) (ha : addr < 2 ^ 32) (hhole : HoleIn B addr size) :
    sub32 addr B.vAddr >>> 12 = pagesBefore B addr ∧
      (if sub32 B.size (pagesBefore B addr) ≤ (size + 4095) / 4096
        then sub32 B.size (pagesBefore B addr) else (size + 4095) / 4096) =
          pagesRemoved B addr size ∧
      sub32 (sub32 B.size (pagesRemoved B addr size)) (pagesBefore B addr) =
        pagesAfter B addr size := by
  obtain ⟨hn0, hsum⟩ := hole_sizes hhole.sizePos hhole.inside
  have hfr := hB.frames
  have hst := hhole.start
  refine ⟨?_, ?_, ?_⟩
  · rw [sub32_of_le hst ha, shiftRight_page]
    rfl
  · rw [sub32_of_le (by omega) (by omega), pagesRemoved]
    split <;> omega
  · rw [sub32_of_le (show pagesRemoved B addr size ≤ B.size by omega) (by omega),
      sub32_of_le (by omega) (by omega)]
    rfl

/-- The pages that are unmapped do not leave the address space. -/
theorem unmappedRun_lt (hB : B.Ok) (hhole : HoleIn B addr size) {j : Nat}
    (hj : j < pagesRemoved B addr size) :
    add32 (add32 B.vAddr (pagesAfter B addr size <<< 12)) (j <<< 12) =
      B.page (pagesAfter B addr size + j) ∧ pagesAfter B addr size + j < B.size := by
  obtain ⟨hn0, hsum⟩ := hole_sizes hhole.sizePos hhole.inside
  have hlast := (hB.pages (B.size - 1) (by omega)).lt
  unfold MapMemory.page at hlast
  have hlt : pagesAfter B addr size + j < B.size := by omega
  have hsize : (pagesAfter B addr size + j) * 4096 ≤ (B.size - 1) * 4096 :=
    Nat.mul_le_mul_right 4096 (by omega)
  rw [Nat.add_mul] at hsize
  clear hsum
  have hthis : B.vAddr + pagesAfter B addr size * 4096 + j * 4096 < 2 ^ 32 := by omega
  have hfirst : B.vAddr + pagesAfter B addr size * 4096 < 2 ^ 32 :=
    Nat.lt_of_le_of_lt (Nat.le_add_right _ _) hthis
  rw [shiftLeft_page, shiftLeft_page, add32_of_lt hfirst, add32_of_lt hthis, MapMemory.page]
  omega

/-- **`munmap` with a block**: an error that leaves the processes alone, or the list surgery. -/
theorem munmapBlock_traded (hB : B.Ok) (hmap : (k.proc p).map ref = B) (ha : addr < 2 ^ 32)
    (hhole : HoleIn B addr size) (hm : PagingOk L k.machine)
    (h : munmapBlock L p addr ((size + 4095) / 4096) ref k = some (r, k')) :
    k'.processList = k.processList ∧ (∀ q, q ≠ p → k'.proc q = k.proc q) ∧
      ((r ≠ 0 ∧ k'.proc = k.proc ∧ Traded L NoFrame NoFrame k.machine k'.machine) ∨
        (r = 0 ∧ ∃ newMap : Option MapMemory, (newMap = none ↔ pagesAfter B addr size = 0) ∧
          (k.proc p).punch ref (pagesBefore B addr) newMap = some (k'.proc p))) := by
  obtain ⟨hb, hn, hc⟩ := munmap_sizes hB ha hhole
  have hrange : Traded L NoFrame NoFrame k.machine (pageMapRange L 0
      (add32 B.vAddr (pagesAfter B addr size <<< 12)) PAGE_NOTHING (pagesRemoved B addr size)
      k.machine).2 := by
    refine (moved_pageMapRange hm fun j hj => ?_).traded
    obtain ⟨hpage, hlt⟩ := unmappedRun_lt hB hhole hj
    rw [hpage]
    exact hB.pages _ hlt
  unfold munmapBlock at h
  simp only [hmap, hb, hn, hc] at h
  generalize hnew : (if pagesAfter B addr size ≠ 0 then some (MapMemory.mk
    (add32 B.vAddr (add32 (pagesRemoved B addr size) (pagesBefore B addr) <<< 12))
    (add32 B.pAddr (add32 (pagesRemoved B addr size) (pagesBefore B addr) <<< 12))
    (pagesAfter B addr size) B.flags) else none) = newMap at h
  have hnone : newMap = none ↔ pagesAfter B addr size = 0 := by
    rw [← hnew]
    split
    · rename_i hne
      exact iff_of_false (by simp) hne
    · rename_i hz
      exact iff_of_true rfl (not_not.mp hz)
  have hk₁ : ∀ k₁, (if pagesAfter B addr size ≠ 0 then k.kmalloc else (some 0, k)).2 = k₁ →
      k₁.current = k.current ∧ k₁.machine = k.machine ∧ k₁.proc = k.proc ∧
        k₁.processList = k.processList := by
    rintro _ rfl
    split <;> exact ⟨rfl, rfl, rfl, rfl⟩
  generalize (if pagesAfter B addr size ≠ 0 then k.kmalloc else (some 0, k)) = alloc at h hk₁
  obtain ⟨hcur, hmach, hproc, hlist⟩ := hk₁ alloc.2 rfl
  split at h
  · cases h
    have herr : -ENOMEM ≠ 0 := by decide
    refine ⟨hlist, fun q _ => congrFun hproc q, .inl ⟨herr, hproc, ?_⟩⟩
    rw [hmach]
    exact .refl hm
  rw [hcur, hmach, hproc] at h
  generalize hq : (if k.current = some p then pageMapRange L 0
    (add32 B.vAddr (pagesAfter B addr size <<< 12)) PAGE_NOTHING (pagesRemoved B addr size) k.machine
    else (0, k.machine)) = q at h
  have htraded : Traded L NoFrame NoFrame k.machine q.2 := by
    rw [← hq]
    split
    · exact hrange
    · exact .refl hm
  split at h
  · rename_i hne
    cases h
    exact ⟨hlist, fun q _ => congrFun hproc q, .inl ⟨hne, hproc, htraded⟩⟩
  cases hp : (k.proc p).punch ref (pagesBefore B addr) newMap with
  | none =>
    rw [hp] at h
    cases h
  | some pr =>
    rw [hp] at h
    cases h
    refine ⟨hlist, fun q hq => ?_, .inr ⟨rfl, newMap, hnone, ?_⟩⟩
    · exact (Kernel.modify_proc_of_ne _ hq _).trans (congrFun hproc q)
    · rw [Kernel.modify_proc_self, hp]

/-- What a successful `munmap` that splits its block evenly does to the frames: it gives back those
of the hole. -/
theorem MunmapDone.traded (hmaps : MapsOk (k.proc p).maps) (hm : PagingOk L k.machine)
    (hno : ∀ f, HasFrame (k.proc p).maps f → ¬ Avail k.machine f)
    (h : MunmapDone L p addr size k k' B) (heven : pagesBefore B addr = pagesAfter B addr size) :
    ∃ gave, Traded L NoFrame gave k.machine k'.machine ∧
      (∀ f, gave f → HasFrame (k.proc p).maps f) ∧ ∀ f, gave f → ¬ HasFrame (k'.proc p).maps f := by
  obtain ⟨pre, post, hpre, hpost⟩ := h.maps
  have hB : B.Ok := hmaps.ok B (by rw [hpre]; simp)
  obtain ⟨m₁, hrun, hidle, hk'⟩ := h.machine
  obtain ⟨hn0, hsum⟩ := hole_sizes h.hole.sizePos h.hole.inside
  have hpa := hB.pAligned
  have hfr := hB.frames
  have hfirst : Traded L NoFrame NoFrame k.machine m₁ := by
    by_cases hcur : k.current = some p
    · have hmoved : Moved L k.machine (pageMapRange L 0 (B.vAddr + pagesAfter B addr size * 4096)
          PAGE_NOTHING (pagesRemoved B addr size) k.machine).2 := by
        refine moved_pageMapRange hm fun j hj => ?_
        refine unmappedRun_dirs hB h.hole _ ?_
        have hlast := (hB.pages (B.size - 1) (by omega)).lt
        have hal := hB.vAligned
        unfold MapMemory.page at hlast
        rw [shiftLeft_page, add32_of_lt (by omega)]
        unfold InPages unmappedRun
        omega
      rw [hrun hcur] at hmoved
      exact hmoved.traded
    · rw [hidle hcur]
      exact .refl hm
  have hgave : ∀ f, (∃ i, pagesBefore B addr ≤ i ∧ i < pagesBefore B addr + pagesRemoved B addr size ∧
      f = B.frame i) → HasFrame (k.proc p).maps f := by
    rintro f ⟨i, -, hi, rfl⟩
    exact ⟨B, by rw [hpre]; simp, i, by omega, rfl⟩
  refine ⟨_, hfirst.before ?_, hgave, ?_⟩
  · rw [hk']
    refine .release hfirst.paging (fun f hf ha => ?_) fun f => ?_
    · exact hno f (hgave f hf) ((hfirst.avail f ha).1.resolve_right not_false)
    · rw [isFree_freePhysBlock (by omega), Bool.or_eq_true, decide_eq_true_eq]
      refine or_congr_right ⟨fun hf => ⟨f - B.pAddr / 4096, ?_⟩, ?_⟩
      · unfold MapMemory.frame
        omega
      · rintro ⟨i, h1, h2, rfl⟩
        unfold MapMemory.frame
        omega
  · -- the frame of a page of the hole stands behind no other page
    rintro f ⟨i, hi, hi', rfl⟩ hhas
    obtain ⟨v, hv⟩ := backs_iff_hasFrame.mpr hhas
    obtain ⟨hold, hnot⟩ := (h.relation hmaps v _).mp hv
    have hlt : i < B.size := by omega
    have hpage : v = B.page i := by
      rw [hpre] at hmaps hold
      exact hmaps.page_of_frame hlt hold
    exact hnot ((removed_iff hB.vAligned h.hole.aligned h.hole.start).mpr ⟨i, hi, hi', hpage⟩)

end munmap

/-! ## `process_free_all_memory` -/

/-- The frames of a process go back to the allocator. -/
theorem processFreeAllMemory_traded {L : Layout} {p : Nat} {k : Kernel} (hm : PagingOk L k.machine)
    (hrange : ∀ pm ∈ (k.proc p).maps, pm.pAddr / 4096 + pm.size ≤ 2 ^ 20)
    (hno : ∀ f, HasFrame (k.proc p).maps f → ¬ Avail k.machine f) :
    Traded L NoFrame (HasFrame (k.proc p).maps) k.machine (processFreeAllMemory L p k).machine := by
  obtain ⟨bm, hbm⟩ := freeMaps_eq L (decide (k.current = some p)) (k.proc p).maps k.machine
  have hfree := isFree_freeMaps L (decide (k.current = some p)) hrange k.machine
  have hmach : (processFreeAllMemory L p k).machine = k.machine.setBitmap bm := hbm
  rw [hbm] at hfree
  rw [hmach]
  exact .release hm hno fun f => by rw [← backs_iff_hasFrame]; exact hfree f

end Moonlight
