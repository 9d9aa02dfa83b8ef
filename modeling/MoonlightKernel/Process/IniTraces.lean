import MoonlightKernel.Process.CopyTraces

/-!
# A new process that gets no memory

`process_ini_kern` gives a process its code and its stack with two immediate calls of
`process_memory_add`.  A call that fails gives its record and its frames back; the pages that its
mapping has passed over are gone, and the memory of the first call stays when the second fails.

* `processMemoryFill_immediate` — the two outcomes of a call that has its record and frames;
* `processMemoryAdd_takes`, `AddUndone`, `processMemoryAdd_userPages_iff` — a call that fails;
* `processMemoryAdd_code` — the first call, when it succeeds;
* `iniKern_noTrace_iff` — when a `process_ini_kern` that fails leaves nothing.
-/

set_option autoImplicit false

namespace Moonlight

open Sys Sys.Bitmap

section add

variable {L : Layout} {p size vAddr mflags pflags a v f n : Nat} {t : Tracked} {m₁ : Machine}

/-! ## The two outcomes of a call -/

/-- An immediate `process_memory_add` with its frames cleared gives everything back, or adds the
map. -/
theorem processMemoryFill_immediate (himm : Immediate pflags)
    (hzeroed : physBzero L (f * 4096) n t.kernel.machine = (0, m₁)) :
    ((pageMapRange L (f * 4096) v mflags n m₁).1 ≠ 0 ∧
      t.processMemoryFill L p a ⟨v, f * 4096, n, mflags⟩ pflags =
        ((pageMapRange L (f * 4096) v mflags n m₁).1, (t.setKernel (t.kernel.setMachine
          ((pageMapRange L (f * 4096) v mflags n m₁).2.setBitmap (freePhysBlock (f * 4096) n
            (pageMapRange L (f * 4096) v mflags n m₁).2.mmBitmap)))).kfree a)) ∨
    ((pageMapRange L (f * 4096) v mflags n m₁).1 = 0 ∧ ∃ pr,
      t.processMemoryFill L p a ⟨v, f * 4096, n, mflags⟩ pflags =
        (0, ((t.setKernel (t.kernel.setMachine (pageMapRange L (f * 4096) v mflags n m₁).2)).modify p
          fun _ => pr).addRecord p (pflags - PROC_MEM_ADD_IMEDIATE) a)) := by
  have hnow : pflags &&& PROC_MEM_ADD_IMEDIATE ≠ 0 := by
    rcases himm with rfl | rfl | rfl <;> decide
  have hadd : ∃ pr, (t.kernel.proc p).addMap (pflags - PROC_MEM_ADD_IMEDIATE)
      ⟨v, f * 4096, n, mflags⟩ = some pr := by
    rcases himm with rfl | rfl | rfl
    · exact ⟨_, rfl⟩
    · exact ⟨_, rfl⟩
    · exact ⟨_, rfl⟩
  obtain ⟨pr, hpr⟩ := hadd
  unfold Tracked.processMemoryFill
  dsimp only
  rw [hzeroed]
  simp only [hnow, ne_eq, not_true_eq_false, not_false_eq_true, ↓reduceIte, hpr]
  by_cases hok : (pageMapRange L (f * 4096) v mflags n m₁).1 = 0
  · rw [if_neg (not_not.mpr hok)]
    exact .inr ⟨hok, pr, rfl⟩
  · rw [if_pos hok]
    exact .inl ⟨hok, rfl⟩

/-! ## Frames that have been taken and cleared -/

/-- The `n` frames from `f` on have been taken from the allocator and cleared. -/
structure Cleared (L : Layout) (m : Machine) (f n : Nat) (m₁ : Machine) : Prop where
  free : ∀ q, f ≤ q → q < f + n → isFree m.mmBitmap q = true
  lo : 1272 ≤ f
  hi : f + n < 2 ^ 20
  dir : m₁.pageDirectory = m.pageDirectory
  bitmap : m₁.mmBitmap = clearRun f n m.mmBitmap
  ram : ∀ q, q ≠ L.kernelFrame → (q < f ∨ f + n ≤ q) → m₁.ram q = m.ram q

namespace Cleared

variable {m m₁ : Machine} {s : Nat}

theorem paging (h : Cleared L m f n m₁) (hm : PagingOk L m) : PagingOk L m₁ :=
  (hm.taken_run f n).congr h.dir h.bitmap

theorem safe (h : Cleared L m f n m₁) (hm : PagingSafe L m) : PagingSafe L m₁ :=
  hm.of_paging (h.paging hm.toPagingOk) fun d _ => congrFun h.dir d

theorem avail (h : Cleared L m f n m₁) (hm : PagingOk L m) (g : Nat) :
    Avail m₁ g ↔ Avail m g ∧ ¬ (f ≤ g ∧ g < f + n) := by
  have htable : IsTableFrame m₁ g ↔ IsTableFrame (m.setBitmap (clearRun f n m.mmBitmap)) g :=
    isTableFrame_congr h.dir g
  rw [← Avail.taken_run hm h.free, Avail, Avail, h.bitmap, htable]
  rfl

theorem userPages (h : Cleared L m f n m₁) (hm : PagingOk L m) : SameUserPages L m m₁ := by
  refine .of_tables hm h.dir fun d hd ht => ?_
  have hk : KERNEL_POS >>> 22 = 768 := by decide
  have hpage : PageDir d := ⟨by omega, Nat.ne_of_lt hd⟩
  refine h.ram _ (hm.notKernel d hpage ht) ?_
  by_contra hin
  have htaken := hm.taken d hpage ht
  rw [h.free _ (by omega) (by omega)] at htaken
  exact Bool.noConfusion htaken

theorem runFits_iff (h : Cleared L m f n m₁) {va i k : Nat} :
    RunFits m₁ va i k ↔ RunFits (m.setBitmap (clearRun f n m.mmBitmap)) va i k :=
  ⟨fun hr => hr.congr h.dir.symm h.bitmap.symm, fun hr => hr.congr h.dir h.bitmap⟩

theorem unmarked_iff (h : Cleared L m f n m₁) (hm : PagingOk L m) {va : Nat}
    (huser : ∀ j < s, runPage va j < KERNEL_POS) :
    Unmarked L m₁ va s ↔ Unmarked L (m.setBitmap (clearRun f n m.mmBitmap)) va s := by
  refine unmarked_congr h.dir h.bitmap (fun v hv => ?_) (fun q hq => ?_) huser
  · rw [h.userPages hm v hv, present_setBitmap]
  · have hlo := h.lo
    have hk := L.kernelFrame_lt
    have hk0 := L.kernelFrame_ne_zero
    refine h.ram q (by omega) ?_
    by_contra hin
    rcases hq with rfl | ⟨-, hfree⟩
    · omega
    · have hrun : f ≤ q ∧ q < f + n := by omega
      have hbit : isFree (clearRun f n m.mmBitmap) q = true := hfree
      rw [isFree, isSet_clearRun, decide_eq_true hrun, Bool.not_true, Bool.and_false] at hbit
      exact Bool.noConfusion hbit

/-- The mapping of the frames below the kernel. -/
theorem moved (h : Cleared L m f n m₁) (hm : PagingOk L m) {a b v k : Nat}
    (huser : v + k * 4096 ≤ KERNEL_POS) : Moved L m₁ (pageMapRange L a v b k m₁).2 :=
  moved_pageMapRange (h.paging hm) fun _ hj => (dirIndex_user (runPage_below huser hj)).2

end Cleared

/-- What `process_memory_add` maps. -/
theorem AddStarted.cleared {s : Tracked} {k : Kernel} (h : AddStarted k n f s.kernel)
    (hmach : s.kernel.machine = (pageGetPhys L v k.machine).2.setBitmap (clearRun f n k.machine.mmBitmap)) :
    ∃ m₁, physBzero L (f * 4096) n s.kernel.machine = (0, m₁) ∧ Cleared L k.machine f n m₁ := by
  have hlo := h.lo
  have hkf : L.kernelFrame < f := Nat.lt_of_lt_of_le L.kernelFrame_lt (by omega)
  obtain ⟨m₁, hzeroed, hdir, hbm, -, hram⟩ := physBzero_spec L n (m := s.kernel.machine) h.hi hkf
  refine ⟨m₁, hzeroed, h.free, hlo, h.hi, hdir.trans h.dir, hbm.trans h.bitmap, fun q hq hout => ?_⟩
  rw [hram q hq hout, hmach]
  exact ram_pageGetPhys L v k.machine hq

/-! ## A call that fails -/

/-- A call for `n` pages at `a` that fails leaves user space alone: it is refused, or the first page
that cannot be mapped is the page `s` and the state before is unmarked up to there. -/
inductive AddUndone (L : Layout) (k : Kernel) (a n : Nat) : Prop
  | refused (h : AddRefused L k a n)
  | unmapped (s : Nat) (hs : s < n)
      (hfits : RunFits (k.machine.setBitmap (getPhysBlock n k.machine.mmBitmap).2) a 0 s)
      (hstops : ¬ RunFits (k.machine.setBitmap (getPhysBlock n k.machine.mmBitmap).2) a 0 (s + 1))
      (h : Unmarked L (k.machine.setBitmap (getPhysBlock n k.machine.mmBitmap).2) a s)

/-- **A call that fails** gives its record and its frames back. -/
theorem processMemoryAdd_takes (himm : Immediate pflags) (hmf : mflags &&& PAGE_PRESENT ≠ 0)
    (huser : (vAddr &&& PAGE_ADDR) + addPages size vAddr * 4096 ≤ KERNEL_POS)
    (hm : PagingOk L t.kernel.machine) (h : (t.processMemoryAdd L p size vAddr mflags pflags).1 ≠ 0) :
    Takes 0 (fun _ => False) t (t.processMemoryAdd L p size vAddr mflags pflags).2 := by
  have htree := processMemoryAdd_same L p size vAddr mflags pflags t.kernel
  rw [← t.processMemoryAdd_kernel] at htree
  rcases processMemoryAdd_tracked L p size vAddr pflags t hmf with ⟨-, hmach, -, hrecs, hlive⟩ |
    ⟨-, f, a, s, hstart, hmach, hrecs, hlive, hr⟩
  · obtain ⟨hdir, hbm⟩ := pageGetPhys_keeps L (vAddr &&& PAGE_ADDR) t.kernel.machine
    refine .nothing htree (fun q => by rw [hrecs]) hlive fun g => ?_
    rw [hmach, Avail, hbm, isTableFrame_congr hdir]
    rfl
  · rw [hr] at h htree ⊢
    obtain ⟨m₁, hzeroed, hcleared⟩ := hstart.cleared hmach
    rcases processMemoryFill_immediate himm hzeroed (t := s) with ⟨-, hfill⟩ | ⟨-, pr, hfill⟩
    · rw [hfill] at htree ⊢
      refine .nothing htree (fun q => by rw [Tracked.kfree_recs, Tracked.setKernel_recs, hrecs]) ?_
        fun g => ?_
      · rw [Tracked.kfree_live, Tracked.setKernel_live, hlive, Multiset.erase_cons_head]
      · have hmoved := hcleared.moved (a := f * 4096) (b := mflags) hm huser
        refine avail_after_unwinding hm (Nat.le_of_lt hstart.hi) hstart.free (fun g => ?_) g
        rw [hmoved.avail, hcleared.avail hm, Avail.taken_run hm hstart.free]
    · rw [hfill] at h
      exact absurd rfl h

/-- **What a call that fails does to user space.** -/
theorem processMemoryAdd_userPages_iff (himm : Immediate pflags) (hmf : mflags &&& PAGE_PRESENT ≠ 0)
    (hma : mflags &&& PAGE_ADDR = 0)
    (huser : (vAddr &&& PAGE_ADDR) + addPages size vAddr * 4096 ≤ KERNEL_POS)
    (hm : PagingSafe L t.kernel.machine) (hk : HasTable t.kernel.machine (KERNEL_POS >>> 22))
    (h : (t.processMemoryAdd L p size vAddr mflags pflags).1 ≠ 0) :
    SameUserPages L t.kernel.machine
        (t.processMemoryAdd L p size vAddr mflags pflags).2.kernel.machine ↔
      AddUndone L t.kernel (vAddr &&& PAGE_ADDR) (addPages size vAddr) := by
  have hva : (vAddr &&& PAGE_ADDR) % 4096 = 0 := by
    rw [show vAddr &&& PAGE_ADDR = PAGE_GET_ADDR vAddr from rfl, PAGE_GET_ADDR_eq]
    exact Nat.mul_mod_left _ 4096
  rcases processMemoryAdd_tracked L p size vAddr pflags t hmf with ⟨hrefused, hmach, -⟩ |
    ⟨hno, f, a, s, hstart, hmach, -, -, hr⟩
  · refine iff_of_true ?_ (.refused hrefused)
    rw [hmach]
    have hdir := (pageGetPhys_keeps L (vAddr &&& PAGE_ADDR) t.kernel.machine).1
    refine .of_tables hm.toPagingOk hdir fun d hd ht => ?_
    have hk768 : KERNEL_POS >>> 22 = 768 := by decide
    exact ram_pageGetPhys L _ _ (hm.notKernel d ⟨by omega, Nat.ne_of_lt hd⟩ ht)
  · rw [hr] at h ⊢
    obtain ⟨m₁, hzeroed, hcleared⟩ := hstart.cleared hmach
    rcases processMemoryFill_immediate himm hzeroed (t := s) with ⟨hfail, hfill⟩ | ⟨-, pr, hfill⟩
    · have hbm : (getPhysBlock (addPages size vAddr) t.kernel.machine.mmBitmap).2 =
          clearRun f (addPages size vAddr) t.kernel.machine.mmBitmap := by rw [hstart.got]
      have hk₁ : HasTable m₁ (KERNEL_POS >>> 22) :=
        (hasTable_congr (congrFun hcleared.dir _)).mpr hk
      have hback : SameUserPages L t.kernel.machine
          (s.processMemoryFill L p a ⟨vAddr &&& PAGE_ADDR, f * 4096, addPages size vAddr, mflags⟩
            pflags).2.kernel.machine ↔ SameUserPages L m₁ (pageMapRange L (f * 4096)
              (vAddr &&& PAGE_ADDR) mflags (addPages size vAddr) m₁).2 := by
        rw [hfill]
        refine forall₂_congr fun v hv => ?_
        rw [hcleared.userPages hm.toPagingOk v hv]
        exact iff_congr present_setBitmap Iff.rfl
      rw [hback, pageMapRange_userPages_iff (hcleared.safe hm) hk₁ (Nat.mul_mod_left f 4096) hva hma
        hmf huser hfail]
      have hpages : ∀ s < addPages size vAddr, ∀ j < s,
          runPage (vAddr &&& PAGE_ADDR) j < KERNEL_POS :=
        fun s hs j hj => runPage_below huser (Nat.lt_trans hj hs)
      constructor
      · rintro ⟨s, hs, ⟨hfits, hstops⟩, hclear⟩
        rw [hcleared.runFits_iff, ← hbm] at hfits hstops
        rw [hcleared.unmarked_iff hm.toPagingOk (hpages s hs), ← hbm] at hclear
        exact .unmapped s hs hfits hstops hclear
      · rintro (href | ⟨s, hs, hfits, hstops, hclear⟩)
        · exact absurd href hno
        · refine ⟨s, hs, ?_, ?_⟩
          · rw [hcleared.runFits_iff, hcleared.runFits_iff, ← hbm]
            exact ⟨hfits, hstops⟩
          · rw [hcleared.unmarked_iff hm.toPagingOk (hpages s hs), ← hbm]
            exact hclear
    · rw [hfill] at h
      exact absurd rfl h

/-- When a call succeeds. -/
theorem processMemoryAdd_ok (himm : Immediate pflags) (hmf : mflags &&& PAGE_PRESENT ≠ 0)
    (hma : mflags &&& PAGE_ADDR = 0) :
    (t.processMemoryAdd L p size vAddr mflags pflags).1 = 0 ↔
      ¬ AddRefused L t.kernel (vAddr &&& PAGE_ADDR) (addPages size vAddr) ∧
        RunFits (t.kernel.machine.setBitmap
          (getPhysBlock (addPages size vAddr) t.kernel.machine.mmBitmap).2)
          (vAddr &&& PAGE_ADDR) 0 (addPages size vAddr) := by
  rw [← processMemoryAdd_ok_iff himm hmf hma, ← t.processMemoryAdd_kernel]

/-- A call for one page that fails has mapped nothing. -/
theorem addUndone_one (himm : Immediate pflags) (hmf : mflags &&& PAGE_PRESENT ≠ 0)
    (hma : mflags &&& PAGE_ADDR = 0) (hone : addPages size vAddr = 1)
    (h : (t.processMemoryAdd L p size vAddr mflags pflags).1 ≠ 0) :
    AddUndone L t.kernel (vAddr &&& PAGE_ADDR) (addPages size vAddr) := by
  rw [ne_eq, processMemoryAdd_ok himm hmf hma, not_and_or, not_not] at h
  rcases h with href | hstops
  · exact .refused href
  · rw [hone] at hstops ⊢
    exact .unmapped 0 Nat.zero_lt_one (.zero _ _ _) hstops
      ⟨fun j hj => absurd hj (Nat.not_lt_zero j), fun j hj => absurd hj (Nat.not_lt_zero j)⟩

/-- A call for no page that fails has not even begun. -/
theorem addUndone_empty (himm : Immediate pflags) (hmf : mflags &&& PAGE_PRESENT ≠ 0)
    (hma : mflags &&& PAGE_ADDR = 0) (hzero : addPages size vAddr = 0)
    (h : (t.processMemoryAdd L p size vAddr mflags pflags).1 ≠ 0) :
    AddUndone L t.kernel (vAddr &&& PAGE_ADDR) (addPages size vAddr) := by
  rw [ne_eq, processMemoryAdd_ok himm hmf hma, not_and_or, not_not] at h
  refine .refused (h.resolve_right fun hstops => hstops ?_)
  rw [hzero]
  exact .zero _ _ _

theorem RunFits.mono {m : Machine} {va i k : Nat} (h : RunFits m va i n) (hk : k ≤ n) :
    RunFits m va i k := by
  refine ⟨fun j h1 h2 => h.small j h1 (by omega), Nat.le_trans (Finset.card_le_card ?_) h.frames⟩
  intro d hd
  obtain ⟨⟨j, hj, hjd⟩, habs⟩ := mem_missing.mp hd
  exact mem_missing.mpr ⟨⟨j, by omega, hjd⟩, habs⟩

/-- A call that succeeds is not one that leaves user space alone. -/
theorem not_addUndone_of_ok (himm : Immediate pflags) (hmf : mflags &&& PAGE_PRESENT ≠ 0)
    (hma : mflags &&& PAGE_ADDR = 0)
    (h : (t.processMemoryAdd L p size vAddr mflags pflags).1 = 0) :
    ¬ AddUndone L t.kernel (vAddr &&& PAGE_ADDR) (addPages size vAddr) := by
  obtain ⟨hno, hfits⟩ := (processMemoryAdd_ok himm hmf hma).mp h
  rintro (href | ⟨s, hs, -, hstops, -⟩)
  · exact hno href
  · exact hstops (hfits.mono hs)

/-! ## The code -/

/-- **A call for the code** that succeeds has taken its frames and no block: the record of the map is
copied into the process. -/
theorem processMemoryAdd_code (hpf : pflags = PROC_MEM_ADD_IMEDIATE ||| PROC_MEM_ADD_CODE)
    (hmf : mflags &&& PAGE_PRESENT ≠ 0) (hma : mflags &&& PAGE_ADDR = 0)
    (huser : (vAddr &&& PAGE_ADDR) + addPages size vAddr * 4096 ≤ KERNEL_POS)
    (hm : PagingOk L t.kernel.machine) (h : (t.processMemoryAdd L p size vAddr mflags pflags).1 = 0) :
    ∃ f, Takes 0 (fun q => f ≤ q ∧ q < f + addPages size vAddr) t
        (t.processMemoryAdd L p size vAddr mflags pflags).2 ∧
      PagingOk L (t.processMemoryAdd L p size vAddr mflags pflags).2.kernel.machine ∧
      (addPages size vAddr = 0 →
        (t.processMemoryAdd L p size vAddr mflags pflags).2.kernel.machine.pageDirectory =
          t.kernel.machine.pageDirectory ∧
        SameUserPages L t.kernel.machine
          (t.processMemoryAdd L p size vAddr mflags pflags).2.kernel.machine) := by
  have himm : Immediate pflags := .inr (.inr (by rw [hpf]; decide))
  have hcode : pflags - PROC_MEM_ADD_IMEDIATE = PROC_MEM_ADD_CODE := by
    rw [hpf]
    decide
  have htree := processMemoryAdd_same L p size vAddr mflags pflags t.kernel
  rw [← t.processMemoryAdd_kernel] at htree
  rcases processMemoryAdd_tracked L p size vAddr pflags t hmf with ⟨hrefused, -⟩ |
    ⟨-, f, a, s, hstart, hmach, hrecs, hlive, hr⟩
  · exact absurd hrefused ((processMemoryAdd_ok himm hmf hma).mp h).1
  rw [hr] at h htree ⊢
  obtain ⟨m₁, hzeroed, hcleared⟩ := hstart.cleared hmach
  rcases processMemoryFill_immediate himm hzeroed (t := s) with ⟨hfail, hfill⟩ | ⟨-, pr, hfill⟩
  · rw [hfill] at h
    exact absurd h hfail
  have hmoved := hcleared.moved (a := f * 4096) (b := mflags) hm huser
  rw [hfill, hcode] at htree ⊢
  refine ⟨f, ⟨htree, fun q => ?_, ?_, fun g => ?_, fun g hg => .inl (hstart.free g hg.1 hg.2)⟩,
    hmoved.paging, fun hzero => ?_⟩
  · exact congrArg (fun x => (x q).children) hrecs
  · show s.live.erase a = 0 + t.live
    rw [hlive, Multiset.erase_cons_head, zero_add]
  · exact (hmoved.avail g).trans (hcleared.avail hm g)
  · rw [hzero]
    exact ⟨hcleared.dir, hcleared.userPages hm⟩

end add

/-! ## `process_ini_kern` -/

section ini

variable {L : Layout} {vAddr size a n : Nat} {t : Tracked}

theorem addUndone_congr {k k' : Kernel} (hmach : k'.machine = k.machine)
    (hmallocs : k'.kmallocs = k.kmallocs) : AddUndone L k' a n ↔ AddUndone L k a n := by
  have href : AddRefused L k' a n ↔ AddRefused L k a n := by
    rw [addRefused_iff, addRefused_iff, hmach, hmallocs]
  constructor
  · rintro (h | ⟨s, hs, hfits, hstops, h⟩)
    · exact .refused (href.mp h)
    · rw [hmach] at hfits hstops h
      exact .unmapped s hs hfits hstops h
  · rintro (h | ⟨s, hs, hfits, hstops, h⟩)
    · exact .refused (href.mpr h)
    · rw [← hmach] at hfits hstops h
      exact .unmapped s hs hfits hstops h

/-- A process under construction does not use a pid. -/
theorem noPid_born (h : a ∉ t.kernel.processList) : NoPid (t.born a).kernel ↔ NoPid t.kernel := by
  have hpids : pidsOf (t.born a).kernel = pidsOf t.kernel := by
    refine List.map_congr_left fun q hq => ?_
    rw [Tracked.born_proc_of_ne a t fun he => h (he ▸ hq)]
  constructor
  · exact fun hno => ⟨by rw [← hpids]; exact hno.used, by rw [← hpids]; exact hno.last⟩
  · exact fun hno => ⟨by rw [hpids]; exact hno.used, by rw [hpids]; exact hno.last⟩

/-- A `process_ini_kern` that fails leaves nothing: it has no record or no pid, its first call for
memory leaves user space alone, or the code has no page. -/
inductive IniKernTraceless (L : Layout) (vAddr size : Nat) (k : Kernel) : Prop
  | record (h : k.kmallocs 0 = none)
  | pid (h : NoPid k)
  | memory (h : AddUndone L k.kmalloc.2 (vAddr &&& PAGE_ADDR) (addPages size vAddr))
  | empty (h : addPages size vAddr = 0)

/-- **A `process_ini_kern` that fails.** -/
theorem iniKern_noTrace_iff (hm : PagingSafe L t.kernel.machine)
    (hk : HasTable t.kernel.machine (KERNEL_POS >>> 22)) (hfresh : FreshRecord t.kernel)
    (hpid : PidInv t.kernel.lastPid)
    (huser : (vAddr &&& PAGE_ADDR) + addPages size vAddr * 4096 ≤ KERNEL_POS)
    (h : (t.processIniKern L vAddr size).1 = none) :
    NoTrace L t (t.processIniKern L vAddr size).2 ↔ IniKernTraceless L vAddr size t.kernel := by
  have hmf : (PAGE_PRESENT ||| PAGE_WRITE ||| PAGE_USER_SUPERVISOR) &&& PAGE_PRESENT ≠ 0 := by decide
  have hma : (PAGE_PRESENT ||| PAGE_WRITE ||| PAGE_USER_SUPERVISOR) &&& PAGE_ADDR = 0 := by decide
  have hcode : Immediate (PROC_MEM_ADD_IMEDIATE ||| PROC_MEM_ADD_CODE) := .inr (.inr (by decide))
  have hstk : Immediate (PROC_MEM_ADD_IMEDIATE ||| PROC_MEM_ADD_STACK) := .inr (.inl (by decide))
  generalize hr : t.processIniKern L vAddr size = r at h ⊢
  unfold Tracked.processIniKern at hr
  rcases t.processNew_spec with ⟨hno, he⟩ | ⟨a, ha, he⟩
  · rw [he] at hr
    rw [← hr]
    exact iff_of_true (noTrace_of_noRecord L t) (.record hno)
  rw [he] at hr
  dsimp only at hr
  have hnew : a ∉ t.kernel.processList := hfresh a ha
  have hrecord : t.kernel.kmallocs 0 ≠ none := by
    rw [ha]
    exact Option.some_ne_none a
  -- the pid
  have hpids := processAllocPid_fails_iff (k := (t.born a).kernel) hpid a
  rw [noPid_born hnew] at hpids
  have htakes : Takes 0 (fun _ => False) (t.born a) ((t.born a).processAllocPid a).2 :=
    .nothing (processAllocPid_same (fun _ _ => rfl) a (t.born a).kernel) (fun _ => rfl) rfl
      fun _ => Iff.rfl
  have hmach : ((t.born a).processAllocPid a).2.kernel.machine = t.kernel.machine := rfl
  have hmallocs : ((t.born a).processAllocPid a).2.kernel.kmallocs = t.kernel.kmalloc.2.kmallocs := rfl
  split at hr
  · rename_i hfail
    rw [← hr, undone_iff hnew htakes]
    exact iff_of_true ⟨⟨rfl, fun _ => not_false⟩, .refl L _⟩ (.pid (hpids.mp hfail))
  rename_i hok
  replace hok : ¬ NoPid t.kernel := fun hno => hok (hpids.mpr hno)
  generalize ((t.born a).processAllocPid a).2 = t₁ at hr htakes hmach hmallocs
  -- the code
  have hm₁ : PagingSafe L t₁.kernel.machine := by rwa [hmach]
  have hk₁ : HasTable t₁.kernel.machine (KERNEL_POS >>> 22) := by rwa [hmach]
  have hsame : AddUndone L t₁.kernel (vAddr &&& PAGE_ADDR) (addPages size vAddr) ↔
      AddUndone L t.kernel.kmalloc.2 (vAddr &&& PAGE_ADDR) (addPages size vAddr) :=
    addUndone_congr hmach hmallocs
  split at hr
  · rename_i hfail
    have hall := htakes.nothing_trans (processMemoryAdd_takes hcode hmf huser hm₁.toPagingOk hfail)
    rw [← hr, undone_iff hnew hall, and_iff_right ⟨rfl, fun _ => not_false⟩, ← hmach,
      processMemoryAdd_userPages_iff hcode hmf hma huser hm₁ hk₁ hfail, hsame]
    constructor
    · exact .memory
    · rintro (hnone | hno | hundone | hzero)
      · exact absurd hnone hrecord
      · exact absurd hno hok
      · exact hundone
      · exact hsame.mp (addUndone_empty hcode hmf hma hzero hfail)
  rename_i hdone
  replace hdone := not_not.mp hdone
  obtain ⟨f, hrun, hpaging, hempty⟩ := processMemoryAdd_code rfl hmf hma huser hm₁.toPagingOk hdone
  have hkept := not_addUndone_of_ok hcode hmf hma hdone
  rw [hsame] at hkept
  generalize (t₁.processMemoryAdd L a size vAddr (PAGE_PRESENT ||| PAGE_WRITE |||
    PAGE_USER_SUPERVISOR) (PROC_MEM_ADD_IMEDIATE ||| PROC_MEM_ADD_CODE)).2 = t₂
    at hr hrun hpaging hempty
  -- the stack
  split at hr
  · rename_i hfail
    have hone : addPages 4096 (KERNEL_POS - 4096) = 1 := by decide +kernel
    have hbelow : ((KERNEL_POS - 4096) &&& PAGE_ADDR) + addPages 4096 (KERNEL_POS - 4096) * 4096 ≤
        KERNEL_POS := by decide +kernel
    have hall := (htakes.nothing_trans hrun).trans
      (processMemoryAdd_takes hstk hmf hbelow hpaging hfail)
    rw [← hr, undone_iff hnew hall]
    constructor
    · rintro ⟨⟨-, hF⟩, -⟩
      refine .empty (Nat.eq_zero_of_not_pos fun hpos => hF f (.inl ?_))
      exact ⟨Nat.le_refl f, Nat.lt_add_of_pos_right hpos⟩
    · rintro (hnone | hno | hundone | hzero)
      · exact absurd hnone hrecord
      · exact absurd hno hok
      · exact absurd hundone hkept
      · obtain ⟨hdir, hpages⟩ := hempty hzero
        have hm₂ : PagingSafe L t₂.kernel.machine := hm₁.of_paging hpaging fun d _ => congrFun hdir d
        have hk₂ : HasTable t₂.kernel.machine (KERNEL_POS >>> 22) :=
          (hasTable_congr (congrFun hdir _)).mpr hk₁
        have hback := (processMemoryAdd_userPages_iff hstk hmf hma hbelow hm₂ hk₂ hfail).mpr
          (addUndone_one hstk hmf hma hone hfail)
        rw [hmach] at hpages
        refine ⟨⟨rfl, fun g hg => ?_⟩, hpages.trans hback⟩
        rcases hg with hg | hg
        · omega
        · exact hg
  · rw [← hr] at h
    cases h

end ini

end Moonlight
