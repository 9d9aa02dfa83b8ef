import MoonlightKernel.MapLimits
import MoonlightKernel.Process.MemorySwitch

/-!
# `process_memory_add`

A new map gets a run of frames, which are cleared, and with `PROC_MEM_ADD_IMEDIATE` its pages are
mapped at once.  The function asks `page_get_phys` about the first page of the range only, and then
maps them all, over whatever is there.

* `physBzero_spec`, `processMemoryAdd_spec` — the new map is backed by fresh frames of zeros;
* `AddRefused`, `processMemoryAdd_cases` — when the call gives up before it has frames;
* `processMemoryAdd_ok_iff` — when an immediate call succeeds, told from the state before it;
* `add_steals_nothing_iff` — when a successful call has mapped over no present page.
-/

set_option autoImplicit false

namespace Moonlight

open Sys Sys.Bitmap

/-! ## Zeroed frames -/

/-- **`phys_bzero`** clears the frames and changes nothing else but the window. -/
theorem physBzero_spec (L : Layout) (n : Nat) : ∀ {p : Nat} {m : Machine}, p + n < 2 ^ 20 →
    L.kernelFrame < p →
    ∃ m', physBzero L (p * 4096) n m = (0, m') ∧ m'.pageDirectory = m.pageDirectory ∧
      m'.mmBitmap = m.mmBitmap ∧ (∀ f, p ≤ f → f < p + n → ∀ i, m'.ram f i = 0) ∧
      ∀ f, f ≠ L.kernelFrame → (f < p ∨ p + n ≤ f) → m'.ram f = m.ram f := by
  induction n with
  | zero =>
    intro p m _ _
    exact ⟨m, rfl, rfl, rfl, fun f h1 h2 => by omega, fun _ _ _ => rfl⟩
  | succ n ih =>
    intro p m hp hk
    have hnext : add32 (p * 4096) 4096 = (p + 1) * 4096 := by
      rw [add32_of_lt (by omega), Nat.succ_mul]
    rw [physBzero, accessTable_pageSwap]
    simp only [ne_eq, not_true_eq_false, ↓reduceIte]
    rw [windowFrame_swapTo L (by omega), hnext]
    obtain ⟨m', hm', hdir, hbm, hzero, hother⟩ := ih (p := p + 1)
      (m := (m.swapTo L p).writeFrame p fun _ => 0) (by omega) (by omega)
    refine ⟨m', hm', hdir, hbm, fun f h1 h2 i => ?_, fun f hfk hf => ?_⟩
    · by_cases hfp : f = p
      · rw [hfp, hother p (by omega) (.inl (by omega))]
        simp [Machine.writeFrame]
      · exact hzero f (by omega) (by omega) i
    · rw [hother f hfk (by omega)]
      funext i
      have hne : f ≠ p := by omega
      simp [Machine.writeFrame, hne, ram_swapTo, hfk]

/-! ## Getting started -/

/-- The number of pages that `process_memory_add` makes of `size` bytes at `vAddr`. -/
def addPages (size vAddr : Nat) : Nat :=
  let size := add32 size (vAddr - (vAddr &&& PAGE_ADDR))
  if size % 4096 ≠ 0 then (size >>> 12) + 1 else size >>> 12

/-- The call for `n` pages at `a` gives up before it has frames. -/
inductive AddRefused (L : Layout) (k : Kernel) (a n : Nat) : Prop
  | present (h : (pageGetPhys L a k.machine).1 ≠ 0)
  | record (h : k.kmallocs 0 = none)
  | frames (h : (getPhysBlock n k.machine.mmBitmap).1 = 0)

theorem addRefused_iff {L : Layout} {k : Kernel} {a n : Nat} : AddRefused L k a n ↔
    (pageGetPhys L a k.machine).1 ≠ 0 ∨ k.kmallocs 0 = none ∨
      (getPhysBlock n k.machine.mmBitmap).1 = 0 := by
  constructor
  · rintro (h | h | h)
    · exact .inl h
    · exact .inr (.inl h)
    · exact .inr (.inr h)
  · rintro (h | h | h)
    · exact .present h
    · exact .record h
    · exact .frames h

/-- The call has a record and the `n` frames from `f` on, and goes on in the state `k'`. -/
structure AddStarted (k : Kernel) (n f : Nat) (k' : Kernel) : Prop where
  lo : 1272 ≤ f
  hi : f + n < 2 ^ 20
  free : ∀ q, f ≤ q → q < f + n → isFree k.machine.mmBitmap q = true
  got : getPhysBlock n k.machine.mmBitmap = (f * 4096, clearRun f n k.machine.mmBitmap)
  dir : k'.machine.pageDirectory = k.machine.pageDirectory
  bitmap : k'.machine.mmBitmap = clearRun f n k.machine.mmBitmap
  proc : k'.proc = k.proc

/-- **`process_memory_add`** is refused and leaves the processes alone, or has frames to fill. -/
theorem processMemoryAdd_cases (L : Layout) (p size vAddr pflags : Nat) (k : Kernel)
    {mflags : Nat} (hmf : mflags &&& PAGE_PRESENT ≠ 0) :
    (AddRefused L k (vAddr &&& PAGE_ADDR) (addPages size vAddr) ∧
        (processMemoryAdd L p size vAddr mflags pflags k).1 = -ENOMEM ∧
        (processMemoryAdd L p size vAddr mflags pflags k).2.proc = k.proc) ∨
      (¬ AddRefused L k (vAddr &&& PAGE_ADDR) (addPages size vAddr) ∧
        ∃ f k', AddStarted k (addPages size vAddr) f k' ∧
          processMemoryAdd L p size vAddr mflags pflags k = processMemoryFill L p
            ⟨vAddr &&& PAGE_ADDR, f * 4096, addPages size vAddr, mflags⟩ pflags k') := by
  unfold addPages processMemoryAdd
  dsimp only
  generalize (if add32 size (vAddr - (vAddr &&& PAGE_ADDR)) % 4096 ≠ 0 then _ else _ : Nat) = n
  generalize vAddr &&& PAGE_ADDR = a
  by_cases hphys : (pageGetPhys L a k.machine).1 = 0
  · rw [if_neg (not_not.mpr hphys), if_neg hmf]
    obtain ⟨hdir, hbm⟩ := pageGetPhys_keeps L a k.machine
    cases hmalloc : (k.setMachine (pageGetPhys L a k.machine).2).kmalloc with
    | mk rec k₁ =>
      obtain ⟨hrec, rfl⟩ := Kernel.kmalloc_eq hmalloc
      cases rec with
      | none => exact .inl ⟨.record hrec, rfl, rfl⟩
      | some rec =>
        have hmach : (k.setMachine (pageGetPhys L a k.machine).2).kmalloc.2.machine =
            (pageGetPhys L a k.machine).2 := rfl
        dsimp only
        rw [hmach, hbm]
        rcases getPhysBlock_spec n k.machine.mmBitmap with hg | ⟨f, hg, hlo, hhi, hfree⟩
        · rw [hg, if_pos rfl]
          exact .inl ⟨.frames (by rw [hg]), rfl, rfl⟩
        · rw [hg, if_neg (by dsimp only; omega)]
          refine .inr ⟨?_, f, _, ?_, rfl⟩
          · rintro (h | h | h)
            · exact h hphys
            · exact absurd (hrec.symm.trans h) (by simp)
            · rw [hg] at h
              dsimp only at h
              omega
          · exact ⟨hlo, hhi, hfree, hg, hdir, rfl, rfl⟩
  · rw [if_pos hphys]
    exact .inl ⟨.present hphys, rfl, rfl⟩

/-! ## `process_memory_add` to the heap -/

theorem pageMapLoop_error {L : Layout} {pa va flag : Nat} (hflag : flag &&& PAGE_PRESENT ≠ 0)
    (n : Nat) : ∀ (i : Nat) (m : Machine), (pageMapLoop L pa va flag n i m).1 ≤ 0 := by
  induction n with
  | zero => intro i m; exact Int.le_refl 0
  | succ n ih =>
    intro i m
    rw [pageMapLoop]
    split
    · rcases pageMap_spec L (add32 pa (i <<< 12)) (add32 va (i <<< 12)) m hflag
        with he | ⟨-, he⟩ | ⟨-, -, -, t, m₁, -, he⟩
      · rw [he]
        exact Int.negSucc_le_zero 21
      · rw [he]
        exact Int.negSucc_le_zero 11
      · exact Int.le_of_eq (congrArg Prod.fst he)
    · exact ih _ _

/-- The error codes of `page_map_range` are negative. -/
theorem pageMapRange_error (L : Layout) (pa va n : Nat) {flag : Nat}
    (hflag : flag &&& PAGE_PRESENT ≠ 0) (m : Machine) : (pageMapRange L pa va flag n m).1 ≤ 0 := by
  unfold pageMapRange
  dsimp only
  split
  · exact pageMapLoop_error hflag n 0 m
  · exact Int.le_refl 0

/-- What `k'` is after a map has been added to the heap of `p`. -/
structure MapAdded (L : Layout) (p pflags : Nat) (pm : MapMemory) (k k' : Kernel) : Prop where
  proc : k'.proc p = { k.proc p with mmHeap := pm :: (k.proc p).mmHeap }
  aligned : pm.pAddr % 4096 = 0
  fresh : ∀ i < pm.size, isFree k.machine.mmBitmap (pm.frame i) = true ∧
    isFree k'.machine.mmBitmap (pm.frame i) = false
  zero : ∀ i < pm.size, ∀ j, k'.machine.ram (pm.frame i) j = 0
  mapped : pflags &&& PROC_MEM_ADD_IMEDIATE ≠ 0 → ∀ i < pm.size,
    TranslatesTo L k'.machine (pm.page i) (pm.frame i * 4096)

section fill

variable {L : Layout} {p pflags f a n mflags : Nat} {k : Kernel}

theorem user_pageDir (ha : a + n * 4096 ≤ KERNEL_POS) {w : Nat} (hw : InPages a n w) :
    PageDir (dirIndex w) := by
  unfold InPages at hw
  unfold KERNEL_POS at ha
  have hlt : dirIndex w < 768 := by
    rw [dirIndex_eq]
    omega
  exact ⟨by omega, by unfold KERNEL_POS; omega⟩

/-- Frames that have been taken from the allocator are not touched by the mapping of them. -/
theorem mapped_frames {m m₁ : Machine} (hm : PagingOk L m)
    (hfree : ∀ q, f ≤ q → q < f + n → isFree m.mmBitmap q = true)
    (hdir : m₁.pageDirectory = m.pageDirectory) (hbm : m₁.mmBitmap = clearRun f n m.mmBitmap)
    (hf : L.kernelFrame < f) (ha : a + n * 4096 ≤ KERNEL_POS) {q : Nat} (hq : f ≤ q ∧ q < f + n) :
    isFree (pageMapRange L (f * 4096) a mflags n m₁).2.mmBitmap q = false ∧
      (pageMapRange L (f * 4096) a mflags n m₁).2.ram q = m₁.ram q := by
  have hm₁ : PagingOk L m₁ := (hm.taken_run f n).congr hdir hbm
  have hmoved : Moved L m₁ (pageMapRange L (f * 4096) a mflags n m₁).2 := by
    refine moved_pageMapRange hm₁ fun j hj => ?_
    have hlt : a + j * 4096 < 2 ^ 32 := by
      unfold KERNEL_POS at ha
      omega
    rw [shiftLeft_page, add32_of_lt hlt]
    exact user_pageDir ha (by unfold InPages; omega)
  have hno : ¬ Avail m₁ q := by
    rintro (hfr | ⟨d, hd, ht, hteq⟩)
    · rw [hbm, isFree, isSet_clearRun, decide_eq_true hq] at hfr
      simp at hfr
    · have hdd := congrFun hdir d
      have htaken := hm.taken d hd ((hasTable_congr hdd).mp ht)
      rw [← tableFrame_congr hdd, hteq, hfree q hq.1 hq.2] at htaken
      cases htaken
  refine ⟨?_, hmoved.ram q (by omega) hno⟩
  rw [← Bool.not_eq_true]
  exact fun hfr => hno ((hmoved.avail q).mp (.inl hfr))

theorem addMap_heap (pm : MapMemory) (pr : Process) :
    pr.addMap PROC_MEM_ADD_HEAP pm = some { pr with mmHeap := pm :: pr.mmHeap } := rfl

/-- The record is added once its frames are taken and cleared. -/
theorem mapAdded_of {k₀ : Kernel} {m₂ : Machine} (hproc : k.proc = k₀.proc)
    (hfree : ∀ q, f ≤ q → q < f + n → isFree k₀.machine.mmBitmap q = true)
    (htaken : ∀ q, f ≤ q ∧ q < f + n → isFree m₂.mmBitmap q = false)
    (hzero : ∀ q, f ≤ q ∧ q < f + n → ∀ j, m₂.ram q j = 0)
    (hmapped : pflags &&& PROC_MEM_ADD_IMEDIATE ≠ 0 → ∀ i < n,
      TranslatesTo L m₂ (a + i * 4096) ((f + i) * 4096)) :
    MapAdded L p pflags ⟨a, f * 4096, n, mflags⟩ k₀ ((k.setMachine m₂).modify p fun _ =>
      { k.proc p with mmHeap := ⟨a, f * 4096, n, mflags⟩ :: (k.proc p).mmHeap }) := by
  have hframe (i : Nat) : MapMemory.frame ⟨a, f * 4096, n, mflags⟩ i = f + i := by
    unfold MapMemory.frame
    rw [Nat.mul_div_cancel _ (by decide)]
  have hmem {i : Nat} (hi : i < n) : f ≤ f + i ∧ f + i < f + n := by omega
  refine ⟨?_, Nat.mul_mod_left f 4096, fun i hi => ?_, fun i hi j => ?_, fun himm i hi => ?_⟩
  · rw [Kernel.modify_proc_self, hproc]
  · rw [hframe]
    exact ⟨hfree _ (hmem hi).1 (hmem hi).2, htaken _ (hmem hi)⟩
  · rw [hframe]
    exact hzero _ (hmem hi) j
  · rw [hframe]
    exact hmapped himm i hi

/-- `process_memory_add` once it has its frames. -/
theorem processMemoryFill_spec (hpf : pflags = PROC_MEM_ADD_HEAP ∨
      pflags = PROC_MEM_ADD_HEAP ||| PROC_MEM_ADD_IMEDIATE) (hmf : mflags &&& PAGE_PRESENT ≠ 0)
    (ha : a + n * 4096 ≤ KERNEL_POS) {k₀ : Kernel} (h : AddStarted k₀ n f k)
    (hm : pflags &&& PROC_MEM_ADD_IMEDIATE ≠ 0 → PagingOk L k₀.machine) :
    ((processMemoryFill L p ⟨a, f * 4096, n, mflags⟩ pflags k).1 < 0 ∧
      (processMemoryFill L p ⟨a, f * 4096, n, mflags⟩ pflags k).2.proc = k₀.proc) ∨
    ((processMemoryFill L p ⟨a, f * 4096, n, mflags⟩ pflags k).1 = 0 ∧
      MapAdded L p pflags ⟨a, f * 4096, n, mflags⟩ k₀
        (processMemoryFill L p ⟨a, f * 4096, n, mflags⟩ pflags k).2) := by
  have hlo := h.lo
  have hhi := h.hi
  have hkf : L.kernelFrame < f := Nat.lt_of_lt_of_le L.kernelFrame_lt (by omega)
  obtain ⟨m₁, hzeroed, hdir, hbm₁, hzero, -⟩ := physBzero_spec L n (m := k.machine) hhi hkf
  rw [h.dir] at hdir
  rw [h.bitmap] at hbm₁
  unfold processMemoryFill
  dsimp only
  rw [hzeroed]
  simp only [ne_eq, not_true_eq_false, ↓reduceIte]
  rcases hpf with rfl | rfl
  · -- the pages are mapped later, by `process_memory_switch`
    have himm : PROC_MEM_ADD_HEAP &&& PROC_MEM_ADD_IMEDIATE = 0 := by decide
    have htaken : ∀ q, f ≤ q ∧ q < f + n → isFree m₁.mmBitmap q = false := fun q hq => by
      rw [hbm₁]
      rw [isFree, isSet_clearRun, decide_eq_true hq, Bool.not_true, Bool.and_false]
    simp only [himm, not_true_eq_false, ↓reduceIte, addMap_heap]
    exact .inr ⟨trivial, mapAdded_of h.proc h.free htaken (fun q hq => hzero q hq.1 hq.2)
      fun h => absurd himm h⟩
  · have himm : (PROC_MEM_ADD_HEAP ||| PROC_MEM_ADD_IMEDIATE) &&& PROC_MEM_ADD_IMEDIATE ≠ 0 := by
      decide
    have hclear : (PROC_MEM_ADD_HEAP ||| PROC_MEM_ADD_IMEDIATE) - PROC_MEM_ADD_IMEDIATE =
        PROC_MEM_ADD_HEAP := by decide
    have hm := hm himm
    simp only [himm, hclear, not_false_eq_true, ↓reduceIte, addMap_heap]
    by_cases hok : (pageMapRange L (f * 4096) a mflags n m₁).1 = 0
    · simp only [hok, not_true_eq_false, ↓reduceIte]
      have hkeep (q : Nat) (hq : f ≤ q ∧ q < f + n) :
          isFree (pageMapRange L (f * 4096) a mflags n m₁).2.mmBitmap q = false ∧
            (pageMapRange L (f * 4096) a mflags n m₁).2.ram q = m₁.ram q :=
        mapped_frames hm h.free hdir hbm₁ hkf ha hq
      have hmap := pageMapRange_mapped ((hm.taken_run f n).congr hdir hbm₁) hmf
        (fun w hw => user_pageDir ha hw) (eq_of_fst_eq_zero hok)
      refine .inr ⟨trivial, mapAdded_of h.proc h.free (fun q hq => (hkeep q hq).1) (fun q hq j => ?_)
        fun _ i hi => ?_⟩
      · rw [(hkeep q hq).2]
        exact hzero q hq.1 hq.2 j
      · have hview := hmap.view i hi
        rw [add32_of_lt (by omega), ← Nat.add_mul] at hview
        exact translatesTo_of_view hview
    · simp only [hok, not_false_eq_true, ↓reduceIte]
      have herr := pageMapRange_error L (f * 4096) a n hmf m₁
      exact .inl ⟨by omega, h.proc⟩

/-- The rounding of `process_memory_add` leaves whole pages alone. -/
theorem whole_pages (hmod : a % 4096 = 0) (ha : a < 2 ^ 32) (hn : n < 2 ^ 20) :
    a &&& PAGE_ADDR = a ∧ add32 (n * 4096) (a - a) = n * 4096 ∧ n * 4096 % 4096 = 0 ∧
      (n * 4096) >>> 12 = n := by
  refine ⟨?_, ?_, Nat.mul_mod_left n 4096, ?_⟩
  · refine (PAGE_GET_ADDR_eq a).trans ?_
    omega
  · rw [Nat.sub_self, add32_of_lt (by omega), Nat.add_zero]
  · rw [shiftRight_page, Nat.mul_div_cancel _ (by decide)]

theorem addPages_whole (hmod : a % 4096 = 0) (ha : a < 2 ^ 32) (hn : n < 2 ^ 20) :
    addPages (n * 4096) a = n := by
  obtain ⟨ha', hsize, hwhole, hpages⟩ := whole_pages hmod ha hn
  unfold addPages
  dsimp only
  rw [ha', hsize, if_neg (not_not.mpr hwhole), hpages]

/-- Whole pages below the kernel. -/
theorem user_pages (ha : a + n * 4096 ≤ KERNEL_POS) : a < 2 ^ 32 ∧ n < 2 ^ 20 := by
  unfold KERNEL_POS at ha
  omega

/-- The map of another process is added without a look at its pages. -/
theorem processMemoryFill_later {k₀ : Kernel} (h : AddStarted k₀ n f k) :
    (processMemoryFill L p ⟨a, f * 4096, n, mflags⟩ PROC_MEM_ADD_HEAP k).1 = 0 ∧
      (processMemoryFill L p ⟨a, f * 4096, n, mflags⟩ PROC_MEM_ADD_HEAP k).2.proc p =
        { k₀.proc p with mmHeap := ⟨a, f * 4096, n, mflags⟩ :: (k₀.proc p).mmHeap } := by
  have hlo := h.lo
  have hkf : L.kernelFrame < f := Nat.lt_of_lt_of_le L.kernelFrame_lt (by omega)
  obtain ⟨m₁, hzeroed, -⟩ := physBzero_spec L n (m := k.machine) h.hi hkf
  have himm : PROC_MEM_ADD_HEAP &&& PROC_MEM_ADD_IMEDIATE = 0 := by decide
  unfold processMemoryFill
  dsimp only
  rw [hzeroed]
  simp only [himm, ne_eq, not_true_eq_false, ↓reduceIte, addMap_heap, true_and]
  rw [Kernel.modify_proc_self, h.proc]

/-- The error codes are negative. -/
theorem processMemoryAdd_le (L : Layout) (p size vAddr : Nat) (k : Kernel)
    (hpf : pflags = PROC_MEM_ADD_HEAP ∨ pflags = PROC_MEM_ADD_HEAP ||| PROC_MEM_ADD_IMEDIATE)
    (hmf : mflags &&& PAGE_PRESENT ≠ 0) :
    (processMemoryAdd L p size vAddr mflags pflags k).1 ≤ 0 := by
  rcases processMemoryAdd_cases L p size vAddr pflags k hmf with ⟨-, herr, -⟩ |
    ⟨-, f, k', hstart, hr⟩
  · rw [herr]
    decide
  rw [hr]
  rcases hpf with rfl | rfl
  · exact Int.le_of_eq (processMemoryFill_later hstart).1
  · have hlo := hstart.lo
    have hkf : L.kernelFrame < f := Nat.lt_of_lt_of_le L.kernelFrame_lt (by omega)
    obtain ⟨m₁, hzeroed, -⟩ := physBzero_spec L (addPages size vAddr) (m := k'.machine) hstart.hi hkf
    have himm : (PROC_MEM_ADD_HEAP ||| PROC_MEM_ADD_IMEDIATE) &&& PROC_MEM_ADD_IMEDIATE ≠ 0 := by
      decide
    have hclear : (PROC_MEM_ADD_HEAP ||| PROC_MEM_ADD_IMEDIATE) - PROC_MEM_ADD_IMEDIATE =
        PROC_MEM_ADD_HEAP := by decide
    unfold processMemoryFill
    dsimp only
    rw [hzeroed]
    simp only [himm, hclear, ne_eq, not_false_eq_true, not_true_eq_false, ↓reduceIte, addMap_heap]
    split
    · exact pageMapRange_error L _ _ _ hmf m₁
    · exact Int.le_refl 0

/-- **`process_memory_add`** of whole pages in user space: an error that leaves the processes
alone, or a new map. -/
theorem processMemoryAdd_spec (hpf : pflags = PROC_MEM_ADD_HEAP ∨
      pflags = PROC_MEM_ADD_HEAP ||| PROC_MEM_ADD_IMEDIATE) (hmf : mflags &&& PAGE_PRESENT ≠ 0)
    (hmod : a % 4096 = 0) (ha : a + n * 4096 ≤ KERNEL_POS)
    (hm : pflags &&& PROC_MEM_ADD_IMEDIATE ≠ 0 → PagingOk L k.machine) :
    ((processMemoryAdd L p (n * 4096) a mflags pflags k).1 < 0 ∧
      (processMemoryAdd L p (n * 4096) a mflags pflags k).2.proc = k.proc) ∨
    ((processMemoryAdd L p (n * 4096) a mflags pflags k).1 = 0 ∧
      ∃ f, MapAdded L p pflags ⟨a, f * 4096, n, mflags⟩ k
        (processMemoryAdd L p (n * 4096) a mflags pflags k).2) := by
  obtain ⟨hlt, hn⟩ := user_pages ha
  obtain ⟨ha', -, -, -⟩ := whole_pages hmod hlt hn
  have hcases := processMemoryAdd_cases L p (n * 4096) a pflags k hmf
  rw [ha', addPages_whole hmod hlt hn] at hcases
  rcases hcases with ⟨-, herr, hproc⟩ | ⟨-, f, k', hstart, hr⟩
  · exact .inl ⟨by rw [herr]; decide, hproc⟩
  · rw [hr]
    exact (processMemoryFill_spec hpf hmf ha hstart hm).imp (fun h => h) fun h => ⟨h.1, f, h.2⟩

end fill

/-! ## Mapping over present pages -/

/-- The flags of an immediate call. -/
def Immediate (pflags : Nat) : Prop :=
  pflags = PROC_MEM_ADD_HEAP ||| PROC_MEM_ADD_IMEDIATE ∨
    pflags = PROC_MEM_ADD_STACK ||| PROC_MEM_ADD_IMEDIATE ∨
    pflags = PROC_MEM_ADD_CODE ||| PROC_MEM_ADD_IMEDIATE

section add

variable {L : Layout} {p size vAddr mflags pflags : Nat} {k : Kernel}

theorem RunFits.congr {m m' : Machine} {va i n : Nat} (h : RunFits m va i n)
    (hdir : m'.pageDirectory = m.pageDirectory) (hbm : m'.mmBitmap = m.mmBitmap) :
    RunFits m' va i n := by
  have hmissing : missing m' va i n = missing m va i n := by
    unfold missing
    rw [hdir]
  exact ⟨fun j h1 h2 => by rw [hdir]; exact h.small j h1 h2, by rw [hmissing, hbm]; exact h.frames⟩

theorem pageMapRange_ok_iff (L : Layout) (pa va flag n : Nat) (m : Machine) :
    (pageMapRange L pa va flag n m).1 = 0 ↔ (pageMapLoop L pa va flag n 0 m).1 = 0 := by
  unfold pageMapRange
  dsimp only
  split
  · exact Iff.rfl
  · rename_i hok
    exact iff_of_true rfl (not_not.mp hok)

/-- What an immediate call does with its frames. -/
theorem processMemoryFill_now {a n f : Nat} {k' : Kernel} (himm : Immediate pflags)
    (ha : a % 4096 = 0) (hmf : mflags &&& PAGE_PRESENT ≠ 0) (hma : mflags &&& PAGE_ADDR = 0)
    (h : AddStarted k n f k') :
    (processMemoryFill L p ⟨a, f * 4096, n, mflags⟩ pflags k').1 = 0 ↔
      RunFits (k.machine.setBitmap (getPhysBlock n k.machine.mmBitmap).2) a 0 n := by
  have hlo := h.lo
  have hkf : L.kernelFrame < f := Nat.lt_of_lt_of_le L.kernelFrame_lt (by omega)
  obtain ⟨m₁, hzeroed, hdir, hbm, -, -⟩ := physBzero_spec L n (m := k'.machine) h.hi hkf
  have hfits : RunFits m₁ a 0 n ↔
      RunFits (k.machine.setBitmap (getPhysBlock n k.machine.mmBitmap).2) a 0 n := by
    have hdir' : m₁.pageDirectory = k.machine.pageDirectory := hdir.trans h.dir
    have hbm' : m₁.mmBitmap = (getPhysBlock n k.machine.mmBitmap).2 := by
      rw [hbm, h.bitmap, h.got]
    exact ⟨fun hf => hf.congr hdir'.symm hbm'.symm, fun hf => hf.congr hdir' hbm'⟩
  have hmap : (pageMapRange L (f * 4096) a mflags n m₁).1 = 0 ↔ RunFits m₁ a 0 n :=
    (pageMapRange_ok_iff L _ a mflags n m₁).trans
      (pageMapLoop_ok_iff (Nat.mul_mod_left f 4096) ha hma hmf n 0 m₁)
  have hbit : pflags &&& PROC_MEM_ADD_IMEDIATE ≠ 0 := by
    rcases himm with rfl | rfl | rfl <;> decide
  have hadd : ∃ pr, (k'.proc p).addMap (pflags - PROC_MEM_ADD_IMEDIATE) ⟨a, f * 4096, n, mflags⟩ =
      some pr := by
    rcases himm with rfl | rfl | rfl <;> exact ⟨_, rfl⟩
  obtain ⟨pr, hpr⟩ := hadd
  rw [← hfits, ← hmap]
  unfold processMemoryFill
  dsimp only
  rw [hzeroed, if_neg (not_not.mpr rfl), if_pos hbit, if_pos hbit, hpr]
  dsimp only
  split
  · exact Iff.rfl
  · rename_i hok
    exact iff_of_true rfl (not_not.mp hok)

/-- **When an immediate call succeeds.** -/
theorem processMemoryAdd_ok_iff (himm : Immediate pflags) (hmf : mflags &&& PAGE_PRESENT ≠ 0)
    (hma : mflags &&& PAGE_ADDR = 0) :
    (processMemoryAdd L p size vAddr mflags pflags k).1 = 0 ↔
      ¬ AddRefused L k (vAddr &&& PAGE_ADDR) (addPages size vAddr) ∧
        RunFits (k.machine.setBitmap (getPhysBlock (addPages size vAddr) k.machine.mmBitmap).2)
          (vAddr &&& PAGE_ADDR) 0 (addPages size vAddr) := by
  have ha : (vAddr &&& PAGE_ADDR) % 4096 = 0 := by
    rw [show vAddr &&& PAGE_ADDR = PAGE_GET_ADDR vAddr from rfl, PAGE_GET_ADDR_eq]
    exact Nat.mul_mod_left _ 4096
  rcases processMemoryAdd_cases L p size vAddr pflags k hmf with ⟨href, herr, -⟩ |
    ⟨hno, f, k', hstart, hr⟩
  · rw [herr]
    exact iff_of_false (by decide) fun h => h.1 href
  · rw [hr, processMemoryFill_now himm ha hmf hma hstart]
    exact (and_iff_right hno).symm

/-- A successful call has found no page of the rounded range present. -/
def StealsNothing (L : Layout) (p size vAddr mflags pflags : Nat) (k : Kernel) : Prop :=
  (processMemoryAdd L p size vAddr mflags pflags k).1 = 0 →
    ∀ i < addPages size vAddr, ¬ Present L k.machine (runPage (vAddr &&& PAGE_ADDR) i)

/-- The test of the first page sees every page of the run that is present. -/
def TestSees (L : Layout) (m : Machine) (a n : Nat) : Prop :=
  ∀ i < n, Present L m (runPage a i) → i = 0 ∧ (pageGetPhys L a m).1 ≠ 0

/-- **Adding memory steals no mapping** exactly when the test of the first page is enough, or the
call fails for another reason. -/
theorem add_steals_nothing_iff (L : Layout) (p size vAddr mflags pflags : Nat) (k : Kernel)
    (himm : Immediate pflags) (hmf : mflags &&& PAGE_PRESENT ≠ 0)
    (hma : mflags &&& PAGE_ADDR = 0) :
    StealsNothing L p size vAddr mflags pflags k ↔
      TestSees L k.machine (vAddr &&& PAGE_ADDR) (addPages size vAddr) ∨
        AddRefused L k (vAddr &&& PAGE_ADDR) (addPages size vAddr) ∨
        ¬ RunFits (k.machine.setBitmap (getPhysBlock (addPages size vAddr) k.machine.mmBitmap).2)
          (vAddr &&& PAGE_ADDR) 0 (addPages size vAddr) := by
  unfold StealsNothing
  rw [processMemoryAdd_ok_iff himm hmf hma]
  constructor
  · intro h
    by_contra hno
    rw [not_or, not_or, not_not] at hno
    exact hno.1 fun i hi hp => absurd hp (h hno.2 i hi)
  · rintro (hsees | href | hfits) ⟨hno, hrun⟩
    · -- a page that the test sees is a reason to refuse
      exact fun i hi hp => hno (.present (hsees i hi hp).2)
    · exact absurd href hno
    · exact absurd hrun hfits

end add

/-- The page at 1 GiB is present. -/
def Kernel.adding : Kernel :=
  { Kernel.ready with
    machine := (pageMap .sample 0x600000 0x40000000 7 Kernel.ready.machine).2
    kmallocs := fun i => some (100 + i) }

/-- A page is added elsewhere. -/
theorem one_page_steals_nothing : StealsNothing .sample 1 0x1000 0x50000000 7
    (PROC_MEM_ADD_HEAP ||| PROC_MEM_ADD_IMEDIATE) .adding := by
  refine (add_steals_nothing_iff .sample 1 0x1000 0x50000000 7 _ .adding (.inl rfl) (by decide)
    (by decide)).mpr (.inl fun i hi hp => ?_)
  have hone : addPages 0x1000 0x50000000 = 1 := by decide +kernel
  obtain rfl : i = 0 := by omega
  exact absurd hp (by decide +kernel)

/-- Two pages, the second of which is the one at 1 GiB. -/
theorem second_page_is_stolen :
    (processMemoryAdd .sample 1 0x2000 0x3FFFF000 7
        (PROC_MEM_ADD_HEAP ||| PROC_MEM_ADD_IMEDIATE) .adding).1 = 0 ∧
      Present .sample Kernel.adding.machine (runPage (0x3FFFF000 &&& PAGE_ADDR) 1) ∧
      ¬ StealsNothing .sample 1 0x2000 0x3FFFF000 7
        (PROC_MEM_ADD_HEAP ||| PROC_MEM_ADD_IMEDIATE) .adding := by
  have hok : (processMemoryAdd .sample 1 0x2000 0x3FFFF000 7
      (PROC_MEM_ADD_HEAP ||| PROC_MEM_ADD_IMEDIATE) .adding).1 = 0 := by decide +kernel
  have hpresent : Present .sample Kernel.adding.machine (runPage (0x3FFFF000 &&& PAGE_ADDR) 1) := by
    decide +kernel
  exact ⟨hok, hpresent, fun h => h hok 1 (by decide +kernel) hpresent⟩

end Moonlight
