import Mathlib.Data.List.Forall2
import MoonlightKernel.Process.Maps

/-!
# Copying the maps of a process

`process_copy_mem_block` takes a fresh run of frames for a map and copies the old one into it
through the windows `page_swap` and `page_swap2`.  Every pass of its loop shows the first frame
of each run, so only the first page is copied.

* `copyLoop_spec` — what the passes do to memory;
* `processCopyMemBlock_copyStep` — one map: `CopyStep`, away from the frames the kernel scratches
  for its windows and its stack;
* `Copied` — several maps in a row, with what follows for the frames and for the contents.
-/

set_option autoImplicit false

namespace Moonlight

open Sys Sys.Bitmap

/-! ## The windows -/

theorem windowIndex_ne (L : Layout) : windowIndex L.pageSwap ≠ windowIndex L.pageSwap2 := by
  have h1 := L.pageSwap_mem
  have h2 := L.pageSwap2_mem
  obtain ⟨-, h3, h4⟩ := L.aligned
  have hne := L.swap_ne
  rw [windowIndex, windowIndex, shiftRight_page, shiftRight_page, KERNEL_GET_REAL,
    KERNEL_GET_REAL, KERNEL_POS]
  omega

/-- The state in which `page_swap2` shows the frame `f`. -/
def Machine.swap2To (L : Layout) (m : Machine) (f : Nat) : Machine :=
  m.write L.kernelFrame (windowIndex L.pageSwap2) (f * 4096 ||| (PAGE_WRITE ||| PAGE_PRESENT))

theorem accessTable_pageSwap2 (L : Layout) (f : Nat) (m : Machine) :
    accessTableWithPhysical L L.pageSwap2 (f * 4096) m = (0, m.swap2To L f) :=
  accessTable_window L.pageSwap2_mem f m

/-- The frame in a page-table word. -/
theorem frame_of_word {f flag : Nat} (hf : f < 2 ^ 20) (hflag : flag &&& PAGE_ADDR = 0) :
    PAGE_GET_ADDR (f * 4096 ||| flag) >>> 12 = f := by
  rw [PAGE_GET_ADDR_or hflag, PAGE_GET_ADDR_eq, shiftRight_page]
  omega

/-- One pass of the copy loop. -/
def copyPass (L : Layout) (D S : Nat) (m : Machine) : Machine :=
  copyWindow L ((m.swapTo L D).swap2To L S)

/-- `m'` is `m` up to the contents of some frames. -/
structure AgreeOff (scratch : Nat → Prop) (m m' : Machine) : Prop where
  bitmap : m'.mmBitmap = m.mmBitmap
  dir : m'.pageDirectory = m.pageDirectory
  ram : ∀ f, ¬ scratch f → m'.ram f = m.ram f

namespace AgreeOff

variable {scratch : Nat → Prop} {m m₁ m₂ : Machine}

theorem refl (m : Machine) : AgreeOff scratch m m := ⟨rfl, rfl, fun _ _ => rfl⟩

theorem trans (h₁ : AgreeOff scratch m m₁) (h₂ : AgreeOff scratch m₁ m₂) :
    AgreeOff scratch m m₂ :=
  ⟨h₂.bitmap.trans h₁.bitmap, h₂.dir.trans h₁.dir,
    fun f hf => (h₂.ram f hf).trans (h₁.ram f hf)⟩

theorem write (m : Machine) {f : Nat} (h : scratch f) (i w : Nat) :
    AgreeOff scratch m (m.write f i w) := by
  refine ⟨rfl, rfl, fun g hg => ?_⟩
  have hne : g ≠ f := by rintro rfl; exact hg h
  funext j
  simp only [Machine.write, hne, false_and, ↓reduceIte]

theorem swapTo {L : Layout} (h : scratch L.kernelFrame) (f : Nat) :
    AgreeOff scratch m (m.swapTo L f) := write m h _ _

theorem swap2To {L : Layout} (h : scratch L.kernelFrame) (f : Nat) :
    AgreeOff scratch m (m.swap2To L f) := write m h _ _

end AgreeOff

section loop

variable {L : Layout} {D S : Nat}

theorem copyPass_eq (hD : D < 2 ^ 20) (hS : S < 2 ^ 20) (hSk : S ≠ L.kernelFrame) (m : Machine) :
    (copyPass L D S m).mmBitmap = m.mmBitmap ∧
      (copyPass L D S m).pageDirectory = m.pageDirectory ∧
      ∀ f, f ≠ L.kernelFrame → (copyPass L D S m).ram f = if f = D then m.ram S else m.ram f := by
  have hdst : windowFrame L L.pageSwap ((m.swapTo L D).swap2To L S) = D := by
    unfold windowFrame Machine.swap2To Machine.swapTo Machine.write
    simp only [true_and, windowIndex_ne L, ↓reduceIte]
    exact frame_of_word hD (by decide)
  have hsrc : windowFrame L L.pageSwap2 ((m.swapTo L D).swap2To L S) = S := by
    unfold windowFrame Machine.swap2To Machine.write
    simp only [true_and, ↓reduceIte]
    exact frame_of_word hS (by decide)
  have hoff : AgreeOff (Eq L.kernelFrame) m ((m.swapTo L D).swap2To L S) :=
    (AgreeOff.swapTo rfl D).trans (AgreeOff.swap2To rfl S)
  refine ⟨rfl, rfl, fun f hf => ?_⟩
  unfold copyPass copyWindow
  rw [hdst, hsrc]
  funext j
  simp only [Machine.writeFrame]
  split
  · exact congrFun (hoff.ram S hSk.symm) j
  · exact congrFun (hoff.ram f hf.symm) j

/-- **The copy loop writes the first frame only**, however many passes it makes. -/
theorem copyLoop_spec (hD : D < 2 ^ 20) (hS : S < 2 ^ 20) (hSk : S ≠ L.kernelFrame)
    (n : Nat) (m : Machine) :
    (copyLoop L (D * 4096) (S * 4096) n m).mmBitmap = m.mmBitmap ∧
      (copyLoop L (D * 4096) (S * 4096) n m).pageDirectory = m.pageDirectory ∧
      ∀ f, f ≠ L.kernelFrame → (copyLoop L (D * 4096) (S * 4096) n m).ram f =
        if f = D ∧ 0 < n then m.ram S else m.ram f := by
  induction n generalizing m with
  | zero => exact ⟨rfl, rfl, fun f _ => by rw [copyLoop, if_neg fun h => Nat.lt_irrefl 0 h.2]⟩
  | succ n ih =>
    have hstep : copyLoop L (D * 4096) (S * 4096) (n + 1) m =
        copyLoop L (D * 4096) (S * 4096) n (copyPass L D S m) := by
      rw [copyLoop]
      simp only [accessTable_pageSwap, accessTable_pageSwap2]
      rfl
    obtain ⟨h1, h2, h3⟩ := copyPass_eq hD hS hSk m
    obtain ⟨k1, k2, k3⟩ := ih (copyPass L D S m)
    rw [hstep]
    refine ⟨k1.trans h1, k2.trans h2, fun f hf => ?_⟩
    rw [k3 f hf, h3 f hf, h3 S hSk, ite_self]
    by_cases hfD : f = D <;> simp [hfD]

end loop

/-! ## One map -/

/-- The frames that the kernel writes to while it copies: `kernel_page`, with the entries of the
windows, and the page tables of the two arrays on its stack. -/
def Scratch (L : Layout) (swap swap2 : Nat) (dir : Nat → Nat) (f : Nat) : Prop :=
  f = L.kernelFrame ∨ f = dir (dirIndex swap) / 4096 % 2 ^ 20 ∨
    f = dir (dirIndex swap2) / 4096 % 2 ^ 20

/-- The two arrays lie on a stack that is mapped, by tables that are not free. -/
structure StackOk (L : Layout) (swap swap2 : Nat) (m : Machine) : Prop where
  table : HasTable m (dirIndex swap)
  table2 : HasTable m (dirIndex swap2)
  taken : ∀ f, Scratch L swap swap2 m.pageDirectory f →
    isFree m.mmBitmap f = false ∨ f = L.kernelFrame

theorem StackOk.congr {L : Layout} {swap swap2 : Nat} {m m' : Machine}
    (h : StackOk L swap swap2 m) (hdir : m'.pageDirectory = m.pageDirectory)
    (hbm : ∀ f, isFree m'.mmBitmap f = true → isFree m.mmBitmap f = true) :
    StackOk L swap swap2 m' := by
  refine ⟨(hasTable_congr (congrFun hdir _)).mpr h.table,
    (hasTable_congr (congrFun hdir _)).mpr h.table2, fun f hf => ?_⟩
  rw [hdir] at hf
  refine (h.taken f hf).imp_left fun ht => ?_
  rw [← Bool.not_eq_true] at ht ⊢
  exact fun hfree => ht (hbm f hfree)

theorem pageGetPhys_agreeOff {L : Layout} {scratch : Nat → Prop} (hk : scratch L.kernelFrame)
    (v : Nat) (m : Machine) : AgreeOff scratch m (pageGetPhys L v m).2 := by
  rw [pageGetPhys_state]
  split
  · exact AgreeOff.swapTo hk _
  · exact AgreeOff.refl m

theorem ram_pageGetPhys (L : Layout) (v : Nat) (m : Machine) {q : Nat} (hq : q ≠ L.kernelFrame) :
    (pageGetPhys L v m).2.ram q = m.ram q := by
  rw [pageGetPhys_state]
  split
  · funext i
    rw [ram_swapTo, if_neg fun h => hq h.1]
  · rfl

/-- `page_map` with a table in place, whether it succeeds or not. -/
theorem pageMap_agreeOff {L : Layout} {scratch : Nat → Prop} {pa va flag : Nat} {m : Machine}
    (hflag : flag &&& PAGE_PRESENT ≠ 0) (ht : HasTable m (dirIndex va))
    (hk : scratch L.kernelFrame) (hs : scratch (tableFrame m (dirIndex va))) :
    AgreeOff scratch m (pageMap L pa va flag m).2 := by
  rcases pageMap_spec L pa va m hflag with hr | ⟨habs, -⟩ | ⟨-, -, -, t, m₁, hopen, hr⟩
  · rw [hr]
    exact AgreeOff.refl m
  · exact absurd habs ht.1
  · rw [hr]
    rcases hopen.eq_or_fresh with ⟨-, rfl⟩ | ⟨habs, -, -⟩
    · rw [hopen.hasTable.2] at hs
      exact (AgreeOff.swapTo hk t).trans (AgreeOff.write _ hs _ _)
    · exact absurd habs ht.1

/-- What the kernel guarantees for a map that it copies. -/
structure MapMemory.Held (L : Layout) (swap swap2 : Nat) (m : Machine) (pm : MapMemory) :
    Prop where
  aligned : pm.pAddr % 4096 = 0
  frames : pm.pAddr / 4096 + pm.size ≤ 2 ^ 20
  present : pm.flags &&& PAGE_PRESENT ≠ 0
  owned : ∀ i, i < pm.size → isFree m.mmBitmap (pm.frame i) = false ∧
    ¬ Scratch L swap swap2 m.pageDirectory (pm.frame i)

/-- A map `pm` has been copied into `new`; `m'` is the state afterwards. -/
structure CopyStep (scratch : Nat → Prop) (m : Machine) (pm new : MapMemory) (m' : Machine) :
    Prop where
  new_eq : new = { pm with pAddr := (getPhysBlock pm.size m.mmBitmap).1 }
  got : (getPhysBlock pm.size m.mmBitmap).1 ≠ 0
  bitmap : m'.mmBitmap = (getPhysBlock pm.size m.mmBitmap).2
  dir : m'.pageDirectory = m.pageDirectory
  ram : ∀ f, ¬ scratch f → m'.ram f =
    if f = new.frame 0 ∧ 0 < pm.size then m.ram (pm.frame 0) else m.ram f

theorem frames_of_addr {pm : MapMemory} (h : pm.pAddr % 4096 = 0) :
    pm.pAddr = pm.frame 0 * 4096 := by
  unfold MapMemory.frame
  omega

/-- The copy loop on a map, seen away from the scratch frames. -/
theorem copyLoop_map {L : Layout} {scratch : Nat → Prop} {pm : MapMemory} {D : Nat}
    (hk : scratch L.kernelFrame) (ha : pm.pAddr % 4096 = 0) (hlt : pm.pAddr / 4096 + pm.size ≤ 2 ^ 20)
    (hown : 0 < pm.size → ¬ scratch (pm.frame 0)) (hD : D < 2 ^ 20) (m : Machine) :
    (copyLoop L (D * 4096) pm.pAddr pm.size m).mmBitmap = m.mmBitmap ∧
      (copyLoop L (D * 4096) pm.pAddr pm.size m).pageDirectory = m.pageDirectory ∧
      ∀ f, ¬ scratch f → (copyLoop L (D * 4096) pm.pAddr pm.size m).ram f =
        if f = D ∧ 0 < pm.size then m.ram (pm.frame 0) else m.ram f := by
  rcases Nat.eq_zero_or_pos pm.size with hz | hpos
  · rw [hz, copyLoop]
    exact ⟨rfl, rfl, fun f _ => by rw [if_neg fun h => Nat.lt_irrefl 0 h.2]⟩
  · have hS : pm.frame 0 < 2 ^ 20 := by unfold MapMemory.frame; omega
    obtain ⟨h1, h2, h3⟩ := copyLoop_spec hD hS (fun he => hown hpos (he ▸ hk)) pm.size m
    rw [frames_of_addr ha]
    exact ⟨h1, h2, fun f hf => h3 f fun he => hf (he ▸ hk)⟩

/-- **`process_copy_mem_block`.** -/
theorem processCopyMemBlock_copyStep {L : Layout} {swap swap2 : Nat} {pm : MapMemory} {m : Machine}
    (hstack : StackOk L swap swap2 m) (hpm : pm.Held L swap swap2 m)
    (h : ¬ (processCopyMemBlock L swap swap2 pm m).1 < 0) :
    CopyStep (Scratch L swap swap2 m.pageDirectory) m pm
      (processCopyMemBlock L swap swap2 pm m).2.1 (processCopyMemBlock L swap swap2 pm m).2.2 := by
  generalize hr : processCopyMemBlock L swap swap2 pm m = r at h ⊢
  unfold processCopyMemBlock at hr
  dsimp only at hr
  rcases getPhysBlock_spec pm.size m.mmBitmap with hg | ⟨p, hg, hlo, hhi, hfree⟩
  · rw [hg, if_pos rfl] at hr
    rw [← hr] at h
    exact absurd (show (-1 : Int) < 0 by decide) h
  have hp0 : (getPhysBlock pm.size m.mmBitmap).1 ≠ 0 := by
    rw [hg]
    dsimp only
    omega
  have hpassed : pm.size * 4096 % 2 ^ 32 / 4096 = pm.size := by omega
  rw [if_neg hp0, hpassed] at hr
  -- the state around the loop
  have hk : Scratch L swap swap2 m.pageDirectory L.kernelFrame := .inl rfl
  have hget : AgreeOff (Scratch L swap swap2 m.pageDirectory)
      (m.setBitmap (getPhysBlock pm.size m.mmBitmap).2)
      (pageGetPhys L swap2 (pageGetPhys L swap
        (m.setBitmap (getPhysBlock pm.size m.mmBitmap).2)).2).2 :=
    (pageGetPhys_agreeOff hk _ _).trans (pageGetPhys_agreeOff hk _ _)
  generalize pageGetPhys L swap2 (pageGetPhys L swap
    (m.setBitmap (getPhysBlock pm.size m.mmBitmap).2)).2 = q at hr hget
  obtain ⟨hbm, hdir, hram⟩ := copyLoop_map (D := p) hk hpm.aligned hpm.frames
    (fun hpos => (hpm.owned 0 hpos).2) (by omega) q.2
  rw [hg] at hr hget
  generalize copyLoop L (p * 4096) pm.pAddr pm.size q.2 = m₁ at hr hbm hdir hram
  replace hdir : m₁.pageDirectory = m.pageDirectory := hdir.trans hget.dir
  -- the two calls of `page_map` at the end
  have hmap₁ : AgreeOff (Scratch L swap swap2 m.pageDirectory) m₁
      (pageMap L q.1 swap pm.flags m₁).2 := by
    refine pageMap_agreeOff hpm.present ((hasTable_congr (congrFun hdir _)).mpr hstack.table) hk ?_
    rw [tableFrame_congr (congrFun hdir _)]
    exact .inr (.inl rfl)
  generalize (pageMap L q.1 swap pm.flags m₁).2 = m₂ at hr hmap₁
  have hdir₂ : m₂.pageDirectory = m.pageDirectory := hmap₁.dir.trans hdir
  have hmap₂ : AgreeOff (Scratch L swap swap2 m.pageDirectory) m₂
      (pageMap L q.1 swap2 pm.flags m₂).2 := by
    refine pageMap_agreeOff hpm.present ((hasTable_congr (congrFun hdir₂ _)).mpr hstack.table2) hk ?_
    rw [tableFrame_congr (congrFun hdir₂ _)]
    exact .inr (.inr rfl)
  have hmaps := hmap₁.trans hmap₂
  rw [← hr]
  have hnew : MapMemory.frame { pm with pAddr := p * 4096 } 0 = p := by
    unfold MapMemory.frame
    dsimp only
    omega
  refine ⟨by rw [hg], hp0, ?_, hmaps.dir.trans hdir, fun f hf => ?_⟩
  · rw [hg]
    exact hmaps.bitmap.trans (hbm.trans hget.bitmap)
  · rw [hmaps.ram f hf, hram f hf, hget.ram f hf]
    dsimp only
    rw [hnew]
    split
    · rename_i hc
      exact hget.ram _ (hpm.owned 0 hc.2).2
    · rfl

/-- The frame `f` belongs to one of the maps. -/
def HasFrame (maps : List MapMemory) (f : Nat) : Prop := ∃ pm ∈ maps, ∃ i, i < pm.size ∧ f = pm.frame i

theorem hasFrame_nil (f : Nat) : ¬ HasFrame [] f := by
  rintro ⟨pm, hpm, -⟩
  cases hpm

theorem hasFrame_cons {pm : MapMemory} {maps : List MapMemory} {f : Nat} :
    HasFrame (pm :: maps) f ↔ (∃ i, i < pm.size ∧ f = pm.frame i) ∨ HasFrame maps f := by
  simp only [HasFrame, List.mem_cons, or_and_right, exists_or, exists_eq_left]

theorem hasFrame_perm {maps maps' : List MapMemory} (h : maps.Perm maps') {f : Nat} :
    HasFrame maps f ↔ HasFrame maps' f := by
  unfold HasFrame
  simp only [h.mem_iff]

theorem backs_iff_hasFrame {maps : List MapMemory} {f : Nat} :
    (∃ v, Backs maps v f) ↔ HasFrame maps f := by
  constructor
  · rintro ⟨v, pm, hpm, i, hi, -, hf⟩
    exact ⟨pm, hpm, i, hi, hf⟩
  · rintro ⟨pm, hpm, i, hi, hf⟩
    exact ⟨pm.page i, pm, hpm, i, hi, rfl, hf⟩

/-- The copy shows at the same addresses, with the same flags and size. -/
def MapMemory.SameShape (pm new : MapMemory) : Prop :=
  new.vAddr = pm.vAddr ∧ new.flags = pm.flags ∧ new.size = pm.size

namespace CopyStep

variable {scratch : Nat → Prop} {m m' : Machine} {pm new : MapMemory}

theorem sameShape (h : CopyStep scratch m pm new m') : pm.SameShape new := by
  rw [h.new_eq]
  exact ⟨rfl, rfl, rfl⟩

theorem size_eq (h : CopyStep scratch m pm new m') : new.size = pm.size := h.sameShape.2.2

/-- The frames of the copy were free and above the kernel image. -/
theorem fresh (h : CopyStep scratch m pm new m') {i : Nat} (hi : i < new.size) :
    1272 ≤ new.frame i ∧ isFree m.mmBitmap (new.frame i) = true := by
  rw [h.size_eq] at hi
  rcases getPhysBlock_spec pm.size m.mmBitmap with hg | ⟨p, hg, hlo, -, hfree⟩
  · exact absurd (by rw [hg]) h.got
  · have hf : new.frame i = p + i := by
      rw [h.new_eq, hg]
      unfold MapMemory.frame
      dsimp only
      omega
    rw [hf]
    exact ⟨by omega, hfree _ (by omega) (by omega)⟩

theorem isFree_iff (h : CopyStep scratch m pm new m') (f : Nat) : isFree m'.mmBitmap f = true ↔
    isFree m.mmBitmap f = true ∧ ¬ ∃ i, i < new.size ∧ f = new.frame i := by
  rw [h.bitmap, h.size_eq, h.new_eq]
  rcases getPhysBlock_spec pm.size m.mmBitmap with hg | ⟨p, hg, -, -, -⟩
  · exact absurd (by rw [hg]) h.got
  · rw [hg, isFree, isSet_clearRun, Bool.and_eq_true, Bool.not_eq_true', decide_eq_false_iff_not]
    refine and_congr_right fun _ => not_congr ?_
    unfold MapMemory.frame
    dsimp only
    constructor
    · exact fun h => ⟨f - p, by omega, by omega⟩
    · rintro ⟨i, h1, h2⟩
      omega

theorem isFree_of (h : CopyStep scratch m pm new m') {f : Nat} (hf : isFree m'.mmBitmap f = true) :
    isFree m.mmBitmap f = true := ((h.isFree_iff f).mp hf).1

/-- The run of the copy lies inside `mm_bitmap`. -/
theorem inRange (h : CopyStep scratch m pm new m') : new.pAddr / 4096 + new.size ≤ 2 ^ 20 := by
  rw [h.size_eq, h.new_eq]
  rcases getPhysBlock_spec pm.size m.mmBitmap with hg | ⟨p, hg, -, hhi, -⟩
  · exact absurd (by rw [hg]) h.got
  · rw [hg]
    dsimp only
    omega

end CopyStep

theorem MapMemory.Held.congr {L : Layout} {swap swap2 : Nat} {m m' : Machine} {pm : MapMemory}
    (h : pm.Held L swap swap2 m) (hdir : m'.pageDirectory = m.pageDirectory)
    (hbm : ∀ f, isFree m'.mmBitmap f = true → isFree m.mmBitmap f = true) :
    pm.Held L swap swap2 m' := by
  refine ⟨h.aligned, h.frames, h.present, fun i hi => ?_⟩
  obtain ⟨h1, h2⟩ := h.owned i hi
  rw [hdir]
  refine ⟨?_, h2⟩
  rw [← Bool.not_eq_true] at h1 ⊢
  exact fun hf => h1 (hbm _ hf)

/-! ## Several maps -/

/-- The maps `pms` have been copied, in their order, into `news`. -/
inductive Copied (scratch : Nat → Prop) :
    Machine → List MapMemory → List MapMemory → Machine → Prop
  | nil (m : Machine) : Copied scratch m [] [] m
  | cons {m m₁ m' : Machine} {pm new : MapMemory} {pms news : List MapMemory}
      (step : CopyStep scratch m pm new m₁) (rest : Copied scratch m₁ pms news m') :
      Copied scratch m (pm :: pms) (new :: news) m'

namespace Copied

variable {scratch : Nat → Prop} {m m₁ m' : Machine} {pms news pms' news' : List MapMemory}

theorem single {pm new : MapMemory} (h : CopyStep scratch m pm new m') :
    Copied scratch m [pm] [new] m' := .cons h (.nil m')

theorem append (h₁ : Copied scratch m pms news m₁) (h₂ : Copied scratch m₁ pms' news' m') :
    Copied scratch m (pms ++ pms') (news ++ news') m' := by
  induction h₁ with
  | nil => exact h₂
  | cons step _ ih => exact .cons step (ih h₂)

theorem dir (h : Copied scratch m pms news m') : m'.pageDirectory = m.pageDirectory := by
  induction h with
  | nil => rfl
  | cons step _ ih => exact ih.trans step.dir

theorem sameShape (h : Copied scratch m pms news m') :
    List.Forall₂ MapMemory.SameShape pms news := by
  induction h with
  | nil => exact .nil
  | cons step _ ih => exact .cons step.sameShape ih

theorem isFree_iff (h : Copied scratch m pms news m') (f : Nat) :
    isFree m'.mmBitmap f = true ↔ isFree m.mmBitmap f = true ∧ ¬ HasFrame news f := by
  induction h with
  | nil => simp [HasFrame]
  | cons step _ ih => rw [ih, step.isFree_iff, hasFrame_cons, not_or, and_assoc]

theorem isFree_of (h : Copied scratch m pms news m') {f : Nat} (hf : isFree m'.mmBitmap f = true) :
    isFree m.mmBitmap f = true := ((h.isFree_iff f).mp hf).1

theorem inRange (h : Copied scratch m pms news m') :
    ∀ pm ∈ news, pm.pAddr / 4096 + pm.size ≤ 2 ^ 20 := by
  induction h with
  | nil => exact fun pm hpm => by cases hpm
  | cons step _ ih => exact List.forall_mem_cons.mpr ⟨step.inRange, ih⟩

/-- The frames of the copies were free. -/
theorem fresh (h : Copied scratch m pms news m') {f : Nat} (hf : HasFrame news f) :
    1272 ≤ f ∧ isFree m.mmBitmap f = true := by
  induction h with
  | nil => obtain ⟨_, hmem, _⟩ := hf; cases hmem
  | cons step _ ih =>
    rcases hasFrame_cons.mp hf with ⟨i, hi, rfl⟩ | hf
    · exact step.fresh hi
    · exact ⟨(ih hf).1, step.isFree_of (ih hf).2⟩

/-- No two copies share a frame. -/
theorem apart (h : Copied scratch m pms news m') :
    news.Pairwise fun b c => ∀ i j, i < b.size → j < c.size → b.frame i ≠ c.frame j := by
  induction h with
  | nil => exact .nil
  | cons step rest ih =>
    refine .cons (fun c hc i j hi hj heq => ?_) ih
    have hfree := (rest.fresh ⟨c, hc, j, hj, rfl⟩).2
    exact ((step.isFree_iff _).mp hfree).2 ⟨i, hi, heq.symm⟩

/-- A frame that is in use keeps its contents. -/
theorem ram_of_taken (h : Copied scratch m pms news m') {f : Nat} (hs : ¬ scratch f)
    (hf : isFree m.mmBitmap f = false) : m'.ram f = m.ram f := by
  induction h with
  | nil => rfl
  | cons step _ ih =>
    rw [← Bool.not_eq_true] at hf
    rw [ih (Bool.eq_false_iff.mpr fun h => hf (step.isFree_of h)), step.ram f hs, if_neg]
    rintro ⟨rfl, hpos⟩
    exact hf (step.fresh (by rw [step.size_eq]; exact hpos)).2

end Copied

end Moonlight
