import Mathlib.Tactic.Tauto
import MoonlightKernel.Unmap

/-!
# The frames of the page tables

Frames for page tables come from the allocator that also serves every other client, and go back
to it.  `Avail m f` says that frame `f` is at the disposal of the page tables: it is free, or it
is a table.  No call of `page_map` or `page_unmap` changes which frames these are.

* `Moved` — what any such call does to the frames, and `moved_pageMap`, `moved_pageUnmap`,
  `moved_pageMapRange`: every call does that, whether it succeeds or fails;
* `LedgerInv` — the account of a system in which other clients take, use and free frames, with
  its step lemma `LedgerInv.step`;
* `tables_own_their_frames` — over every run from `page_setup`.
-/

set_option autoImplicit false

namespace Moonlight

open Sys Sys.Bitmap

/-- Frame `f` holds a page table. -/
def IsTableFrame (m : Machine) (f : Nat) : Prop := ∃ d, PageDir d ∧ HasTable m d ∧ tableFrame m d = f

/-- Frame `f` is at the disposal of the page tables. -/
def Avail (m : Machine) (f : Nat) : Prop := isFree m.mmBitmap f = true ∨ IsTableFrame m f

/-- No present directory entry is a page of four megabytes. -/
def Plain (m : Machine) : Prop :=
  ∀ d, PageDir d → m.pageDirectory d &&& PAGE_PRESENT ≠ 0 → m.pageDirectory d &&& PAGE_SIZE = 0

/-- `m'` is `m` after calls of `page_map` and `page_unmap`. -/
structure Moved (L : Layout) (m m' : Machine) : Prop where
  paging : PagingOk L m'
  avail : ∀ f, Avail m' f ↔ Avail m f
  plain : Plain m → Plain m'
  kernel : m'.pageDirectory (KERNEL_POS >>> 22) = m.pageDirectory (KERNEL_POS >>> 22)
  ram : ∀ f, f ≠ L.kernelFrame → ¬ Avail m f → m'.ram f = m.ram f

theorem isTableFrame_congr {m m' : Machine} (h : m'.pageDirectory = m.pageDirectory) (f : Nat) :
    IsTableFrame m' f ↔ IsTableFrame m f := by
  unfold IsTableFrame HasTable tableFrame
  rw [h]

namespace Moved

variable {L : Layout} {m m₁ m' : Machine}

theorem refl (h : PagingOk L m) : Moved L m m :=
  ⟨h, fun _ => Iff.rfl, fun h => h, rfl, fun _ _ _ => rfl⟩

theorem trans (h : Moved L m m₁) (h' : Moved L m₁ m') : Moved L m m' :=
  ⟨h'.paging, fun f => (h'.avail f).trans (h.avail f), fun hp => h'.plain (h.plain hp),
    h'.kernel.trans h.kernel,
    fun f hk hf => (h'.ram f hk fun ha => hf ((h.avail f).mp ha)).trans (h.ram f hk hf)⟩

end Moved

/-! ## One call -/

section call

variable {L : Layout} {m m' : Machine} {pa va flag : Nat}

theorem tableFrame_avail {d : Nat} (hd : PageDir d) (ht : HasTable m d) :
    Avail m (tableFrame m d) := .inr ⟨d, hd, ht, rfl⟩

theorem Unmapped.isTableFrame_iff (h : Unmapped L m va m') (hm : PagingOk L m)
    (hva : PageDir (dirIndex va)) (f : Nat) :
    IsTableFrame m' f ↔ IsTableFrame m f ∧ ¬ (f = tableFrame m (dirIndex va) ∧ LastEntry L m va) := by
  constructor
  · rintro ⟨d, hd, ht, rfl⟩
    have hdir := h.dir_of_hasTable ht
    have ht' := (hasTable_congr hdir).mp ht
    rw [tableFrame_congr hdir]
    refine ⟨⟨d, hd, ht', rfl⟩, fun ⟨heq, hl⟩ => ?_⟩
    obtain rfl := hm.apart d _ hd hva ht' h.hasTable heq
    exact h.gone hl ht
  · rintro ⟨⟨d, hd, ht, rfl⟩, hno⟩
    have hdir : m'.pageDirectory d = m.pageDirectory d := by
      refine h.dir d ?_
      by_cases hne : d = dirIndex va
      · subst hne; exact .inr fun hl => hno ⟨rfl, hl⟩
      · exact .inl hne
    exact ⟨d, hd, (hasTable_congr hdir).mpr ht, tableFrame_congr hdir⟩

theorem Unmapped.avail_iff (h : Unmapped L m va m') (hm : PagingOk L m)
    (hva : PageDir (dirIndex va)) (f : Nat) : Avail m' f ↔ Avail m f := by
  have htable : f = tableFrame m (dirIndex va) → IsTableFrame m f := fun hf =>
    ⟨_, hva, h.hasTable, hf.symm⟩
  unfold Avail
  rw [h.bitmap, h.isTableFrame_iff hm hva]
  grind

/-- **`page_unmap`**, whatever it answers. -/
theorem moved_pageUnmap (hm : PagingOk L m) (hva : PageDir (dirIndex va))
    (hflag : flag &&& PAGE_PRESENT = 0) : Moved L m (pageUnmap L va flag m).2 := by
  rcases pageUnmap_spec hm hva flag with ⟨he, -⟩ | ⟨-, ht, hcase⟩
  · rw [he]; exact .refl hm
  have hram : ∀ f, f ≠ L.kernelFrame → ¬ Avail m f → (m.cleared L va).ram f = m.ram f := by
    intro f hk hf
    have hft : f ≠ tableFrame m (dirIndex va) := fun he => hf (he ▸ tableFrame_avail hva ht)
    funext j
    simp [Machine.cleared, Machine.write, Machine.swapTo, hft, hk]
  rcases hcase with ⟨hl, he⟩ | ⟨hl, he⟩
  · have hu := pageUnmap_unmapped hm hva hflag he
    rw [he]
    exact ⟨hu.paging, hu.avail_iff hm hva, fun h => h, rfl, hram⟩
  · have hu := pageUnmap_unmapped hm hva hflag he
    rw [he]
    refine ⟨hu.paging, hu.avail_iff hm hva, fun hp d hd hpres => ?_,
      Function.update_of_ne (Ne.symm hva.2) .., hram⟩
    by_cases hne : d = dirIndex va
    · subst hne
      simp only [Machine.dropTable, Machine.setDir, Function.update_self] at hpres
      exact absurd hflag hpres
    · have hdir : (m.dropTable L va flag).pageDirectory d = m.pageDirectory d :=
        Function.update_of_ne hne ..
      rw [hdir] at hpres ⊢
      exact hp d hd hpres

theorem Mapped.isTableFrame_iff (h : Mapped L m va pa m') (hva : PageDir (dirIndex va)) (f : Nat) :
    IsTableFrame m' f ↔
      IsTableFrame m f ∨ (¬ HasTable m (dirIndex va) ∧ f = tableFrame m' (dirIndex va)) := by
  constructor
  · rintro ⟨d, hd, ht, rfl⟩
    by_cases hk : d ≠ dirIndex va ∨ HasTable m d
    · have hdir := h.dir d hk
      exact .inl ⟨d, hd, (hasTable_congr hdir).mp ht, (tableFrame_congr hdir).symm⟩
    · rw [not_or, not_not] at hk
      obtain ⟨rfl, hno⟩ := hk
      exact .inr ⟨hno, rfl⟩
  · rintro (⟨d, hd, ht, rfl⟩ | ⟨-, rfl⟩)
    · have hdir := h.dir d (.inr ht)
      exact ⟨d, hd, (hasTable_congr hdir).mpr ht, tableFrame_congr hdir⟩
    · exact ⟨_, hva, h.hasTable, rfl⟩

theorem Mapped.avail_iff (h : Mapped L m va pa m') (hva : PageDir (dirIndex va)) (f : Nat) :
    Avail m' f ↔ Avail m f := by
  have htable : HasTable m (dirIndex va) → f = tableFrame m' (dirIndex va) → IsTableFrame m f :=
    fun ht hf => ⟨_, hva, ht, by rw [hf]; exact (tableFrame_congr (h.dir _ (.inr ht))).symm⟩
  have hfresh : ¬ HasTable m (dirIndex va) → f = tableFrame m' (dirIndex va) →
      isFree m.mmBitmap f = true := fun ht hf => hf ▸ h.fresh ht
  unfold Avail
  rw [h.bitmap, h.isTableFrame_iff hva]
  grind

/-- **A successful `page_map`** of a present page. -/
theorem Mapped.moved (h : Mapped L m va pa m') (hm : PagingOk L m) (hva : PageDir (dirIndex va)) :
    Moved L m m' := by
  have hne : KERNEL_POS >>> 22 ≠ dirIndex va := fun he => hva.2 he.symm
  have hkernel := h.dir (KERNEL_POS >>> 22) (.inl hne)
  refine ⟨⟨h.tables, fun ht => ?_⟩, h.avail_iff hva, fun hp d hd hpres => ?_, hkernel,
    fun f hk hf => ?_⟩
  · rw [tableFrame_congr hkernel]
    exact hm.kernel ((hasTable_congr hkernel).mp ht)
  · by_cases hdir : d ≠ dirIndex va ∨ HasTable m d
    · rw [h.dir d hdir] at hpres ⊢
      exact hp d hd hpres
    · rw [not_or, not_not] at hdir
      rw [hdir.1]
      exact h.hasTable.2
  · refine h.ram f hk fun heq => hf ?_
    rw [← h.avail_iff hva, heq]
    exact tableFrame_avail hva h.hasTable

/-- `page_map` of an entry that is not present is `page_unmap`. -/
theorem pageMap_absent (L : Layout) (pa va : Nat) (m : Machine) (hflag : flag &&& PAGE_PRESENT = 0) :
    pageMap L pa va flag m = (-EINVAL, m) ∨ pageMap L pa va flag m = pageUnmap L va flag m := by
  unfold pageMap
  split
  · exact .inl rfl
  split
  · exact .inl rfl
  split
  · exact .inl rfl
  exact .inr rfl

section setDir

variable {d e : Nat}

/-- An entry without a table is made zero. -/
theorem setDir_absent_dir (habs : m.pageDirectory d &&& PAGE_PRESENT = 0) (ht : HasTable m e) :
    (m.setDir d 0).pageDirectory e = m.pageDirectory e := by
  have hne : e ≠ d := fun he => ht.1 (by rwa [he])
  exact Function.update_of_ne hne ..

theorem setDir_absent_hasTable (habs : m.pageDirectory d &&& PAGE_PRESENT = 0) :
    HasTable (m.setDir d 0) e ↔ HasTable m e := by
  by_cases he : e = d
  · subst he
    refine iff_of_false (fun h => h.1 ?_) fun h => h.1 habs
    simp [Machine.setDir]
  · exact hasTable_congr (Function.update_of_ne he ..)

/-- The directory entries without a table do not matter to the tables. -/
theorem PagingOk.of_tables (hm : PagingOk L m)
    (hdir : ∀ d, HasTable m' d → m'.pageDirectory d = m.pageDirectory d)
    (hbm : m'.mmBitmap = m.mmBitmap) : PagingOk L m' := by
  have hold : ∀ {d}, HasTable m' d → HasTable m d ∧ tableFrame m' d = tableFrame m d :=
    fun {d} ht => ⟨(hasTable_congr (hdir d ht)).mp ht, tableFrame_congr (hdir d ht)⟩
  refine ⟨⟨fun d hd ht => ?_, fun d hd ht => ?_, fun d e hd he ht ht' heq => ?_⟩, fun ht => ?_⟩
  · rw [hbm, (hold ht).2]
    exact hm.taken d hd (hold ht).1
  · rw [(hold ht).2]
    exact hm.notKernel d hd (hold ht).1
  · rw [(hold ht).2, (hold ht').2] at heq
    exact hm.apart d e hd he (hold ht).1 (hold ht').1 heq
  · rw [(hold ht).2]
    exact hm.kernel (hold ht).1

end setDir

/-- **`page_map`**, whatever it is asked and whatever it answers. -/
theorem moved_pageMap (hm : PagingOk L m) (hva : PageDir (dirIndex va)) (hpa : pa < 2 ^ 32) :
    Moved L m (pageMap L pa va flag m).2 := by
  by_cases hflag : flag &&& PAGE_PRESENT = 0
  · rcases pageMap_absent L pa va m hflag with he | he
    · rw [he]; exact .refl hm
    · rw [he]; exact moved_pageUnmap hm hva hflag
  rcases pageMap_spec L pa va m hflag with he | ⟨habs, he⟩ | ⟨-, -, -, t, m₁, -, he⟩
  · rw [he]; exact .refl hm
  · rw [he]
    have hold : ∀ d, HasTable (m.setDir (dirIndex va) 0) d ↔ HasTable m d := fun d =>
      setDir_absent_hasTable habs
    have hdir : ∀ d, HasTable (m.setDir (dirIndex va) 0) d →
        (m.setDir (dirIndex va) 0).pageDirectory d = m.pageDirectory d :=
      fun d ht => setDir_absent_dir habs ((hold d).mp ht)
    refine ⟨hm.of_tables hdir rfl, fun f => or_congr_right ?_, fun hp d hd hpres => ?_,
      Function.update_of_ne (Ne.symm hva.2) .., fun _ _ _ => rfl⟩
    · refine exists_congr fun d => and_congr_right fun _ => ?_
      rw [hold d]
      exact and_congr_right fun ht => by rw [tableFrame_congr (hdir d ((hold d).mpr ht))]
    · by_cases hne : d = dirIndex va
      · subst hne
        simp [Machine.setDir] at hpres
      · have hother : (m.setDir (dirIndex va) 0).pageDirectory d = m.pageDirectory d :=
          Function.update_of_ne hne ..
        rw [hother] at hpres ⊢
        exact hp d hd hpres
  · have hm' := pageMap_mapped hm.toTablesOk hva hpa hflag he
    rw [he]
    exact hm'.moved hm hva

end call

/-! ## A run of pages -/

section range

variable {L : Layout} {pa va flag : Nat}

theorem moved_pageMapLoop (n : Nat) : ∀ (i : Nat) {m : Machine}, PagingOk L m →
    (∀ j, j < i + n → PageDir (dirIndex (add32 va (j <<< 12)))) →
    Moved L m (pageMapLoop L pa va flag n i m).2.2 ∧
      (pageMapLoop L pa va flag n i m).2.1 ≤ i + n := by
  induction n with
  | zero => intro i m hm _; exact ⟨.refl hm, Nat.le_refl _⟩
  | succ n ih =>
    intro i m hm hdirs
    have hone : Moved L m (pageMap L (add32 pa (i <<< 12)) (add32 va (i <<< 12)) flag m).2 :=
      moved_pageMap hm (hdirs i (by omega)) (add32_lt _ _)
    rw [pageMapLoop]
    split
    · exact ⟨hone, by dsimp only; omega⟩
    · obtain ⟨h1, h2⟩ := ih (i + 1) hone.paging fun j hj => hdirs j (by omega)
      exact ⟨hone.trans h1, by omega⟩

theorem moved_pageUnmapBack : ∀ (i : Nat) {m : Machine}, PagingOk L m →
    (∀ j, j < i → PageDir (dirIndex (add32 va (j <<< 12)))) →
    Moved L m (pageUnmapBack L va i m) := by
  intro i
  induction i with
  | zero => intro m hm _; exact .refl hm
  | succ i ih =>
    intro m hm hdirs
    have hone : Moved L m (pageUnmap L (add32 va (i <<< 12)) PAGE_NOTHING m).2 :=
      moved_pageUnmap hm (hdirs i (by omega)) (by decide)
    rw [pageUnmapBack]
    exact hone.trans (ih hone.paging fun j hj => hdirs j (by omega))

/-- **`page_map_range`**, whatever it answers. -/
theorem moved_pageMapRange {n : Nat} {m : Machine} (hm : PagingOk L m)
    (hdirs : ∀ j, j < n → PageDir (dirIndex (add32 va (j <<< 12)))) :
    Moved L m (pageMapRange L pa va flag n m).2 := by
  obtain ⟨h1, h2⟩ : Moved L m (pageMapLoop L pa va flag n 0 m).2.2 ∧
      (pageMapLoop L pa va flag n 0 m).2.1 ≤ 0 + n :=
    moved_pageMapLoop n 0 hm (by simpa using hdirs)
  rw [pageMapRange]
  split
  · exact h1.trans (moved_pageUnmapBack _ h1.paging fun j hj => hdirs j (by omega))
  · exact h1

end range

/-! ## The other clients -/

/-- Frames that were free are taken. -/
theorem Avail.taken {m : Machine} {bm : Bytes} {P : Nat → Prop}
    (hfree : ∀ f, P f → isFree m.mmBitmap f = true) {L : Layout} (hm : PagingOk L m)
    (hbm : ∀ f, isFree bm f = true ↔ isFree m.mmBitmap f = true ∧ ¬ P f) (f : Nat) :
    Avail (m.setBitmap bm) f ↔ Avail m f ∧ ¬ P f := by
  have hno : IsTableFrame m f → ¬ P f := by
    rintro ⟨d, hd, ht, rfl⟩ hp
    have := hm.taken d hd ht
    rw [hfree _ hp] at this
    exact Bool.noConfusion this
  have htab : IsTableFrame (m.setBitmap bm) f ↔ IsTableFrame m f := isTableFrame_congr rfl f
  have hfr : isFree (m.setBitmap bm).mmBitmap f = true ↔ _ := hbm f
  unfold Avail
  rw [hfr, htab]
  grind

/-- Frames are given back. -/
theorem Avail.released {m : Machine} {bm : Bytes} {P : Nat → Prop}
    (hbm : ∀ f, isFree bm f = true ↔ isFree m.mmBitmap f = true ∨ P f) (f : Nat) :
    Avail (m.setBitmap bm) f ↔ Avail m f ∨ P f := by
  have htab : IsTableFrame (m.setBitmap bm) f ↔ IsTableFrame m f := isTableFrame_congr rfl f
  have hfr : isFree (m.setBitmap bm).mmBitmap f = true ↔ _ := hbm f
  unfold Avail
  rw [hfr, htab]
  grind

/-- A run of free frames is taken. -/
theorem Avail.taken_run {L : Layout} {m : Machine} (hm : PagingOk L m) {p k : Nat}
    (hfree : ∀ q, p ≤ q → q < p + k → isFree m.mmBitmap q = true) (f : Nat) :
    Avail (m.setBitmap (clearRun p k m.mmBitmap)) f ↔ Avail m f ∧ ¬ (p ≤ f ∧ f < p + k) := by
  refine Avail.taken (P := fun f => p ≤ f ∧ f < p + k) (fun f hf => hfree f hf.1 hf.2) hm
    (fun f => ?_) f
  rw [isFree, isSet_clearRun, Bool.and_eq_true, Bool.not_eq_true', decide_eq_false_iff_not]

/-- A run of frames is given back. -/
theorem Avail.released_run {m : Machine} {p k : Nat} (hp : p + k ≤ 2 ^ 20) (f : Nat) :
    Avail (m.setBitmap (freePhysBlock (p * 4096) k m.mmBitmap)) f ↔
      Avail m f ∨ (p ≤ f ∧ f < p + k) := by
  have hdiv : p * 4096 / 4096 = p := Nat.mul_div_cancel _ (by decide)
  refine Avail.released (P := fun f => p ≤ f ∧ f < p + k) (fun f => ?_) f
  rw [isFree_freePhysBlock (by omega), hdiv, Bool.or_eq_true, decide_eq_true_eq]

/-- Frames that are taken, kept from the page tables by a mapping that fails, and given back are
as before. -/
theorem avail_after_unwinding {L : Layout} {m m₂ : Machine} (hm : PagingOk L m) {p k : Nat}
    (hp : p + k ≤ 2 ^ 20) (hfree : ∀ q, p ≤ q → q < p + k → isFree m.mmBitmap q = true)
    (hmoved : ∀ f, Avail m₂ f ↔ Avail (m.setBitmap (clearRun p k m.mmBitmap)) f) (f : Nat) :
    Avail (m₂.setBitmap (freePhysBlock (p * 4096) k m₂.mmBitmap)) f ↔ Avail m f := by
  rw [Avail.released_run hp, hmoved, Avail.taken_run hm hfree]
  by_cases hf : p ≤ f ∧ f < p + k
  · exact iff_of_true (.inr hf) (.inl (hfree f hf.1 hf.2))
  · simp [hf]

/-- The tables keep frames of their own under a bitmap in which these are taken. -/
theorem PagingOk.setBitmap {L : Layout} {m : Machine} (hm : PagingOk L m) {bm : Bytes}
    (hbm : ∀ f, IsTableFrame m f → isFree bm f = false) : PagingOk L (m.setBitmap bm) :=
  ⟨hm.toTablesOk.congr rfl fun d hd ht => hbm _ ⟨d, hd, ht, rfl⟩, hm.kernel⟩

/-- The tables after frames have been taken from the allocator. -/
theorem PagingOk.taken_run {L : Layout} {m : Machine} (hm : PagingOk L m) (p k : Nat) :
    PagingOk L (m.setBitmap (clearRun p k m.mmBitmap)) := by
  refine hm.setBitmap fun f hf => ?_
  obtain ⟨d, hd, ht, rfl⟩ := hf
  have := hm.taken d hd ht
  rw [isFree] at this
  rw [isFree, isSet_clearRun, this, Bool.false_and]

/-- What the frames contain does not matter to the tables. -/
theorem PagingOk.congr {L : Layout} {m m' : Machine} (hm : PagingOk L m)
    (hdir : m'.pageDirectory = m.pageDirectory) (hbm : m'.mmBitmap = m.mmBitmap) :
    PagingOk L m' :=
  hm.of_tables (fun d _ => congrFun hdir d) hbm

/-- The machine, and the blocks that other clients of the frame allocator have. -/
structure PageSystem where
  machine : Machine
  live : List (Nat × Nat)

/-- A call of `page_map` or `page_unmap`, a call of another client, and a client that writes to
its frames. -/
inductive PageOp where
  | map (phyAddr virtAddr flag : Nat)
  | unmap (virtAddr flag : Nat)
  | phys (op : PhysOp)
  | use

/-- An aligned address outside the directory entry of the kernel. -/
structure Mappable (va : Nat) : Prop where
  aligned : va % 4096 = 0
  lt : va < 2 ^ 32
  outside : dirIndex va ≠ KERNEL_POS >>> 22

theorem Mappable.pageDir {va : Nat} (h : Mappable va) : PageDir (dirIndex va) := by
  have := h.lt
  refine ⟨?_, h.outside⟩
  rw [dirIndex_eq]; omega

/-- One step. -/
def pageStep (L : Layout) (s : PageSystem) : PageOp → PageSystem → Prop
  | .map pa va flag, t => pa % 4096 = 0 ∧ pa < 2 ^ 32 ∧ Mappable va ∧
      t.machine = (pageMap L pa va flag s.machine).2 ∧ t.live = s.live
  | .unmap va flag, t => Mappable va ∧
      t.machine = (pageUnmap L va flag s.machine).2 ∧ t.live = s.live
  | .phys op, t => physStep ⟨s.machine.mmBitmap, s.live⟩ op ⟨t.machine.mmBitmap, t.live⟩ ∧
      t.machine = s.machine.setBitmap t.machine.mmBitmap
  | .use, t => (∀ f, (∀ b ∈ s.live, ¬ InBlock b f) → t.machine.ram f = s.machine.ram f) ∧
      t.machine = { s.machine with ram := t.machine.ram } ∧ t.live = s.live

/-- The word that `page_unmap` is to leave in the directory is no present entry. -/
def NotPresentFlag : PageOp → Prop
  | .unmap _ flag => flag &&& PAGE_PRESENT = 0
  | _ => True

/-- The account of the frames. -/
structure LedgerInv (L : Layout) (s : PageSystem) : Prop where
  paging : PagingOk L s.machine
  plain : Plain s.machine
  kernel : HasTable s.machine (KERNEL_POS >>> 22)
  inRange : ∀ b ∈ s.live, b.1 / 4096 + b.2 ≤ 2 ^ 20
  owned : ∀ b ∈ s.live, ∀ f, InBlock b f → ¬ Avail s.machine f
  disjoint : s.live.Pairwise fun b c => ∀ f, InBlock b f → ¬ InBlock c f

namespace LedgerInv

variable {L : Layout} {s t : PageSystem}

theorem moved (h : LedgerInv L s) (hm : Moved L s.machine t.machine) (hl : t.live = s.live) :
    LedgerInv L t :=
  ⟨hm.paging, hm.plain h.plain, (hasTable_congr hm.kernel).mpr h.kernel, hl ▸ h.inRange,
    fun b hb f hf ha => h.owned b (hl ▸ hb) f hf ((hm.avail f).mp ha), hl ▸ h.disjoint⟩

/-- A client takes a block. -/
theorem get (h : LedgerInv L s) {n : Nat} (hs : pageStep L s (.phys (.get n)) t) :
    LedgerInv L t := by
  obtain ⟨tm, tl⟩ := t
  obtain ⟨⟨-, hbm, hlive⟩, hmach⟩ := hs
  dsimp only at hbm hlive hmach
  rcases getPhysBlock_spec n s.machine.mmBitmap with hg | ⟨p, hg, hlo, hhi, hfree⟩
  · rw [hg] at hbm hlive
    rw [hmach, hbm, hlive]
    exact h
  · rw [hg] at hbm hlive
    dsimp only at hbm
    rw [if_neg (by dsimp only; omega)] at hlive
    rw [hbm] at hmach
    have hin : ∀ f, InBlock (p * 4096, n) f ↔ p ≤ f ∧ f < p + n := fun f => by
      unfold InBlock; rw [Nat.mul_div_cancel _ (by decide)]
    have hfree' : ∀ f, InBlock (p * 4096, n) f → isFree s.machine.mmBitmap f = true :=
      fun f hf => by rw [hin] at hf; exact hfree f hf.1 hf.2
    have hset : ∀ f, isFree (clearRun p n s.machine.mmBitmap) f = true ↔
        isFree s.machine.mmBitmap f = true ∧ ¬ InBlock (p * 4096, n) f := fun f => by
      rw [hin, isFree, isSet_clearRun, Bool.and_eq_true, Bool.not_eq_true', decide_eq_false_iff_not]
    have havail := Avail.taken hfree' h.paging hset
    subst hmach hlive
    refine ⟨h.paging.setBitmap fun f hf => ?_, h.plain, h.kernel,
      List.forall_mem_cons.mpr ⟨by dsimp only; omega, h.inRange⟩,
      List.forall_mem_cons.mpr ⟨fun f hf ha => ((havail f).mp ha).2 hf,
        fun b hb f hf ha => h.owned b hb f hf ((havail f).mp ha).1⟩,
      .cons (fun c hc f hf hcf => h.owned c hc f hcf (.inl (hfree' f hf))) h.disjoint⟩
    obtain ⟨d, hd, ht, rfl⟩ := hf
    rw [← Bool.not_eq_true, hset, h.paging.taken d hd ht]
    exact fun k => Bool.noConfusion k.1

/-- A client gives a block back. -/
theorem free (h : LedgerInv L s) {a n : Nat} (hs : pageStep L s (.phys (.free a n)) t) :
    LedgerInv L t := by
  obtain ⟨tm, tl⟩ := t
  obtain ⟨⟨hmem, hbm, hlive⟩, hmach⟩ := hs
  dsimp only at hmem hbm hlive hmach
  have hset : ∀ f, isFree (freePhysBlock a n s.machine.mmBitmap) f = true ↔
      isFree s.machine.mmBitmap f = true ∨ InBlock (a, n) f := fun f => by
    rw [isFree_freePhysBlock (h.inRange _ hmem), Bool.or_eq_true, decide_eq_true_eq]
    rfl
  rw [hbm] at hmach
  have havail := Avail.released (m := s.machine) hset
  have hperm : s.live.Perm ((a, n) :: s.live.erase (a, n)) := List.perm_cons_erase hmem
  have hpair : ((a, n) :: s.live.erase (a, n)).Pairwise fun b c => ∀ f, InBlock b f → ¬ InBlock c f :=
    hperm.pairwise h.disjoint fun hbc f hc hb => hbc f hb hc
  have hsub : ∀ b, b ∈ s.live.erase (a, n) → b ∈ s.live := fun b hb => List.mem_of_mem_erase hb
  subst hmach hlive
  refine ⟨h.paging.setBitmap fun f hf => ?_, h.plain, h.kernel, fun b hb => h.inRange b (hsub b hb),
    fun b hb f hf ha => ?_, (List.pairwise_cons.mp hpair).2⟩
  · have hno := h.owned _ hmem f
    obtain ⟨d, hd, ht, rfl⟩ := hf
    rw [← Bool.not_eq_true, hset, h.paging.taken d hd ht]
    rintro (k | k)
    · cases k
    · exact hno k (tableFrame_avail hd ht)
  · rcases (havail f).mp ha with k | k
    · exact h.owned b (hsub b hb) f hf k
    · exact (List.pairwise_cons.mp hpair).1 b hb f k hf

/-- **One step keeps the account.** -/
theorem step {op : PageOp} (h : LedgerInv L s) (hs : pageStep L s op t) (hop : NotPresentFlag op) :
    LedgerInv L t := by
  cases op with
  | map pa va flag =>
    obtain ⟨-, hpa, hva, hmach, hlive⟩ := hs
    exact h.moved (hmach ▸ moved_pageMap h.paging hva.pageDir hpa) hlive
  | unmap va flag =>
    obtain ⟨hva, hmach, hlive⟩ := hs
    exact h.moved (hmach ▸ moved_pageUnmap h.paging hva.pageDir hop) hlive
  | phys op =>
    cases op with
    | get n => exact h.get hs
    | free a n => exact h.free hs
  | use =>
    obtain ⟨tm, tl⟩ := t
    obtain ⟨-, hmach, hlive⟩ := hs
    dsimp only at hmach hlive
    subst hlive
    rw [hmach]
    exact ⟨⟨h.paging.toTablesOk.congr rfl h.paging.taken, h.paging.kernel⟩, h.plain, h.kernel,
      h.inRange, h.owned, h.disjoint⟩

end LedgerInv

/-! ## What `page_unmap` does in a state with a good account -/

/-- The view of a page: absent, or present with its frame. -/
theorem pageUnmap_view {L : Layout} {m m' : Machine} {va flag v : Nat} (hm : PagingOk L m)
    (hva : PageDir (dirIndex va)) (hflag : flag &&& PAGE_PRESENT = 0)
    (h : pageUnmap L va flag m = (0, m')) (hv : v < 2 ^ 32) (hne : v / 4096 ≠ va / 4096) :
    entryView (slot L m' v) = entryView (slot L m v) := by
  rcases pageUnmap_spec hm hva flag with ⟨he, -⟩ | ⟨-, ht, hcase⟩
  · rw [he] at h; cases h
  have hcleared : slot L (m.cleared L va) v = slot L m v := by
    rw [Machine.cleared, slot_write, slot_swapTo, if_neg]
    rintro ⟨htv, hf, hi, -⟩
    by_cases hd : dirIndex v = dirIndex va
    · exact hne ((page_eq_iff v va).mpr ⟨hd, hi⟩)
    · exact hm.frame_ne hva (by rw [dirIndex_eq]; omega) hd ht htv hf
  rcases hcase with ⟨-, he⟩ | ⟨hl, he⟩
  · rw [he] at h
    cases h
    rw [hcleared]
  · rw [he] at h
    cases h
    by_cases hd : dirIndex v = dirIndex va
    · -- the table is gone, and the page was not present in it
      have hno : ¬ HasTable (m.dropTable L va flag) (dirIndex v) := fun h => h.1 (by
        rw [hd]
        simpa [Machine.dropTable, Machine.setDir] using hflag)
      have habs := hl v hd hne
      rw [present_iff, not_not] at habs
      rw [slot_of_not_hasTable hno, entryView_zero, entryView_eq_none_iff.mpr habs]
    · have hslot : slot L (m.dropTable L va flag) v = slot L (m.cleared L va) v :=
        slot_congr (Function.update_of_ne hd ..) rfl
      rw [hslot, hcleared]

/-- The words of the table of `va` after the call hold no present entry exactly when `va` was the
last one. -/
theorem pageUnmap_lastEntry {L : Layout} {m m' : Machine} {va flag : Nat} (hm : PagingOk L m)
    (hva : PageDir (dirIndex va)) (h : pageUnmap L va flag m = (0, m')) :
    (∀ i < 1024, m'.ram (tableFrame m (dirIndex va)) i &&& PAGE_PRESENT = 0) ↔
      LastEntry L m va := by
  rcases pageUnmap_spec hm hva flag with ⟨he, -⟩ | ⟨-, ht, hcase⟩
  · rw [he] at h; cases h
  have hscan := cleared_scan hm hva ht
  rw [List.any_eq_false] at hscan
  simp only [List.mem_range, decide_eq_true_eq, not_not] at hscan
  rcases hcase with ⟨-, he⟩ | ⟨-, he⟩ <;> rw [he] at h <;> cases h <;> exact hscan

/-- What a successful `page_unmap` of `va` owes to every other page and to the allocator. -/
structure UnmapLaw (L : Layout) (m : Machine) (va : Nat) (m' : Machine) : Prop where
  gone : ¬ Present L m' va
  others : ∀ v < 2 ^ 32, v / 4096 ≠ va / 4096 → v / 4096 ≠ L.pageSwap / 4096 →
    (pageIsPresent L v m').1 = (pageIsPresent L v m).1 ∧
      (pageGetPhys L v m').1 = (pageGetPhys L v m).1
  frees : isFree m'.mmBitmap (tableFrame m (dirIndex va)) = true ↔
    ∀ i < 1024, m'.ram (tableFrame m (dirIndex va)) i &&& PAGE_PRESENT = 0

/-- Every present directory entry names a frame that is allocated and that no other entry
names. -/
def TablesOwned (m : Machine) : Prop :=
  ∀ d, PageDir d → m.pageDirectory d &&& PAGE_PRESENT ≠ 0 →
    isFree m.mmBitmap (tableFrame m d) = false ∧
      ∀ e < 1024, e ≠ d → m.pageDirectory e &&& PAGE_PRESENT ≠ 0 → tableFrame m e ≠ tableFrame m d

theorem PagingOk.unmapLaw {L : Layout} {m m' : Machine} {va flag : Nat} (hm : PagingOk L m)
    (hva : Mappable va) (hflag : flag &&& PAGE_PRESENT = 0)
    (h : pageUnmap L va flag m = (0, m')) : UnmapLaw L m va m' := by
  have hu := pageUnmap_unmapped hm hva.pageDir hflag h
  refine ⟨fun hp => ((hu.present va hva.lt).mp hp).2 rfl, fun v hv hne _ => ?_, ?_⟩
  · exact (same_translation_iff L m m' v).mpr (pageUnmap_view hm hva.pageDir hflag h hv hne)
  · rw [pageUnmap_lastEntry hm hva.pageDir h, hu.bitmap, hm.taken _ hva.pageDir hu.hasTable]
    simp

/-! ## Runs from `page_setup` -/

/-- What `page_setup` leaves of the directory that the machine boots with: the entry of the
kernel, with the table `kernel_page`. -/
structure SetUp (L : Layout) (m : Machine) : Prop where
  kernel : m.pageDirectory (KERNEL_POS >>> 22) = KERNEL_GET_REAL L.kernelPage ||| PAGE_PRESENT
  empty : ∀ d, PageDir d → m.pageDirectory d = 0

/-- `page_setup` on the directory, the kernel's table and the bitmap: the identity entry is
removed, `page_setup_kernel_section` fills `kernel_page` and reserves a few frames. -/
def pageSetup (L : Layout) (kernelPage : Nat → Nat) (mmBitmap : Bytes) (m : Machine) : Machine :=
  (((m.setDir 0 0).writeFrame L.kernelFrame kernelPage).setBitmap mmBitmap).setDir
    (KERNEL_POS >>> 22) (KERNEL_GET_REAL L.kernelPage ||| PAGE_PRESENT)

/-- The directory of the boot code: 4 MiB entries for the identity map and the kernel. -/
def bootDirectory (d : Nat) : Nat := if d = 0 ∨ d = KERNEL_POS >>> 22 then 0x83 else 0

theorem setUp_pageSetup (L : Layout) (kernelPage : Nat → Nat) (bm : Bytes) {m : Machine}
    (hboot : m.pageDirectory = bootDirectory) : SetUp L (pageSetup L kernelPage bm m) := by
  constructor
  · simp [pageSetup, Machine.setDir]
  · intro d hd
    have hk := hd.2
    by_cases h0 : d = 0
    · subst h0; simp [pageSetup, Machine.setDir, Machine.setBitmap, Machine.writeFrame, KERNEL_POS]
    · simp [pageSetup, Machine.setDir, Machine.setBitmap, Machine.writeFrame, Function.update_of_ne,
        hk, h0, hboot, bootDirectory]

theorem LedgerInv.start {L : Layout} {m : Machine} (h : SetUp L m) : LedgerInv L ⟨m, []⟩ := by
  have hlt := L.kernelPage_mem
  have hal := L.aligned.1
  have hend := L.kernelEnd_le
  have hno : ∀ d, PageDir d → ¬ HasTable m d := fun d hd ht => ht.1 (by rw [h.empty d hd]; rfl)
  refine ⟨⟨⟨fun d hd ht => absurd ht (hno d hd), fun d hd ht => absurd ht (hno d hd),
    fun d e hd _ ht => absurd ht (hno d hd)⟩, fun _ => ?_⟩, fun d hd hp => ?_, ?_, by simp, by simp,
    .nil⟩
  · have haddr := PAGE_GET_ADDR_or (x := KERNEL_GET_REAL L.kernelPage)
      (show PAGE_PRESENT &&& PAGE_ADDR = 0 by decide)
    rw [PAGE_GET_ADDR_eq, PAGE_GET_ADDR_eq] at haddr
    unfold tableFrame Layout.kernelFrame
    rw [h.kernel, shiftRight_page]
    unfold KERNEL_GET_REAL KERNEL_POS at *
    omega
  · exact absurd (by rw [h.empty d hd]; rfl) hp
  · have hreal : KERNEL_GET_REAL L.kernelPage = KERNEL_GET_REAL L.kernelPage / 4096 * 4096 := by
      unfold KERNEL_GET_REAL KERNEL_POS
      omega
    unfold HasTable
    rw [h.kernel, hreal]
    refine ⟨?_, and_PAGE_SIZE_or (by decide)⟩
    rw [and_PAGE_PRESENT_or (by omega)]
    decide

/-- **Page tables own their frames**: in every state that calls of `page_map` and `page_unmap` and
other clients reach from `page_setup`, as long as no `page_unmap` is told to leave a present
word in the directory. -/
theorem tables_own_their_frames (L : Layout) (kernelPage : Nat → Nat) (bm : Bytes) (m₀ : Machine)
    (hboot : m₀.pageDirectory = bootDirectory) (ops : List PageOp) (s : PageSystem)
    (h : Run (fun s op t => pageStep L s op t ∧ NotPresentFlag op)
      ⟨pageSetup L kernelPage bm m₀, []⟩ ops s) :
    TablesOwned s.machine ∧
      ∀ va flag m', Mappable va → flag &&& PAGE_PRESENT = 0 →
        pageUnmap L va flag s.machine = (0, m') → UnmapLaw L s.machine va m' := by
  have hs : LedgerInv L s := h.invariant (LedgerInv L)
    (fun s op t hs hstep => hs.step hstep.1 hstep.2) (.start (setUp_pageSetup L kernelPage bm hboot))
  refine ⟨fun d hd hp => ?_, fun va flag m' hva hflag hu => hs.paging.unmapLaw hva hflag hu⟩
  have ht : HasTable s.machine d := ⟨hp, hs.plain d hd hp⟩
  refine ⟨hs.paging.taken d hd ht, fun e he hne hpe => ?_⟩
  refine hs.paging.frame_ne hd he hne ht ?_
  by_cases hk : e = KERNEL_POS >>> 22
  · exact hk ▸ hs.kernel
  · exact ⟨hpe, hs.plain e ⟨he, hk⟩ hpe⟩

/-- A machine as it boots, with every frame free and memory zeroed, after `page_setup`. -/
def Machine.setUp : Machine :=
  pageSetup .sample (fun _ => 0) (fun _ => 0xFF) ⟨fun _ => 0xFF, bootDirectory, fun _ _ => 0⟩

/-- The same after the page at 1 GiB has been mapped. -/
def Machine.onePage : Machine := (pageMap .sample 0x600000 0x40000000 3 .setUp).2

/-- The page at 1 GiB + 4 MiB is mapped too, and unmapped with the word `0x4F8001`. -/
def Machine.sharedTable : Machine :=
  (pageUnmap .sample 0x40400000 0x4F8001 (pageMap .sample 0x601000 0x40400000 3 .onePage).2).2

theorem pageStep_unmap {L : Layout} {va : Nat} (m : Machine) (hva : Mappable va) (flag : Nat) :
    pageStep L ⟨m, []⟩ (.unmap va flag) ⟨(pageUnmap L va flag m).2, []⟩ := ⟨hva, rfl, rfl⟩

theorem eq_of_fst_eq_zero {σ : Type*} {r : Int × σ} (h : r.1 = 0) : r = (0, r.2) := Prod.ext h rfl

theorem run_onePage : Run (fun s op t => pageStep .sample s op t ∧ NotPresentFlag op)
    ⟨.setUp, []⟩ [.map 0x600000 0x40000000 3] ⟨.onePage, []⟩ :=
  .single ⟨⟨by decide, by decide, ⟨by decide, by decide, by decide⟩, rfl, rfl⟩, trivial⟩

/-- A word with `PAGE_PRESENT` that `page_unmap` leaves in the directory names the table that the
first `page_map` made for another entry. -/
theorem unmap_shares_a_table :
    Run (pageStep .sample) ⟨.setUp, []⟩ [.map 0x600000 0x40000000 3, .map 0x601000 0x40400000 3,
        .unmap 0x40400000 0x4F8001] ⟨.sharedTable, []⟩ ∧
      Machine.sharedTable.pageDirectory 256 = Machine.onePage.pageDirectory 256 ∧
      Machine.sharedTable.pageDirectory 256 &&& PAGE_PRESENT ≠ 0 ∧
      Machine.sharedTable.pageDirectory 257 &&& PAGE_PRESENT ≠ 0 ∧
      tableFrame .sharedTable 257 = tableFrame .sharedTable 256 := by
  refine ⟨.cons (t := ⟨.onePage, []⟩) ?_ (.cons
    (t := ⟨(pageMap .sample 0x601000 0x40400000 3 .onePage).2, []⟩) ?_ (.single ?_)),
    by decide +kernel, by decide +kernel, by decide +kernel, by decide +kernel⟩
  · exact ⟨by decide, by decide, ⟨by decide, by decide, by decide⟩, rfl, rfl⟩
  · exact ⟨by decide, by decide, ⟨by decide, by decide, by decide⟩, rfl, rfl⟩
  · exact pageStep_unmap _ ⟨by decide, by decide, by decide⟩ _

/-- After one `page_map` its table is owned, and unmapping the page gives the frame back. -/
theorem one_page_owns_its_table :
    TablesOwned .onePage ∧
      UnmapLaw .sample .onePage 0x40000000 (pageUnmap .sample 0x40000000 PAGE_NOTHING .onePage).2 := by
  have h := tables_own_their_frames .sample (fun _ => 0) (fun _ => 0xFF)
    ⟨fun _ => 0xFF, bootDirectory, fun _ _ => 0⟩ rfl _ _ run_onePage
  have hok : (pageUnmap .sample 0x40000000 PAGE_NOTHING .onePage).1 = 0 := by decide +kernel
  exact ⟨h.1, h.2 0x40000000 PAGE_NOTHING _ ⟨by decide, by decide, by decide⟩ (by decide)
    (eq_of_fst_eq_zero hok)⟩

end Moonlight
