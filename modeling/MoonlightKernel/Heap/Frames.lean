import MoonlightKernel.Heap.Safety
import MoonlightKernel.TableFrames

/-!
# The frames behind the heap

The heap over the real frame allocator and the real page tables (`machineBacking`).  `Backed`
accounts for every frame: which virtual pages of the heap are backed (`D`), by which frames
(`F`), and which frames the heap owns (`Own`); every other frame is as it was at the start, or
has become a page table.

* `Backed.get`, `Backed.map`, `Backed.query`, `Backed.release` — one call of each kind;
* `Backed.kgrow`, `Backed.vgrow` — the backing of a new region;
* `Backed.kdrop`, `Backed.vdrop` — what the coalescers give back.

Heap memory is kept by virtual address, so what a fresh page shows is a parameter `word`.
-/

set_option autoImplicit false

namespace Moonlight

open Sys Sys.Bitmap

/-- The real calls behind the heap. -/
def machineBacking (L : Layout) (word : Machine → Nat → Nat) : Backing Machine where
  getPhysBlock n m := ((getPhysBlock n m.mmBitmap).1, m.setBitmap (getPhysBlock n m.mmBitmap).2)
  freePhysBlock a n m := m.setBitmap (freePhysBlock a n m.mmBitmap)
  pageMap := pageMap L
  pageMapRange := pageMapRange L
  pageGetPhys := pageGetPhys L
  word := word

/-- A page of the heap window. -/
def HeapPage (L : Layout) (v : Nat) : Prop :=
  HEAP_START L / 4096 ≤ v ∧ v < HEAP_END L / 4096

theorem HeapPage.kernelDir_lt {L : Layout} {v : Nat} (h : HeapPage L v) :
    KERNEL_POS >>> 22 < dirIndex (v * 4096) ∧ dirIndex (v * 4096) < 1024 := by
  have hL := HEAP_START_bounds L
  have hk := L.kernelPage_mem
  have hp := PAGE_ALIGN_spec (p := L.kernelEnd) (by have := L.kernelEnd_le; omega)
  have hs : HEAP_START L = 0x400000 + PAGE_ALIGN L.kernelEnd := rfl
  have hd : KERNEL_POS >>> 22 = 768 := by decide
  unfold HeapPage at h
  rw [dirIndex_eq, hd]
  omega

theorem HeapPage.pageDir {L : Layout} {v : Nat} (h : HeapPage L v) :
    PageDir (dirIndex (v * 4096)) := by
  obtain ⟨hlo, hhi⟩ := h.kernelDir_lt
  exact ⟨hhi, Nat.ne_of_gt hlo⟩

/-- A page table that the directory of `m₀` did not have. -/
def NewTable (m₀ m : Machine) (d : Nat) : Prop := PageDir d ∧ ¬ HasTable m₀ d ∧ HasTable m d

/-- Frame `f` is none of the new page tables. -/
def NotTable (m₀ m : Machine) (f : Nat) : Prop := ∀ d, NewTable m₀ m d → tableFrame m d ≠ f

/-- The account of the frames in `m`, from the start in `m₀`. -/
structure Backed (L : Layout) (m₀ m : Machine) (D : Nat → Prop) (F : Nat → Nat)
    (Own : Nat → Prop) : Prop where
  tables₀ : TablesOk L m₀
  tables : TablesOk L m
  dir : ∀ d, HasTable m₀ d → m.pageDirectory d = m₀.pageDirectory d
  window : ∀ v, D v → HeapPage L v
  view : ∀ v, D v → entryView (slot L m (v * 4096)) = some (F v * 4096)
  own : ∀ v, D v → Own (F v)
  initial : ∀ f, Own f → isFree m₀.mmBitmap f = true ∧ NotTable m₀ m f
  bounded : ∀ f, Own f → f < 2 ^ 20
  free : ∀ f, isFree m.mmBitmap f = true ↔
    isFree m₀.mmBitmap f = true ∧ ¬ Own f ∧ NotTable m₀ m f

namespace Backed

variable {L : Layout} {m₀ m m' : Machine} {D D' : Nat → Prop} {F F' : Nat → Nat}
  {Own Own' : Nat → Prop}

theorem start (h : TablesOk L m₀) : Backed L m₀ m₀ (fun _ => False) F fun _ => False where
  tables₀ := h
  tables := h
  dir _ _ := rfl
  window _ hv := hv.elim
  view _ hv := hv.elim
  own _ hv := hv
  initial _ hf := hf.elim
  bounded _ hf := hf.elim
  free f := by
    have : NotTable m₀ m₀ f := fun d hd => absurd hd.2.2 hd.2.1
    simp [this]

/-- The same account in other words. -/
theorem congr (h : Backed L m₀ m D F Own) (hD : ∀ v, D' v ↔ D v) (hF : ∀ v, D' v → F' v = F v)
    (hO : ∀ f, Own' f ↔ Own f) : Backed L m₀ m D' F' Own' where
  tables₀ := h.tables₀
  tables := h.tables
  dir := h.dir
  window v hv := h.window v ((hD v).mp hv)
  view v hv := by rw [hF v hv]; exact h.view v ((hD v).mp hv)
  own v hv := by rw [hF v hv]; exact (hO _).mpr (h.own v ((hD v).mp hv))
  initial f hf := h.initial f ((hO f).mp hf)
  bounded f hf := h.bounded f ((hO f).mp hf)
  free f := by rw [h.free, hO]

/-- Memory may change, as long as no page table does. -/
theorem congr_ram (h : Backed L m₀ m D F Own) (hdir : m'.pageDirectory = m.pageDirectory)
    (hbm : m'.mmBitmap = m.mmBitmap) (hslot : ∀ v, D v → slot L m' (v * 4096) = slot L m (v * 4096)) :
    Backed L m₀ m' D F Own := by
  have hht : ∀ d, HasTable m' d ↔ HasTable m d := fun d => hasTable_congr (by rw [hdir])
  have htf : ∀ d, tableFrame m' d = tableFrame m d := fun d => tableFrame_congr (by rw [hdir])
  have hnt : ∀ f, NotTable m₀ m' f ↔ NotTable m₀ m f := fun f => by
    unfold NotTable NewTable; simp only [hht, htf]
  exact {
    tables₀ := h.tables₀
    tables := h.tables.congr hdir fun d hd ht => by rw [hbm]; exact h.tables.taken d hd ht
    dir := fun d hd => by rw [hdir]; exact h.dir d hd
    window := h.window
    view := fun v hv => by rw [hslot v hv]; exact h.view v hv
    own := h.own
    initial := fun f hf => by rw [hnt]; exact h.initial f hf
    bounded := h.bounded
    free := fun f => by rw [hbm, hnt]; exact h.free f }

theorem swapTo (h : Backed L m₀ m D F Own) (f : Nat) : Backed L m₀ (m.swapTo L f) D F Own :=
  h.congr_ram rfl rfl fun _ _ => slot_swapTo _ _ _ _

/-- Frames that the heap owns are no page tables. -/
theorem tableFrame_ne (h : Backed L m₀ m D F Own) {d f : Nat} (hd : PageDir d) (ht : HasTable m d)
    (hf : Own f) : tableFrame m d ≠ f := by
  by_cases hd₀ : HasTable m₀ d
  · intro heq
    have h1 := h.tables₀.taken d hd hd₀
    rw [← tableFrame_congr (h.dir d hd₀), heq, (h.initial f hf).1] at h1
    exact Bool.noConfusion h1
  · exact (h.initial f hf).2 d ⟨hd, hd₀, ht⟩

/-- The bitmap changes; no table is affected. -/
theorem setBitmap (h : Backed L m₀ m D F Own) {bm : Bytes} (hD : ∀ v, D' v → D v)
    (hown : ∀ v, D' v → Own' (F v))
    (hinit : ∀ f, Own' f → isFree m₀.mmBitmap f = true ∧ NotTable m₀ m f)
    (hlt : ∀ f, Own' f → f < 2 ^ 20)
    (hfree : ∀ f, isFree bm f = true ↔ isFree m₀.mmBitmap f = true ∧ ¬ Own' f ∧ NotTable m₀ m f) :
    Backed L m₀ (m.setBitmap bm) D' F Own' where
  tables₀ := h.tables₀
  tables := by
    refine h.tables.congr rfl fun d hd ht => ?_
    show isFree bm _ = false
    rw [← Bool.not_eq_true, hfree]
    rintro ⟨h1, -, h3⟩
    by_cases hd₀ : HasTable m₀ d
    · have := h.tables₀.taken d hd hd₀
      rw [← tableFrame_congr (h.dir d hd₀), h1] at this
      exact Bool.noConfusion this
    · exact h3 d ⟨hd, hd₀, ht⟩ rfl
  dir := h.dir
  window v hv := h.window v (hD v hv)
  view v hv := (congrArg entryView (slot_congr rfl rfl)).trans (h.view v (hD v hv))
  own := hown
  initial := hinit
  bounded := hlt
  free := hfree

/-- **`get_phys_block`**: the frames handed out are owned from now on, and nothing else owned
them. -/
theorem get (h : Backed L m₀ m D F Own) {p n : Nat} (hp : p + n < 2 ^ 20)
    (hfree : ∀ q, p ≤ q → q < p + n → isFree m.mmBitmap q = true) :
    Backed L m₀ (m.setBitmap (clearRun p n m.mmBitmap)) D F
        (fun f => Own f ∨ p ≤ f ∧ f < p + n) ∧
      ∀ q, p ≤ q → q < p + n → ¬ Own q := by
  have hq : ∀ q, p ≤ q → q < p + n → _ := fun q h1 h2 => (h.free q).mp (hfree q h1 h2)
  refine ⟨h.setBitmap (fun _ hv => hv) (fun v hv => .inl (h.own v hv)) ?_ ?_ fun f => ?_,
    fun q h1 h2 => (hq q h1 h2).2.1⟩
  · rintro f (hf | ⟨h1, h2⟩)
    · exact h.initial f hf
    · exact ⟨(hq f h1 h2).1, (hq f h1 h2).2.2⟩
  · rintro f (hf | ⟨h1, h2⟩)
    · exact h.bounded f hf
    · omega
  · rw [isFree, isSet_clearRun, Bool.and_eq_true, Bool.not_eq_true', decide_eq_false_iff_not,
      ← isFree, h.free f, not_or]
    exact ⟨fun k => ⟨k.1.1, ⟨k.1.2.1, k.2⟩, k.1.2.2⟩, fun k => ⟨⟨k.1, k.2.1.1, k.2.2⟩, k.2.1.2⟩⟩

/-- **`free_phys_block`** on frames that the heap owns and that back no page any more. -/
theorem release (h : Backed L m₀ m D F Own) {p n : Nat} (hp : p + n ≤ 2 ^ 20)
    (hown : ∀ q, p ≤ q → q < p + n → Own q) (hD : ∀ v, D' v → D v)
    (hF : ∀ v, D' v → ¬ (p ≤ F v ∧ F v < p + n)) :
    Backed L m₀ (m.setBitmap (freePhysBlock (p * 4096) n m.mmBitmap)) D' F
      fun f => Own f ∧ ¬ (p ≤ f ∧ f < p + n) := by
  refine h.setBitmap hD (fun v hv => ⟨h.own v (hD v hv), hF v hv⟩) (fun f hf => h.initial f hf.1)
    (fun f hf => h.bounded f hf.1) fun f => ?_
  have hdiv : p * 4096 / 4096 = p := Nat.mul_div_cancel _ (by decide)
  rw [isFree_freePhysBlock (by omega), hdiv, Bool.or_eq_true, decide_eq_true_eq, h.free f]
  by_cases hf : p ≤ f ∧ f < p + n
  · have hi := h.initial f (hown f hf.1 hf.2)
    exact ⟨fun _ => ⟨hi.1, fun k => k.2 hf, hi.2⟩, fun _ => .inr hf⟩
  · simp [hf]

/-- **`page_get_phys`** answers the frame of a backed page. -/
theorem query (h : Backed L m₀ m D F Own) {v : Nat} (hv : D v) :
    (pageGetPhys L (v * 4096) m).1 = F v * 4096 ∧
      Backed L m₀ (pageGetPhys L (v * 4096) m).2 D F Own := by
  refine ⟨pageGetPhys_of_entryView (h.view v hv), ?_⟩
  rw [pageGetPhys_state]
  split
  · exact h.swapTo _
  · exact h

theorem notTable_map {va pa : Nat} (h : Backed L m₀ m D F Own) (hd : PageDir (dirIndex va))
    (hm : Mapped L m va pa m') (f : Nat) : NotTable m₀ m' f ↔
      NotTable m₀ m f ∧ (HasTable m (dirIndex va) ∨ f ≠ tableFrame m' (dirIndex va)) := by
  have hsame : ∀ d, d ≠ dirIndex va ∨ HasTable m d →
      (HasTable m' d ↔ HasTable m d) ∧ tableFrame m' d = tableFrame m d := fun d hk =>
    ⟨hasTable_congr (hm.dir d hk), tableFrame_congr (hm.dir d hk)⟩
  constructor
  · refine fun k => ⟨fun d ⟨hd, hd₀, ht⟩ => ?_, ?_⟩
    · have hs := hsame d (.inr ht)
      rw [← hs.2]; exact k d ⟨hd, hd₀, hs.1.mpr ht⟩
    · refine (Classical.em _).imp_right fun hno heq => ?_
      have hno₀ : ¬ HasTable m₀ (dirIndex va) := fun k₀ => hno ((hasTable_congr (h.dir _ k₀)).mpr k₀)
      exact k _ ⟨hd, hno₀, hm.hasTable⟩ heq.symm
  · rintro ⟨k1, k2⟩ d ⟨hd, hd₀, ht⟩
    by_cases hk : d ≠ dirIndex va ∨ HasTable m d
    · have hs := hsame d hk
      rw [hs.2]; exact k1 d ⟨hd, hd₀, hs.1.mp ht⟩
    · rw [not_or, not_not] at hk
      obtain ⟨rfl, hno⟩ := hk
      exact (k2.resolve_left hno).symm

/-- **`page_map`** of an owned frame at a heap page. -/
theorem map (h : Backed L m₀ m D F Own) {v f : Nat} (hv : HeapPage L v) (hf : Own f)
    (hmap : pageMap L (f * 4096) (v * 4096) (PAGE_WRITE ||| PAGE_PRESENT) m = (0, m')) :
    Backed L m₀ m' (fun w => D w ∨ w = v) (fun w => if w = v then f else F w) Own := by
  have hlt := h.bounded f hf
  have hm := pageMap_mapped h.tables hv.pageDir (by omega) (by decide) hmap
  have hnt := h.notTable_map hv.pageDir hm
  -- the frame of a fresh table was free, so the heap does not own it
  have hown : ∀ g, Own g → HasTable m (dirIndex (v * 4096)) ∨
      g ≠ tableFrame m' (dirIndex (v * 4096)) := fun g hg =>
    (Classical.em _).imp_right fun hno heq => ((h.free _).mp (hm.fresh hno)).2.1 (heq ▸ hg)
  exact {
    tables₀ := h.tables₀
    tables := hm.tables
    dir := fun d hd => by
      rw [hm.dir d (.inr ((hasTable_congr (h.dir d hd)).mpr hd)), h.dir d hd]
    window := fun w hw => hw.elim (h.window w) fun he => he ▸ hv
    view := fun w hw => by
      by_cases he : w = v
      · rw [if_pos he, he]; exact hm.view
      · have hw' := hw.resolve_right he
        rw [if_neg he, hm.others _ (h.window w hw').pageDir (by omega)
          (hasTable_of_view (h.view w hw'))]
        exact h.view w hw'
    own := fun w hw => by
      by_cases he : w = v
      · rw [if_pos he]; exact hf
      · rw [if_neg he]; exact h.own w (hw.resolve_right he)
    initial := fun g hg => ⟨(h.initial g hg).1, (hnt g).mpr ⟨(h.initial g hg).2, hown g hg⟩⟩
    bounded := h.bounded
    free := fun g => by
      rw [hm.bitmap, h.free, hnt]
      exact ⟨fun k => ⟨k.1.1, k.1.2.1, k.1.2.2, k.2⟩, fun k => ⟨⟨k.1, k.2.1, k.2.2.1⟩, k.2.2.2⟩⟩ }

end Backed

/-! ## New regions -/

/-- The pages `v, …, v + n - 1`. -/
def InRun (v n w : Nat) : Prop := v ≤ w ∧ w < v + n

instance (v n w : Nat) : Decidable (InRun v n w) := inferInstanceAs (Decidable (_ ∧ _))

/-- The run of pages at `v` is backed by `F'` now, with frames of its own. -/
structure Grown (L : Layout) (m₀ m' : Machine) (D : Nat → Prop) (F : Nat → Nat)
    (Own : Nat → Prop) (v n : Nat) (F' : Nat → Nat) : Prop where
  backed : Backed L m₀ m' (fun w => D w ∨ InRun v n w) F'
    fun f => Own f ∨ ∃ w, InRun v n w ∧ F' w = f
  old : ∀ w, ¬ InRun v n w → F' w = F w
  fresh : ∀ w, InRun v n w → ¬ Own (F' w)
  inj : ∀ w w', InRun v n w → InRun v n w' → F' w = F' w' → w = w'

variable {L : Layout} {m₀ m m' : Machine} {D : Nat → Prop} {F : Nat → Nat} {Own : Nat → Prop}
  {word : Machine → Nat → Nat}

namespace Grown

variable {v n : Nat} {F' : Nat → Nat}

/-- The frames of the pages of before and of the run. -/
theorem frame_iff (h : Grown L m₀ m' D F Own v n F') (hno : ∀ w, D w → ¬ InRun v n w)
    (hown : ∀ f, Own f ↔ ∃ w, D w ∧ F w = f) (f : Nat) :
    (∃ w, (D w ∨ InRun v n w) ∧ F' w = f) ↔ Own f ∨ ∃ w, InRun v n w ∧ F' w = f := by
  constructor
  · rintro ⟨w, hw | hw, rfl⟩
    · exact .inl ((hown _).mpr ⟨w, hw, (h.old w (hno w hw)).symm⟩)
    · exact .inr ⟨w, hw, rfl⟩
  · rintro (hf | ⟨w, hw, rfl⟩)
    · obtain ⟨w, hw, rfl⟩ := (hown f).mp hf
      exact ⟨w, .inl hw, h.old w (hno w hw)⟩
    · exact ⟨w, .inr hw, rfl⟩

/-- No frame backs two pages. -/
theorem injective (h : Grown L m₀ m' D F Own v n F') (hno : ∀ w, D w → ¬ InRun v n w)
    (hown : ∀ f, Own f ↔ ∃ w, D w ∧ F w = f) (hinj : ∀ w w', D w → D w' → F w = F w' → w = w')
    {w w' : Nat} (hw : D w ∨ InRun v n w) (hw' : D w' ∨ InRun v n w') (he : F' w = F' w') :
    w = w' := by
  have hcross : ∀ w w', D w → InRun v n w' → F' w ≠ F' w' := fun w w' hw hw' he =>
    h.fresh w' hw' ((hown _).mpr ⟨w, hw, (h.old w (hno w hw)).symm.trans he⟩)
  rcases hw with hw | hw
  · rcases hw' with hw' | hw'
    · exact hinj w w' hw hw' (by rw [← h.old w (hno w hw), ← h.old w' (hno w' hw'), he])
    · exact absurd he (hcross w w' hw hw')
  · rcases hw' with hw' | hw'
    · exact absurd he.symm (hcross w' w hw' hw)
    · exact h.inj w w' hw hw' he

end Grown

/-- The loop of `page_map_range` over a run of owned frames. -/
theorem backed_pageMapLoop {v p : Nat} : ∀ (k i : Nat) {m : Machine} {j : Nat},
    v + i + k < 2 ^ 20 → p + i + k < 2 ^ 20 → (∀ w, InRun v (i + k) w → HeapPage L w) →
    (∀ q, InRun p (i + k) q → Own q) →
    Backed L m₀ m (fun w => D w ∨ InRun v i w) (fun w => if InRun v i w then p + (w - v) else F w)
      Own →
    pageMapLoop L (p * 4096) (v * 4096) (PAGE_WRITE ||| PAGE_PRESENT) k i m = (0, j, m') →
    Backed L m₀ m' (fun w => D w ∨ InRun v (i + k) w)
      (fun w => if InRun v (i + k) w then p + (w - v) else F w) Own := by
  intro k
  induction k with
  | zero =>
    intro i m j _ _ _ _ hb h
    cases h
    exact hb
  | succ k ih =>
    intro i m j hv hp hheap hown hb h
    unfold InRun at hheap hown
    rw [pageMapLoop] at h
    rw [shiftLeft_page, add32_of_lt (by omega), add32_of_lt (by omega), ← Nat.add_mul,
      ← Nat.add_mul] at h
    split at h
    · rename_i hne
      exact absurd (congrArg Prod.fst h) hne
    · rename_i hz
      have hstep := hb.map (f := p + i) (hheap (v + i) (by omega)) (hown _ (by omega))
        (Prod.ext (not_not.mp hz) rfl)
      rw [show i + (k + 1) = i + 1 + k by omega]
      refine ih (i + 1) (by omega) (by omega) (fun w hw => hheap w ?_) (fun q hq => hown q ?_)
        (hstep.congr (fun w => ?_) (fun w hw => ?_) fun f => Iff.rfl) h
      · unfold InRun at hw; omega
      · unfold InRun at hq; omega
      · rw [or_assoc]; exact or_congr_right (by unfold InRun; omega)
      · have hsplit : InRun v (i + 1) w ↔ w = v + i ∨ InRun v i w := by unfold InRun; omega
        by_cases he : w = v + i
        · rw [if_pos he, if_pos (hsplit.mpr (.inl he))]; omega
        · simp only [hsplit, he, false_or, if_false]

/-- **A region of `kmalloc`** is backed by consecutive frames. -/
theorem Backed.kgrow (h : Backed L m₀ m D F Own) {v n : Nat}
    (hheap : ∀ w, InRun v n w → HeapPage L w) (hv : v + n < 2 ^ 20)
    (hg : KGrow (machineBacking L word) (v * 4096) n m m') :
    ∃ F', Grown L m₀ m' D F Own v n F' ∧ ∀ i, i < n → F' (v + i) = F' v + i := by
  obtain ⟨hne, hmap⟩ := hg
  rcases getPhysBlock_spec n m.mmBitmap with hget | ⟨p, hget, -, hhi, hfree⟩
  · exact absurd (congrArg Prod.fst hget) hne
  · obtain ⟨hb, hfresh⟩ := h.get hhi hfree
    unfold machineBacking at hmap
    dsimp only at hmap
    rw [hget] at hmap
    unfold pageMapRange at hmap
    dsimp only at hmap
    split at hmap
    · rename_i hr
      exact absurd (congrArg Prod.fst hmap) hr
    · rename_i hr
      have hend : pageMapLoop L (p * 4096) (v * 4096) (PAGE_WRITE ||| PAGE_PRESENT) n 0
          (m.setBitmap (clearRun p n m.mmBitmap)) = (0, (pageMapLoop L (p * 4096) (v * 4096)
            (PAGE_WRITE ||| PAGE_PRESENT) n 0 (m.setBitmap (clearRun p n m.mmBitmap))).2.1, m') := by
        exact Prod.ext (not_not.mp hr) (Prod.ext rfl (congrArg (fun r => r.2) hmap))
      have hloop := backed_pageMapLoop n 0 (by omega) (by omega) (by simpa using hheap)
        (fun q hq => .inr (by unfold InRun at hq; omega))
        (hb.congr (fun w => or_iff_left (by unfold InRun; omega))
          (fun w _ => if_neg (by unfold InRun; omega)) fun f => Iff.rfl) hend
      rw [Nat.zero_add] at hloop
      have hin : ∀ w, InRun v n w →
          (if InRun v n w then p + (w - v) else F w) = p + (w - v) := fun w hw => if_pos hw
      refine ⟨_, ⟨hloop.congr (fun w => Iff.rfl) (fun w _ => rfl) fun f => ?_, fun w hw => if_neg hw,
        fun w hw => ?_, fun w w' hw hw' he => ?_⟩, fun i hi => ?_⟩
      · refine or_congr_right ⟨?_, fun hf => ⟨v + (f - p), ?_, ?_⟩⟩
        · rintro ⟨w, hw, rfl⟩
          rw [hin w hw]; unfold InRun at hw; omega
        · unfold InRun; omega
        · rw [hin _ (by unfold InRun; omega)]; omega
      · rw [hin w hw]; unfold InRun at hw; exact hfresh _ (by omega) (by omega)
      · rw [hin w hw, hin w' hw'] at he; unfold InRun at hw hw'; omega
      · rw [hin _ (by unfold InRun; omega), hin _ (by unfold InRun; omega)]; omega

/-- An empty run needs nothing. -/
theorem Backed.grown_zero (h : Backed L m₀ m D F Own) (v : Nat) : Grown L m₀ m D F Own v 0 F := by
  have hno : ∀ w, ¬ InRun v 0 w := fun w hw => by unfold InRun at hw; omega
  refine ⟨h.congr (fun w => or_iff_left (hno w)) (fun _ _ => rfl) fun f => ?_, fun _ _ => rfl, ?_, ?_⟩
  · refine or_iff_left ?_
    rintro ⟨w, hw, -⟩
    exact hno w hw
  · intro w hw; exact absurd hw (hno w)
  · intro w w' hw; exact absurd hw (hno w)

/-- One page backed by the frame `p`, which nothing owned, and the run after it. -/
theorem Grown.cons {v n p : Nat} {F' : Nat → Nat} (hfresh : ¬ Own p)
    (h : Grown L m₀ m (fun w => D w ∨ w = v) (fun w => if w = v then p else F w)
      (fun f => Own f ∨ p ≤ f ∧ f < p + 1) (v + 1) n F') : Grown L m₀ m D F Own v (n + 1) F' := by
  have hpp : ∀ f, p ≤ f ∧ f < p + 1 ↔ f = p := fun f => by omega
  have hsplit : ∀ w, InRun v (n + 1) w ↔ w = v ∨ InRun (v + 1) n w := fun w => by
    unfold InRun; omega
  have hFv : F' v = p := by
    rw [h.old v (by unfold InRun; omega), if_pos rfl]
  refine ⟨h.backed.congr (fun w => ?_) (fun _ _ => rfl) (fun f => ?_), fun w hw => ?_,
    fun w hw => ?_, fun w w' hw hw' he => ?_⟩
  · rw [hsplit, or_assoc]
  · rw [hpp, or_assoc]
    refine or_congr_right ⟨?_, ?_⟩
    · rintro ⟨w, hw, rfl⟩
      rcases (hsplit w).mp hw with rfl | hw
      · exact .inl hFv
      · exact .inr ⟨w, hw, rfl⟩
    · rintro (rfl | ⟨w, hw, rfl⟩)
      · exact ⟨v, (hsplit v).mpr (.inl rfl), hFv⟩
      · exact ⟨w, (hsplit w).mpr (.inr hw), rfl⟩
  · rw [hsplit, not_or] at hw
    rw [h.old w hw.2, if_neg hw.1]
  · rcases (hsplit w).mp hw with rfl | hw
    · rw [hFv]; exact hfresh
    · exact fun k => h.fresh w hw (.inl k)
  · -- the first frame is owned before the others are taken
    have hne : ∀ w, InRun (v + 1) n w → F' w ≠ p := fun w hw heq =>
      h.fresh w hw (.inr (by rw [heq]; omega))
    rcases (hsplit w).mp hw with rfl | hw <;> rcases (hsplit w').mp hw' with rfl | hw'
    · rfl
    · exact absurd (he.symm.trans hFv) (hne w' hw')
    · exact absurd (he.trans hFv) (hne w hw)
    · exact h.inj w w' hw hw' he

/-- The mapping loop of `vmalloc` over the real calls. -/
theorem vmallocMap_succ (L : Layout) (word : Machine → Nat → Nat) (n a last : Nat) (m : Machine) :
    vmallocMap (machineBacking L word) (n + 1) a last m =
      let phys := getPhysBlock 1 m.mmBitmap
      let map := pageMap L phys.1 a (PAGE_WRITE ||| PAGE_PRESENT) (m.setBitmap phys.2)
      if phys.1 = 0 then .error (last, m.setBitmap phys.2)
      else if map.1 ≠ 0 then
        .error (last, map.2.setBitmap (freePhysBlock phys.1 1 map.2.mmBitmap))
      else vmallocMap (machineBacking L word) n (a + 4096) a map.2 := rfl

/-- **A region of `vmalloc`** is backed page by page. -/
theorem Backed.vgrow : ∀ (n : Nat) {v : Nat} {m : Machine} {D : Nat → Prop}
    {F : Nat → Nat} {Own : Nat → Prop} {last : Nat}, Backed L m₀ m D F Own →
    (∀ w, InRun v n w → HeapPage L w) →
    vmallocMap (machineBacking L word) n (v * 4096) last m = .ok m' →
    ∃ F', Grown L m₀ m' D F Own v n F' := by
  intro n
  induction n with
  | zero =>
    intro v m D F Own last h _ hg
    cases hg
    exact ⟨F, h.grown_zero v⟩
  | succ n ih =>
    intro v m D F Own last h hheap hg
    rw [vmallocMap_succ] at hg
    dsimp only at hg
    split at hg
    · cases hg
    rename_i hne
    rcases getPhysBlock_spec 1 m.mmBitmap with hget | ⟨p, hget, -, hhi, hfree⟩
    · exact absurd (congrArg Prod.fst hget) hne
    rw [hget] at hg
    dsimp only at hg
    split at hg
    · cases hg
    rename_i hz
    obtain ⟨hb, hfresh⟩ := h.get hhi hfree
    have hstep := hb.map (f := p) (hheap v (by unfold InRun; omega)) (.inr (by omega))
      (Prod.ext (not_not.mp hz) rfl)
    rw [show v * 4096 + 4096 = (v + 1) * 4096 by omega] at hg
    obtain ⟨F', hF'⟩ := ih hstep (fun w hw => hheap w (by unfold InRun at hw ⊢; omega)) hg
    exact ⟨F', .cons (hfresh p (by omega) (by omega)) hF'⟩

/-! ## Regions given back -/

/-- **`vdefrag`** gives the frames of a run of pages back one by one. -/
theorem Backed.vdrop (word : Machine → Nat → Nat) : ∀ (n : Nat) {v : Nat} {m : Machine} {D : Nat → Prop} {Own : Nat → Prop},
    Backed L m₀ m D F Own → (∀ w, InRun v n w → D w) →
    (∀ w w', D w → D w' → F w = F w' → w = w') →
    Backed L m₀ (VDrop (machineBacking L word) (v * 4096) n m) (fun w => D w ∧ ¬ InRun v n w) F
      fun f => Own f ∧ ∀ w, InRun v n w → F w ≠ f := by
  intro n
  induction n with
  | zero =>
    intro v m D Own h _ _
    refine h.congr (fun w => ?_) (fun _ _ => rfl) fun f => ?_
    · unfold InRun; exact and_iff_left (by omega)
    · exact and_iff_left fun w hw => by unfold InRun at hw; omega
  | succ n ih =>
    intro v m D Own h hD hinj
    have hv : D v := hD v (by unfold InRun; omega)
    obtain ⟨hq, hb⟩ := h.query hv
    have hlt := h.bounded _ (h.own v hv)
    have hpp : ∀ f, F v ≤ f ∧ f < F v + 1 ↔ f = F v := fun f => by omega
    have hstep : Backed L _ _ (fun w => D w ∧ w ≠ v) F _ := hb.release (p := F v) (n := 1) (by omega)
      (fun q h1 h2 => by rw [(hpp q).mp ⟨h1, h2⟩]; exact h.own v hv) (fun w hw => hw.1)
      (fun w hw => by rw [hpp]; exact fun he => hw.2 (hinj w v hw.1 hv he))
    have hrest := ih (v := v + 1) hstep
      (fun w hw => ⟨hD w (by unfold InRun at hw ⊢; omega), by unfold InRun at hw; omega⟩)
      (fun w w' hw hw' => hinj w w' hw.1 hw'.1)
    have hsplit : ∀ w, InRun v (n + 1) w ↔ w = v ∨ InRun (v + 1) n w := fun w => by
      unfold InRun; omega
    have hcode : VDrop (machineBacking L word) (v * 4096) (n + 1) m =
        VDrop (machineBacking L word) ((v + 1) * 4096) n ((pageGetPhys L (v * 4096) m).2.setBitmap
          (freePhysBlock (F v * 4096) 1 (pageGetPhys L (v * 4096) m).2.mmBitmap)) := by
      rw [← hq, Nat.add_mul, Nat.one_mul, VDrop, freeMapped]
      rfl
    rw [hcode]
    refine hrest.congr (fun w => ?_) (fun _ _ => rfl) fun f => ?_
    · rw [hsplit, not_or, and_assoc]
    · rw [hpp, and_assoc]
      refine and_congr_right fun _ => ?_
      simp only [hsplit, forall_eq_or_imp]
      exact and_congr_left fun _ => ne_comm

/-- **`kdefrag`** gives the frames of a run of pages back in one call, which is right for
consecutive frames. -/
theorem Backed.kdrop (h : Backed L m₀ m D F Own) {v n : Nat} (hn : 0 < n)
    (hD : ∀ w, InRun v n w → D w) (hinj : ∀ w w', D w → D w' → F w = F w' → w = w')
    (hrun : ∀ i, i < n → F (v + i) = F v + i) :
    Backed L m₀ (KDrop (machineBacking L word) (v * 4096) n m) (fun w => D w ∧ ¬ InRun v n w) F
      fun f => Own f ∧ ∀ w, InRun v n w → F w ≠ f := by
  have hv : D v := hD v (by unfold InRun; omega)
  obtain ⟨hq, hb⟩ := h.query hv
  have hlast := h.bounded _ (h.own (v + (n - 1)) (hD _ (by unfold InRun; omega)))
  rw [hrun _ (by omega)] at hlast
  have himage : ∀ f, (F v ≤ f ∧ f < F v + n) ↔ ∃ w, InRun v n w ∧ F w = f := by
    refine fun f => ⟨fun hf => ⟨v + (f - F v), by unfold InRun; omega, ?_⟩, ?_⟩
    · rw [hrun _ (by omega)]; omega
    · rintro ⟨w, hw, rfl⟩
      unfold InRun at hw
      have := hrun (w - v) (by omega)
      rw [show v + (w - v) = w by omega] at this
      omega
  have hstep : Backed L _ _ (fun w => D w ∧ ¬ InRun v n w) F _ := hb.release (p := F v) (n := n)
    (by omega)
    (fun q h1 h2 => by
      obtain ⟨w, hw, rfl⟩ := (himage q).mp ⟨h1, h2⟩
      exact h.own w (hD w hw))
    (fun w hw => hw.1)
    (fun w hw => by
      rw [himage]
      rintro ⟨w', hw', he⟩
      exact hw.2 (hinj w' w (hD w' hw') hw.1 he ▸ hw'))
  unfold KDrop machineBacking
  dsimp only
  rw [hq]
  refine hstep.congr (fun _ => Iff.rfl) (fun _ _ => rfl) fun f => and_congr_right fun _ => ?_
  rw [himage, not_exists]
  exact ⟨fun k w hw => k w hw.1 hw.2, fun k w hw he => k w ⟨hw, he⟩⟩

end Moonlight
