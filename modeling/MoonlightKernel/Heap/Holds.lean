import MoonlightKernel.Heap.Pages

/-!
# What heap pages hold

An allocation that needs a new region reserves a run of pages and maps it, or fails on the way and
unwinds.  The file says what either does to the pages of the window and to the frames, whatever
was mapped before.

* `BacksRun` — a run of pages is mapped to frames of its own: `backs_pageMapRange`,
  `backs_vmallocMap`;
* `Spares` — what a failed allocation leaves alone: `spares_kmalloc`, `spares_vmalloc`;
* `Holds` — the pages of a set name frames of their own that nobody else has, and what each of
  these does to that: `Holds.backed`, `Holds.spared`, `Holds.givenBack`.
-/

set_option autoImplicit false

namespace Moonlight

open Sys Sys.Bitmap

variable {L : Layout} {m m₁ m₂ m' : Machine} {word : Machine → Nat → Nat} {r : Int × Machine}

/-! ## A run of pages is backed -/

/-- A free run lies in the heap window. -/
theorem FreeRun.heapPage {bm : Bytes} {v k : Nat} (h : FreeRun L bm v k) {w : Nat}
    (hw : InRun (v / 4096) k w) : HeapPage L w := by
  have h1 := h.aligned
  have h2 := h.lo
  have h3 := h.hi
  have h4 := HEAP_START_bounds L
  unfold InRun at hw
  constructor <;> omega

/-- The pages `v, …, v + n - 1` are mapped in `m'` to frames of their own that were free in `m`. -/
structure BacksRun (L : Layout) (m m' : Machine) (v n : Nat) : Prop where
  opens : Opens L m m' (InRun v n) fun f => ∃ w, InRun v n w ∧ Names L m' w f
  named : ∀ w, InRun v n w → ∃ f, Names L m' w f ∧ isFree m.mmBitmap f = true
  apart : ∀ w w' f, InRun v n w → InRun v n w' → Names L m' w f → Names L m' w' f → w = w'

namespace BacksRun

theorem not_inRun_zero (v w : Nat) : ¬ InRun v 0 w := by
  unfold InRun
  omega

theorem inRun_succ {v n w : Nat} : InRun v (n + 1) w ↔ w = v ∨ InRun (v + 1) n w := by
  unfold InRun
  omega

theorem zero (h : Opens L m m' (fun _ => False) fun _ => False) (v : Nat) : BacksRun L m m' v 0 where
  opens := h.congr (fun w => iff_of_false (not_inRun_zero v w) id) fun _ =>
    iff_of_false (fun h => h.elim fun w hw => not_inRun_zero v w hw.1) id
  named w hw := absurd hw (not_inRun_zero v w)
  apart w _ _ hw := absurd hw (not_inRun_zero v w)

/-- A page mapped to a frame just taken, and a run after it. -/
theorem cons {v n p : Nat} (hv : HeapPage L v) (hfree : isFree m.mmBitmap p = true)
    (htake : Opens L m m₁ (fun _ => False) fun f => f = p)
    (hmap : Opens L m₁ m₂ (fun w => w = v) fun _ => False) (hname : Names L m₂ v p)
    (h : BacksRun L m₂ m' (v + 1) n) : BacksRun L m m' v (n + 1) := by
  have hout : ¬ InRun (v + 1) n v := by
    unfold InRun
    omega
  have hname' : Names L m' v p := h.opens.keeps v p hv hout hname
  have hone := htake.trans hmap
  -- the frame of the first page is not free when the others are taken
  have hused : isFree m₂.mmBitmap p ≠ true := fun hf =>
    ((hone.avail p).mp (.inl hf)).2 (.inl rfl)
  refine ⟨(hone.trans h.opens).congr (fun w => ?_) fun f => ?_, fun w hw => ?_,
    fun w w' f hw hw' hf hf' => ?_⟩
  · rw [inRun_succ, false_or]
  · simp only [inRun_succ]
    constructor
    · rintro ⟨w, rfl | hw, hf⟩
      · exact .inl (.inl (hf.unique hname'))
      · exact .inr ⟨w, hw, hf⟩
    · rintro ((rfl | hf) | ⟨w, hw, hf⟩)
      · exact ⟨v, .inl rfl, hname'⟩
      · exact hf.elim
      · exact ⟨w, .inr hw, hf⟩
  · rcases inRun_succ.mp hw with rfl | hw
    · exact ⟨p, hname', hfree⟩
    · obtain ⟨f, hf, hff⟩ := h.named w hw
      exact ⟨f, hf, hone.bitmap f hff⟩
  · have hfirst : ∀ u, InRun (v + 1) n u → ¬ Names L m' u p := fun u hu hup => by
      obtain ⟨g, hg, hgf⟩ := h.named u hu
      exact hused (hup.unique hg ▸ hgf)
    rcases inRun_succ.mp hw with rfl | hw <;> rcases inRun_succ.mp hw' with rfl | hw'
    · rfl
    · exact absurd (hf.unique hname' ▸ hf') (hfirst w' hw')
    · exact absurd (hf'.unique hname' ▸ hf) (hfirst w hw)
    · exact h.apart w w' f hw hw' hf hf'

end BacksRun

/-- **The pages of a `kmalloc`** that have been mapped name consecutive frames. -/
theorem backs_pageMapRange (hm : PagingOk L m) {v n p : Nat}
    (hheap : ∀ w, InRun v n w → HeapPage L w) (hp : p + n ≤ 2 ^ 20)
    (hfree : ∀ q, p ≤ q → q < p + n → isFree m.mmBitmap q = true)
    (h : pageMapRange L (p * 4096) (v * 4096) (PAGE_WRITE ||| PAGE_PRESENT) n
      (m.setBitmap (clearRun p n m.mmBitmap)) = (0, m')) :
    BacksRun L m m' v n ∧ ∀ w, InRun v n w → Names L m' w (p + (w - v)) := by
  have htake := opens_take hm hfree
  obtain ⟨-, -, hall, hopens, hnames⟩ := opens_pageMapLoop (v := v) (p := p) n 0 htake.paging
    (by rwa [Nat.zero_add]) (by omega)
  unfold pageMapRange at h
  dsimp only at h
  split at h
  · rename_i hne
    exact absurd (congrArg Prod.fst h) hne
  rename_i hz
  have hm' := congrArg Prod.snd h
  dsimp only at hm'
  rw [hall (not_not.mp hz), hm'] at hopens
  rw [hall (not_not.mp hz), hm'] at hnames
  have hname : ∀ w, InRun v n w → Names L m' w (p + (w - v)) := fun w hw =>
    hnames w (by unfold InRun at hw; omega) (by unfold InRun at hw; omega)
  refine ⟨⟨(htake.trans hopens).congr (fun w => ?_) fun f => ?_, fun w hw =>
    ⟨_, hname w hw, hfree _ (by omega) (by unfold InRun at hw; omega)⟩,
    fun w w' f hw hw' hf hf' => ?_⟩, hname⟩
  · rw [false_or, InRun, Nat.add_zero, Nat.zero_add]
  · constructor
    · rintro ⟨w, hw, hf⟩
      have := hf.unique (hname w hw)
      unfold InRun at hw
      exact .inl (by omega)
    · rintro (⟨h1, h2⟩ | hf)
      · have hin : InRun v n (v + (f - p)) := by
          unfold InRun
          omega
        have := hname _ hin
        rw [Nat.add_sub_cancel_left, Nat.add_sub_cancel' h1] at this
        exact ⟨_, hin, this⟩
      · exact hf.elim
  · have h1 := hf.unique (hname w hw)
    have h2 := hf'.unique (hname w' hw')
    unfold InRun at hw hw'
    omega

/-- **The mapping loop of `vmalloc`** has mapped a run of pages when it ends, the whole one if it
succeeds; if it fails, `last_virt_addr_mapped` is the last page of the run. -/
theorem backs_vmallocMap (word : Machine → Nat → Nat) : ∀ (n : Nat) {v : Nat} {m : Machine}
    {last : Nat}, PagingOk L m → (∀ w, InRun v n w → HeapPage L w) →
    ∃ i m', BacksRun L m m' v i ∧ i ≤ n ∧
      ((vmallocMap (machineBacking L word) n (v * 4096) last m = .ok m' ∧ i = n) ∨
        vmallocMap (machineBacking L word) n (v * 4096) last m =
          .error (if i = 0 then last else (v + i - 1) * 4096, m')) := by
  intro n
  induction n with
  | zero =>
    intro v m last hm _
    exact ⟨0, m, .zero (.refl hm) v, Nat.le_refl _, .inl ⟨rfl, rfl⟩⟩
  | succ n ih =>
    intro v m last hm hheap
    have hv : HeapPage L v := hheap v (by unfold InRun; omega)
    rw [vmallocMap_succ]
    rcases getPhysBlock_spec 1 m.mmBitmap with hget | ⟨p, hget, hlo, hhi, hfree⟩
    · -- no frame
      rw [hget]
      exact ⟨0, m, .zero (.refl hm) v, Nat.zero_le _, .inr rfl⟩
    have htake := (opens_take hm hfree).congr (fun _ => Iff.rfl)
      (show ∀ f, f = p ↔ p ≤ f ∧ f < p + 1 by omega)
    have hfree' : isFree m.mmBitmap p = true := hfree p (Nat.le_refl _) (by omega)
    rw [hget]
    dsimp only
    rw [if_neg (by omega)]
    split
    · -- the page cannot be mapped, and its frame goes back
      rename_i hne
      have hfail := htake.trans (opens_pageMap_error htake.paging hv (by omega) hne)
      have hback := givesBack_run hfail.paging (p := p) (n := 1) (by omega) fun f h1 h2 htab => by
        obtain rfl : f = p := by omega
        exact ((hfail.avail f).mp (.inr htab)).2 (.inl rfl)
      refine ⟨0, _, .zero ⟨hback.paging, fun f => ?_, fun f hf => ?_, fun d hd => ?_,
        fun f hk hf => ?_, fun w g hw _ hn => ?_, fun w g hw _ hc hn => ?_⟩ v, Nat.zero_le _, .inr rfl⟩
      · rw [hback.avail, hfail.avail]
        have : f = p → Avail m f := fun h => h ▸ .inl hfree'
        have hp : p ≤ f ∧ f < p + 1 ↔ f = p := by omega
        rw [hp]
        tauto
      · rcases (hback.bitmap f).mp hf with h | h
        · exact hfail.bitmap f h
        · obtain rfl : f = p := by omega
          exact hfree'
      · exact (congrFun hback.dir d).trans (hfail.dir d hd)
      · exact hfail.ram f hk fun k => hf ((isTableFrame_congr hback.dir f).mpr k)
      · exact (hback.names w g).mpr (hfail.keeps w g hw (by simp) hn)
      · refine hfail.adds w g hw (by simp) (fun hno ht => ?_) ((hback.names w g).mp hn)
        have hdir := congrFun hback.dir (dirIndex (w * 4096))
        rw [← tableFrame_congr hdir]
        exact hc hno ((hasTable_congr hdir).mpr ht)
    · rename_i hz
      have hok := eq_of_fst_eq_zero (not_not.mp hz)
      obtain ⟨hmap, hname⟩ := opens_pageMap htake.paging hv (by omega) hok
      rw [show v * 4096 + 4096 = (v + 1) * 4096 by omega]
      obtain ⟨i, m', hbacks, hi, hend⟩ := ih (v := v + 1) hmap.paging
        (fun w hw => hheap w (by unfold InRun at hw ⊢; omega))
      refine ⟨i + 1, m', .cons hv hfree' htake hmap hname hbacks, by omega, ?_⟩
      rcases hend with ⟨he, rfl⟩ | he
      · exact .inl ⟨he, rfl⟩
      · refine .inr (he.trans ?_)
        rw [if_neg (Nat.succ_ne_zero i)]
        split
        · rename_i h0
          rw [h0]
          rfl
        · rw [show v + 1 + i - 1 = v + (i + 1) - 1 by omega]

/-! ## Failed allocations -/

/-- What a failed allocation leaves alone: frames become no more available than they were, and the
pages outside `P` keep their names. -/
structure Spares (L : Layout) (m m' : Machine) (P : Nat → Prop) : Prop where
  paging : PagingOk L m'
  avail : ∀ f, Avail m' f → Avail m f
  keeps : ∀ w g, HeapPage L w → ¬ P w → Names L m w g → Names L m' w g

theorem Spares.refl (h : PagingOk L m) (P : Nat → Prop) : Spares L m m P :=
  ⟨h, fun _ hf => hf, fun _ _ _ _ hn => hn⟩

/-- No page names a frame that it did not name before, new page tables apart. -/
def NamesLess (L : Layout) (m m' : Machine) : Prop :=
  ∀ w g, HeapPage L w → ClearSlot m m' w → Names L m' w g → Names L m w g

/-- **A `kmalloc` that cannot map its pages** unmaps those it has mapped and gives `k` of its frames
back. -/
theorem spares_pageMapRange (hm : PagingOk L m) {v n p k : Nat}
    (hheap : ∀ w, InRun v n w → HeapPage L w) (hp : p + n ≤ 2 ^ 20)
    (hfree : ∀ q, p ≤ q → q < p + n → isFree m.mmBitmap q = true) (hk : k ≤ n)
    (h : pageMapRange L (p * 4096) (v * 4096) (PAGE_WRITE ||| PAGE_PRESENT) n
      (m.setBitmap (clearRun p n m.mmBitmap)) = r) (hne : r.1 ≠ 0) :
    Spares L m (r.2.setBitmap (freePhysBlock (p * 4096) k r.2.mmBitmap)) (InRun v n) ∧
      NamesLess L m (r.2.setBitmap (freePhysBlock (p * 4096) k r.2.mmBitmap)) := by
  have htake := opens_take hm hfree
  obtain ⟨-, hle, -, hopens, -⟩ := opens_pageMapLoop (v := v) (p := p) n 0 htake.paging
    (by rwa [Nat.zero_add]) (by omega)
  unfold pageMapRange at h
  dsimp only at h
  split at h
  case isFalse =>
    rw [← h] at hne
    exact absurd rfl hne
  generalize hloop : pageMapLoop L (p * 4096) (v * 4096) (PAGE_WRITE ||| PAGE_PRESENT) n 0
    (m.setBitmap (clearRun p n m.mmBitmap)) = loop at *
  have hall := htake.trans hopens
  have hunmap := unmaps_pageUnmapBack (v := v) loop.2.1 hall.paging fun w hw => hheap w (by
    unfold InRun at hw ⊢
    omega)
  have htab : ∀ f, p ≤ f → f < p + k → ¬ IsTableFrame (pageUnmapBack L (v * 4096) loop.2.1 loop.2.2) f :=
    fun f h1 h2 ht => ((hall.avail f).mp ((hunmap.moved.avail f).mp (.inr ht))).2
      (.inl ⟨h1, by omega⟩)
  have hback := givesBack_run hunmap.moved.paging (p := p) (n := k) (by omega) htab
  rw [← h]
  have hin : ∀ w, False ∨ v + 0 ≤ w ∧ w < v + loop.2.1 → InRun v loop.2.1 w := by
    rintro w (hf | hw)
    · exact hf.elim
    · exact hw
  refine ⟨⟨hback.paging, fun f hf => ?_, fun w g hw hp hn => ?_⟩, fun w g hw hc hn => ?_⟩
  · rcases (hback.avail f).mp hf with hf | ⟨h1, h2⟩
    · exact ((hall.avail f).mp ((hunmap.moved.avail f).mp hf)).1
    · exact .inl (hfree f h1 (by omega))
  · have hout : ¬ InRun v loop.2.1 w := fun hin => hp (by
      unfold InRun at hin ⊢
      omega)
    exact (hback.names w g).mpr ((hunmap.names w g hw).mpr
      ⟨hall.keeps w g hw (fun k => hout (hin w k)) hn, hout⟩)
  · have hn₁ := (hback.names w g).mp hn
    obtain ⟨hn₂, hout⟩ := (hunmap.names w g hw).mp hn₁
    refine hall.adds w g hw (fun k => hout (hin w k)) (fun hno ht => ?_) hn₂
    -- the table is there in the end, so it is the one that was opened
    have hdir := hunmap.dir _ hn₁.hasTable
    rw [← tableFrame_congr hdir, ← tableFrame_congr (congrFun hback.dir _)]
    exact hc hno hn.hasTable

/-- **A `vmalloc` that stops** after `i` pages gives the frames of all but the last of them back. -/
theorem BacksRun.spares {v i : Nat} (h : BacksRun L m m₁ v i) (word : Machine → Nat → Nat) :
    Spares L m (freeMapped (machineBacking L word) (i - 1) (v * 4096) m₁) (InRun v i) := by
  have hback := givesBack_freeMapped word (i - 1) h.opens.paging (v := v) fun w hw => by
    have hin : InRun v i w := by
      unfold InRun at hw ⊢
      omega
    obtain ⟨f, hf, -⟩ := h.named w hin
    exact ⟨f, hf, fun ht => ((h.opens.avail f).mp (.inr ht)).2 ⟨w, hin, hf⟩⟩
  refine ⟨hback.paging, fun f hf => ?_, fun w g hw hp hn => ?_⟩
  · rcases (hback.avail f).mp hf with hf | ⟨w, hw, hf⟩
    · exact ((h.opens.avail f).mp hf).1
    · obtain ⟨g, hg, hgf⟩ := h.named w (by unfold InRun at hw ⊢; omega)
      obtain rfl := hf.unique hg
      exact .inl hgf
  · exact (hback.names w g).mpr (h.opens.keeps w g hw hp hn)

/-! ## The calls of the heap -/

section calls

variable {v n k : Nat}

/-- **`kmalloc` backs a region** with consecutive frames. -/
theorem kgrow_backs (hm : PagingOk L m) (hheap : ∀ w, InRun v n w → HeapPage L w)
    (h : KGrow (machineBacking L word) (v * 4096) n m m') :
    BacksRun L m m' v n ∧ ∃ p, ∀ w, InRun v n w → Names L m' w (p + (w - v)) := by
  obtain ⟨hne, hmap⟩ := h
  unfold machineBacking at hne hmap
  dsimp only at hne hmap
  rcases getPhysBlock_spec n m.mmBitmap with hget | ⟨p, hget, -, hhi, hfree⟩
  · exact absurd (congrArg Prod.fst hget) hne
  · rw [hget] at hmap
    obtain ⟨hb, hnames⟩ := backs_pageMapRange hm hheap (Nat.le_of_lt hhi) hfree hmap
    exact ⟨hb, p, hnames⟩

/-- **`vmalloc` backs a region** page by page. -/
theorem vgrow_backs (hm : PagingOk L m) (hheap : ∀ w, InRun v n w → HeapPage L w)
    (h : VGrow (machineBacking L word) (v * 4096) n m m') : BacksRun L m m' v n := by
  obtain ⟨i, m₁, hb, -, hend⟩ := @backs_vmallocMap L word n v m (v * 4096) hm hheap
  unfold VGrow at h
  rcases hend with ⟨he, rfl⟩ | he
  · rw [h] at he
    cases he
    exact hb
  · rw [h] at he
    cases he

/-- **`kmalloc` fails to back a region.** -/
theorem kfail_spares (hm : PagingOk L m) (hheap : ∀ w, InRun v n w → HeapPage L w)
    (hk : n ≠ 0 → k ≤ n) (h : KFail (machineBacking L word) (v * 4096) n k m m') :
    Spares L m m' (InRun v n) ∧ NamesLess L m m' := by
  have hsame : Spares L m m (InRun v n) ∧ NamesLess L m m :=
    ⟨.refl hm _, fun _ _ _ _ hn => hn⟩
  unfold KFail machineBacking at h
  dsimp only at h
  rcases getPhysBlock_spec n m.mmBitmap with hget | ⟨p, hget, hlo, hhi, hfree⟩
  · rw [hget] at h
    rcases h with ⟨-, rfl⟩ | ⟨hne, -⟩
    · exact hsame
    · exact absurd rfl hne
  · rw [hget] at h
    rcases h with ⟨h0, -⟩ | ⟨-, hne, rfl⟩
    · dsimp only at h0
      omega
    · refine spares_pageMapRange hm hheap (Nat.le_of_lt hhi) hfree (hk ?_) rfl hne
      rintro rfl
      exact hne rfl

/-- **`vmalloc` fails to back a region**: it has mapped `i` pages, and gives the frames of all but
the last of them back. -/
theorem vfail_backs (hm : PagingOk L m) (hheap : ∀ w, InRun v n w → HeapPage L w)
    (h : VFail (machineBacking L word) (v * 4096) n k m m') :
    ∃ i m₁, i ≤ n ∧ BacksRun L m m₁ v i ∧
      m' = freeMapped (machineBacking L word) (i - 1) (v * 4096) m₁ ∧
      ∃ last, vmallocMap (machineBacking L word) n (v * 4096) (v * 4096) m = .error (last, m₁) ∧
        (v * 4096 < last ↔ 2 ≤ i) := by
  obtain ⟨last, s', he, rfl⟩ := h
  obtain ⟨i, m₁, hb, hi, hend⟩ := @backs_vmallocMap L word n v m (v * 4096) hm hheap
  rcases hend with ⟨he', -⟩ | he'
  · rw [he] at he'
    cases he'
  · rw [he] at he'
    obtain ⟨rfl, rfl⟩ := Prod.mk.inj (Except.error.inj he')
    refine ⟨i, s', hi, hb, ?_, _, he, ?_⟩
    · congr 1
      rw [shiftRight_page]
      split <;> omega
    · split <;> omega

end calls

/-! ## Frames held -/

/-- A page of the heap names what its table says. -/
theorem names_of_table {m m' : Machine} (hm : PagingOk L m)
    {w g : Nat} (hw : HeapPage L w)
    (hd : m'.pageDirectory (dirIndex (w * 4096)) = m.pageDirectory (dirIndex (w * 4096)))
    (hram : HasTable m (dirIndex (w * 4096)) →
      m'.ram (tableFrame m (dirIndex (w * 4096))) = m.ram (tableFrame m (dirIndex (w * 4096)))) :
    Names L m' w g ↔ Names L m w g := by
  unfold Names
  by_cases ht : HasTable m (dirIndex (w * 4096))
  · have hk := hm.notKernel _ hw.pageDir ht
    have hframe := tableFrame_congr hd
    rw [slot_of_table ht hk, slot_of_table ((hasTable_congr hd).mpr ht) (hframe ▸ hk), hframe,
      hram ht]
  · rw [slot_of_not_hasTable ht, slot_of_not_hasTable fun k => ht ((hasTable_congr hd).mp k)]

/-- Writes to frames that hold no page table leave every page as it is. -/
theorem names_of_store {m m' : Machine} (hm : PagingOk L m)
    (hdir : m'.pageDirectory = m.pageDirectory) (hram : ∀ f, IsTableFrame m f → m'.ram f = m.ram f)
    {w g : Nat} (hw : HeapPage L w) : Names L m' w g ↔ Names L m w g :=
  names_of_table hm hw (congrFun hdir _) fun ht => hram _ ⟨_, hw.pageDir, ht, rfl⟩

/-- The pages in `D` name frames of their own, which are neither free nor page tables. -/
structure Holds (L : Layout) (m : Machine) (D : Nat → Prop) : Prop where
  paging : PagingOk L m
  heap : ∀ v, D v → HeapPage L v
  named : ∀ v, D v → ∃ f, Names L m v f
  kept : ∀ v f, D v → Names L m v f → ¬ Avail m f
  apart : ∀ v w f, D v → D w → Names L m v f → Names L m w f → v = w

namespace Holds

variable {D D' : Nat → Prop} {v n : Nat}

/-- Pages that name what they named hold it still. -/
theorem spared (h : Holds L m D) {P : Nat → Prop} (hs : Spares L m m' P) (hD : ∀ w, D' w → D w)
    (hnamed : ∀ w, D' w → ∃ f, Names L m' w f)
    (hless : ∀ w f, D' w → Names L m' w f → Names L m w f) : Holds L m' D' where
  paging := hs.paging
  heap w hw := h.heap w (hD w hw)
  named := hnamed
  kept w f hw hn ha := h.kept w f (hD w hw) (hless w f hw hn) (hs.avail f ha)
  apart w w' f hw hw' hn hn' :=
    h.apart w w' f (hD w hw) (hD w' hw') (hless w f hw hn) (hless w' f hw' hn')

/-- Pages outside `P` hold what they held. -/
theorem spared_outside (h : Holds L m D) {P : Nat → Prop} (hs : Spares L m m' P)
    (hout : ∀ w, D w → ¬ P w) : Holds L m' D := by
  have hkeep : ∀ w, D w → ∃ f, Names L m w f ∧ Names L m' w f := fun w hw => by
    obtain ⟨f, hf⟩ := h.named w hw
    exact ⟨f, hf, hs.keeps w f (h.heap w hw) (hout w hw) hf⟩
  refine h.spared hs (fun _ hw => hw) (fun w hw => ?_) fun w f hw hn => ?_
  · obtain ⟨f, -, hf⟩ := hkeep w hw
    exact ⟨f, hf⟩
  · obtain ⟨g, hg, hg'⟩ := hkeep w hw
    exact hn.unique hg' ▸ hg

/-- A run of pages is backed. -/
theorem backed (h : Holds L m D) (hb : BacksRun L m m' v n) (hheap : ∀ w, InRun v n w → HeapPage L w) :
    Holds L m' fun w => D w ∨ InRun v n w := by
  have hkeep : ∀ w, D w → ¬ InRun v n w → ∀ f, Names L m' w f → Names L m w f := fun w hw hout f hf => by
    obtain ⟨g, hg⟩ := h.named w hw
    exact hf.unique (hb.opens.keeps w g (h.heap w hw) hout hg) ▸ hg
  have hcross : ∀ w w' f, D w → ¬ InRun v n w → InRun v n w' → Names L m' w f →
      ¬ Names L m' w' f := fun w w' f hw hout hw' hf hf' => by
    obtain ⟨g, hg, hgf⟩ := hb.named w' hw'
    exact h.kept w f hw (hkeep w hw hout f hf) (hf'.unique hg ▸ .inl hgf)
  refine ⟨hb.opens.paging, fun w hw => hw.elim (h.heap w) (hheap w), fun w hw => ?_,
    fun w f hw hf ha => ?_, fun w w' f hw hw' hf hf' => ?_⟩
  · by_cases hin : InRun v n w
    · obtain ⟨f, hf, -⟩ := hb.named w hin
      exact ⟨f, hf⟩
    · have hD := hw.resolve_right hin
      obtain ⟨f, hf⟩ := h.named w hD
      exact ⟨f, hb.opens.keeps w f (h.heap w hD) hin hf⟩
  · obtain ⟨ha, hno⟩ := (hb.opens.avail f).mp ha
    by_cases hin : InRun v n w
    · exact hno ⟨w, hin, hf⟩
    · have hD := hw.resolve_right hin
      exact h.kept w f hD (hkeep w hD hin f hf) ha
  · by_cases hin : InRun v n w <;> by_cases hin' : InRun v n w'
    · exact hb.apart w w' f hin hin' hf hf'
    · exact absurd hf (hcross w' w f (hw'.resolve_right hin') hin' hin hf')
    · exact absurd hf' (hcross w w' f (hw.resolve_right hin) hin hin' hf)
    · have hD := hw.resolve_right hin
      have hD' := hw'.resolve_right hin'
      exact h.apart w w' f hD hD' (hkeep w hD hin f hf) (hkeep w' hD' hin' f hf')

/-- The frames of the pages in `P` are given back. -/
theorem givenBack (h : Holds L m D) {P : Nat → Prop}
    (hg : GivesBack L m m' fun f => ∃ w, P w ∧ Names L m w f) (hP : ∀ w, P w → D w) :
    Holds L m' fun w => D w ∧ ¬ P w where
  paging := hg.paging
  heap w hw := h.heap w hw.1
  named w hw := by
    obtain ⟨f, hf⟩ := h.named w hw.1
    exact ⟨f, (hg.names w f).mpr hf⟩
  kept w f hw hn ha := by
    have hn' := (hg.names w f).mp hn
    rcases (hg.avail f).mp ha with ha | ⟨w', hw', hn''⟩
    · exact h.kept w f hw.1 hn' ha
    · exact hw.2 (h.apart w' w f (hP w' hw') hw.1 hn'' hn' ▸ hw')
  apart w w' f hw hw' hn hn' :=
    h.apart w w' f hw.1 hw'.1 ((hg.names w f).mp hn) ((hg.names w' f).mp hn')

/-- Memory may change, as long as no page table does. -/
theorem congr (h : Holds L m D) (hm : PagingOk L m') (hav : ∀ f, Avail m' f ↔ Avail m f)
    (hnames : ∀ w f, D w → (Names L m' w f ↔ Names L m w f)) : Holds L m' D where
  paging := hm
  heap := h.heap
  named w hw := (h.named w hw).imp fun f hf => (hnames w f hw).mpr hf
  kept w f hw hn ha := h.kept w f hw ((hnames w f hw).mp hn) ((hav f).mp ha)
  apart w w' f hw hw' hn hn' :=
    h.apart w w' f hw hw' ((hnames w f hw).mp hn) ((hnames w' f hw').mp hn')

end Holds

end Moonlight
