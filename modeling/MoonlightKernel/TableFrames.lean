import MoonlightKernel.Translation

/-!
# Page tables that do not share frames

`TablesOk` is the state of paging that the kernel keeps: outside the directory entry of the
kernel image, every page table has a frame of its own, allocated in `mm_bitmap` and different
from `kernel_page`.  Under it a successful `page_map` has the effect one expects, on the
translations, on the frames and on memory (`Mapped`, `pageMap_mapped`).

Pages whose directory entry has no table yet are left out of `Mapped.others`: they show what the
fresh table frame contained (`pageMap_changes_one_translation_iff`).
-/

set_option autoImplicit false

namespace Moonlight

open Sys Sys.Bitmap

/-- A directory entry other than the one of the kernel image. -/
def PageDir (d : Nat) : Prop := d < 1024 ∧ d ≠ KERNEL_POS >>> 22

instance (d : Nat) : Decidable (PageDir d) := inferInstanceAs (Decidable (_ ∧ _))

/-- Page tables have frames of their own. -/
structure TablesOk (L : Layout) (m : Machine) : Prop where
  taken : ∀ d, PageDir d → HasTable m d → isFree m.mmBitmap (tableFrame m d) = false
  notKernel : ∀ d, PageDir d → HasTable m d → tableFrame m d ≠ L.kernelFrame
  apart : ∀ d e, PageDir d → PageDir e → HasTable m d → HasTable m e →
    tableFrame m d = tableFrame m e → d = e

/-- What `m'` is after `page_map` of `pa` at `va` in `m`. -/
structure Mapped (L : Layout) (m : Machine) (va pa : Nat) (m' : Machine) : Prop where
  view : entryView (slot L m' va) = some pa
  others : ∀ v, PageDir (dirIndex v) → v / 4096 ≠ va / 4096 → HasTable m (dirIndex v) →
    entryView (slot L m' v) = entryView (slot L m v)
  hasTable : HasTable m' (dirIndex va)
  dir : ∀ d, d ≠ dirIndex va ∨ HasTable m d → m'.pageDirectory d = m.pageDirectory d
  bitmap : ∀ f, isFree m'.mmBitmap f = true ↔
    isFree m.mmBitmap f = true ∧ (HasTable m (dirIndex va) ∨ f ≠ tableFrame m' (dirIndex va))
  fresh : ¬ HasTable m (dirIndex va) → isFree m.mmBitmap (tableFrame m' (dirIndex va)) = true
  ram : ∀ f, f ≠ L.kernelFrame → f ≠ tableFrame m' (dirIndex va) → m'.ram f = m.ram f
  tables : TablesOk L m'

theorem hasTable_congr {m m' : Machine} {d : Nat} (h : m'.pageDirectory d = m.pageDirectory d) :
    HasTable m' d ↔ HasTable m d := by unfold HasTable; rw [h]

theorem tableFrame_congr {m m' : Machine} {d : Nat} (h : m'.pageDirectory d = m.pageDirectory d) :
    tableFrame m' d = tableFrame m d := by unfold tableFrame; rw [h]

namespace OpenTable

variable {L : Layout} {m m₁ : Machine} {d t : Nat}

theorem dir_eq (h : OpenTable m d t m₁) {e : Nat} (he : e ≠ d ∨ HasTable m e) :
    m₁.pageDirectory e = m.pageDirectory e := by
  by_cases hed : e = d
  · subst hed
    rcases h.eq_or_fresh with ⟨-, rfl⟩ | ⟨habs, -, -⟩
    · rfl
    · exact absurd habs (he.resolve_left fun k => k rfl).1
  · exact h.dir_of_ne hed

theorem isFree_iff (h : OpenTable m d t m₁) (f : Nat) :
    isFree m₁.mmBitmap f = true ↔ isFree m.mmBitmap f = true ∧ (HasTable m d ∨ f ≠ t) := by
  cases h with
  | present h => simp [h]
  | fresh habs hsize hget hlo hhi hfree =>
    have hno : ¬ HasTable m d := fun h => h.1 habs
    show isSet (clearRun t 1 m.mmBitmap) f = true ↔ _
    rw [isSet_clearRun, Bool.and_eq_true, Bool.not_eq_true', decide_eq_false_iff_not]
    refine and_congr_right fun _ => ?_
    simp only [hno, false_or]
    omega

/-- The frame of the opened table belongs to no other table. -/
theorem frame_ne (h : OpenTable m d t m₁) (hm : TablesOk L m) (hd : PageDir d) {e : Nat}
    (he : PageDir e) (hte : HasTable m e) (hne : e ≠ d) : tableFrame m e ≠ t := by
  intro heq
  rcases h.eq_or_fresh with ⟨htd, rfl⟩ | ⟨-, -, hfree⟩
  · exact hne (hm.apart e d he hd hte htd (heq.trans h.hasTable.2.symm))
  · have := hm.taken e he hte
    rw [heq, hfree] at this
    exact Bool.noConfusion this

theorem frame_ne_kernel (h : OpenTable m d t m₁) (hm : TablesOk L m) (hd : PageDir d) :
    t ≠ L.kernelFrame := by
  rcases h.eq_or_fresh with ⟨htd, rfl⟩ | ⟨-, hlo, -⟩
  · rw [← h.hasTable.2]; exact hm.notKernel d hd htd
  · have := L.kernelFrame_lt; omega

theorem tablesOk (h : OpenTable m d t m₁) (hm : TablesOk L m) (hd : PageDir d) : TablesOk L m₁ := by
  have ht := h.hasTable
  have hother : ∀ {e}, e ≠ d → HasTable m₁ e → HasTable m e ∧ tableFrame m₁ e = tableFrame m e :=
    fun he hte => ⟨(hasTable_congr (h.dir_of_ne he)).mp hte, tableFrame_congr (h.dir_of_ne he)⟩
  refine ⟨fun e he hte => ?_, fun e he hte => ?_, fun e e' he he' hte hte' heq => ?_⟩
  · by_cases hed : e = d
    · subst hed
      rw [ht.2, ← Bool.not_eq_true, h.isFree_iff]
      rintro ⟨hf, htab | hne⟩
      · have := hm.taken e he htab
        have hte : tableFrame m e = t := by
          rcases h.eq_or_fresh with ⟨-, rfl⟩ | ⟨habs, -, -⟩
          · exact ht.2
          · exact absurd habs htab.1
        rw [hte, hf] at this
        exact Bool.noConfusion this
      · exact hne rfl
    · obtain ⟨h1, h2⟩ := hother hed hte
      rw [h2, ← Bool.not_eq_true, h.isFree_iff, hm.taken e he h1]
      simp
  · by_cases hed : e = d
    · subst hed; rw [ht.2]; exact h.frame_ne_kernel hm he
    · obtain ⟨h1, h2⟩ := hother hed hte
      rw [h2]; exact hm.notKernel e he h1
  · by_cases hed : e = d <;> by_cases hed' : e' = d
    · exact hed.trans hed'.symm
    · obtain ⟨h1, h2⟩ := hother hed' hte'
      rw [hed, ht.2, h2] at heq
      exact absurd heq.symm (h.frame_ne hm hd he' h1 hed')
    · obtain ⟨h1, h2⟩ := hother hed hte
      rw [hed', ht.2, h2] at heq
      exact absurd heq (h.frame_ne hm hd he h1 hed)
    · obtain ⟨h1, h2⟩ := hother hed hte
      obtain ⟨h3, h4⟩ := hother hed' hte'
      exact hm.apart e e' he he' h1 h3 (by rw [← h2, ← h4]; exact heq)

end OpenTable

/-- Memory contents do not matter to the tables' frames. -/
theorem TablesOk.congr {L : Layout} {m m' : Machine} (h : TablesOk L m)
    (hdir : m'.pageDirectory = m.pageDirectory)
    (hbm : ∀ d, PageDir d → HasTable m d → isFree m'.mmBitmap (tableFrame m d) = false) :
    TablesOk L m' := by
  have htf : ∀ d, tableFrame m' d = tableFrame m d := fun d => tableFrame_congr (by rw [hdir])
  have hht : ∀ d, HasTable m' d ↔ HasTable m d := fun d => hasTable_congr (by rw [hdir])
  refine ⟨fun d hd ht => ?_, fun d hd ht => ?_, fun d e hd he htd hte heq => ?_⟩
  · rw [htf]; exact hbm d hd ((hht d).mp ht)
  · rw [htf]; exact h.notKernel d hd ((hht d).mp ht)
  · rw [htf, htf] at heq
    exact h.apart d e hd he ((hht d).mp htd) ((hht e).mp hte) heq

/-- **A successful `page_map` under `TablesOk`.** -/
theorem pageMap_mapped {L : Layout} {pa va flag : Nat} {m m' : Machine} (hm : TablesOk L m)
    (hva : PageDir (dirIndex va)) (hpa : pa < 2 ^ 32) (hflag : flag &&& PAGE_PRESENT ≠ 0)
    (h : pageMap L pa va flag m = (0, m')) : Mapped L m va pa m' := by
  obtain ⟨hpa0, -, hfa, t, m₁, hopen, rfl⟩ := pageMap_ok hflag h
  have hw : entryView (pa ||| flag) = some pa := entryView_or hpa hpa0 hflag hfa
  have hk := hopen.frame_ne_kernel hm hva
  have hnw : ¬ IsWindowSlot L m va := fun h => hk (hopen.mapFrame_eq.symm.trans h.1)
  have ht := hopen.hasTable
  refine ⟨?_, fun v hv hne htv => ?_, ht.1, fun d hd => hopen.dir_eq hd, fun f => ?_, fun hno => ?_,
    fun f hfk hft => ?_, (hopen.tablesOk hm hva).congr rfl fun d hd htd => ?_⟩
  · rw [slot_pageMap hopen, if_pos ⟨ht.1, ht.2, rfl, hnw⟩, hw]
  · rw [translation_kept_iff hopen hw hne]
    refine ⟨fun habs hd => absurd habs (hd ▸ htv.1), fun hd _ htf => ?_⟩
    exact absurd htf (hopen.frame_ne hm hva hv htv hd)
  · have htf : tableFrame ((m₁.swapTo L t).write t (tableIndex va) (pa ||| flag)) (dirIndex va) = t :=
      ht.2
    rw [htf]
    exact hopen.isFree_iff f
  · have htf : tableFrame ((m₁.swapTo L t).write t (tableIndex va) (pa ||| flag)) (dirIndex va) = t :=
      ht.2
    rw [htf]
    rcases hopen.eq_or_fresh with ⟨hp, -⟩ | ⟨-, -, hfree⟩
    · exact absurd hp hno
    · exact hfree
  · have hft' : f ≠ t := fun he => hft (he.trans ht.2.symm)
    funext j
    simp only [Machine.write, Machine.swapTo, hft', hfk, false_and, ↓reduceIte, hopen.ram_eq]
  · exact (hopen.tablesOk hm hva).taken d hd htd

end Moonlight
