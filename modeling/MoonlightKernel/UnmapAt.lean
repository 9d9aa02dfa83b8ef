import MoonlightKernel.Unmap

/-!
# `page_unmap_at`

`page_map_at` takes frames and maps a run of pages to them; `page_unmap_at` is there to undo that.
Every one of its three loops starts where it should end, so it answers 0 and does nothing.

* `pageUnmapAt_state` — it leaves the machine alone;
* `present_pageMapAt` — the last page that `page_map_at` maps is present afterwards;
* `unmap_at_undoes_never` — so no call undoes a `page_map_at`.
-/

set_option autoImplicit false

namespace Moonlight

open Sys Sys.Bitmap

/-- A loop that starts at its end does nothing. -/
theorem forLoop_at_end (n k : Nat) (body : Nat → Machine → Int × Machine) (m : Machine) :
    forLoop n body k n m = (0, m) := by
  cases k with
  | zero => rfl
  | succ k => rw [forLoop, if_neg (Nat.lt_irrefl n)]

/-- **`page_unmap_at` leaves the machine alone**, whatever it is given. -/
theorem pageUnmapAt_state (L : Layout) (v flags n : Nat) (m : Machine) :
    (pageUnmapAt L v flags n m).2 = m := by
  unfold pageUnmapAt
  simp only [forLoop_at_end]
  split
  · rfl
  split
  · rfl
  split
  · rfl
  · simp

/-! ## What is mapped is present -/

variable {L : Layout} {pa va flag : Nat}

/-- A page is present right after a successful `page_map`, in every state. -/
theorem present_pageMap {m m' : Machine} (hflag : flag &&& PAGE_PRESENT ≠ 0)
    (h : pageMap L pa va flag m = (0, m')) : Present L m' va := by
  obtain ⟨hpa, -, -, t, m₁, hopen, rfl⟩ := pageMap_ok hflag h
  have ht := hopen.hasTable
  rw [present_iff, slot_pageMap hopen]
  split
  · rw [and_PAGE_PRESENT_or hpa]
    exact hflag
  · -- the word stored is the window's own, which the access rewrites
    rename_i hno
    have hwin : IsWindowSlot L m va := by
      by_contra hwin
      exact hno ⟨ht.1, ht.2, rfl, hwin⟩
    have hkernel : tableFrame m₁ (dirIndex va) = L.kernelFrame := by
      rw [ht.2, ← hopen.mapFrame_eq]
      exact hwin.1
    rw [slot_eq_ram ht.1, if_pos ⟨hkernel, hwin.2⟩, and_PAGE_PRESENT_or (by omega)]
    decide

/-- The last page of a run is present after the run has been mapped. -/
theorem present_pageMapLoop (hflag : flag &&& PAGE_PRESENT ≠ 0) (n : Nat) :
    ∀ (i : Nat) {m : Machine}, (pageMapLoop L pa va flag (n + 1) i m).1 = 0 →
      Present L (pageMapLoop L pa va flag (n + 1) i m).2.2 (add32 va ((i + n) <<< 12)) := by
  induction n with
  | zero =>
    intro i m h
    rw [pageMapLoop] at h ⊢
    by_cases hok : (pageMap L (add32 pa (i <<< 12)) (add32 va (i <<< 12)) flag m).1 = 0
    · rw [if_neg (not_not.mpr hok)]
      exact present_pageMap hflag (Prod.ext hok rfl)
    · rw [if_pos hok] at h
      exact absurd h hok
  | succ n ih =>
    intro i m h
    rw [pageMapLoop] at h ⊢
    by_cases hok : (pageMap L (add32 pa (i <<< 12)) (add32 va (i <<< 12)) flag m).1 = 0
    · rw [if_neg (not_not.mpr hok)] at h ⊢
      have hlast := ih (i + 1) h
      rw [show i + 1 + n = i + (n + 1) by omega] at hlast
      exact hlast
    · rw [if_pos hok] at h
      exact absurd h hok

/-- **The last page that `page_map_at` maps is present.** -/
theorem present_pageMapAt {n : Nat} {m m' : Machine} (hflag : flag &&& PAGE_PRESENT ≠ 0)
    (h : pageMapAt L va flag (n + 1) m = (0, m')) : Present L m' (add32 va (n <<< 12)) := by
  unfold pageMapAt at h
  rw [if_neg hflag] at h
  split at h
  · cases h
  split at h
  · cases h
  dsimp only at h
  split at h
  · cases h
  split at h
  · rename_i hne
    exact absurd (congrArg Prod.fst h) hne
  rename_i hok
  have hm' := congrArg Prod.snd h
  dsimp only at hm'
  subst hm'
  unfold pageMapRange at hok ⊢
  dsimp only at hok ⊢
  split at hok
  · rename_i hloop
    exact absurd hloop hok
  · rename_i hloop
    have hlast := present_pageMapLoop hflag n 0 (not_not.mp hloop)
    rw [Nat.zero_add] at hlast
    rw [if_neg hloop]
    exact hlast

/-! ## Undoing a `page_map_at` -/

/-- A `page_unmap_at` of the `n` pages at `va` undoes the `page_map_at` that led to the state `m`. -/
structure UnmapUndoes (L : Layout) (va flags n : Nat) (m : Machine) : Prop where
  ok : (pageUnmapAt L va flags n m).1 = 0
  gone : ∀ i < n, ¬ Present L (pageUnmapAt L va flags n m).2 (runPage va i)
  free : ∀ i < n, isFree (pageUnmapAt L va flags n m).2.mmBitmap
    ((pageGetPhys L (runPage va i) m).1 / 4096) = true
  others : ∀ v < 2 ^ 32, (∀ i < n, v / 4096 ≠ runPage va i / 4096) →
    entryView (slot L (pageUnmapAt L va flags n m).2 v) = entryView (slot L m v)

/-- **`page_unmap_at` never undoes a `page_map_at`**: from every state, and whatever was mapped
before, the last page is still present. -/
theorem unmap_at_undoes_never (L : Layout) (va f g n : Nat) (m m' : Machine) (hn : 1 ≤ n)
    (hf : f &&& PAGE_PRESENT ≠ 0) (h : pageMapAt L va f n m = (0, m')) :
    ¬ UnmapUndoes L va g n m' := by
  obtain ⟨k, rfl⟩ := Nat.exists_eq_add_of_le' hn
  intro hundo
  refine hundo.gone k (by omega) ?_
  rw [pageUnmapAt_state]
  exact present_pageMapAt hf h

/-- One page on a machine with zeroed memory. -/
def Machine.mappedAt : Machine := (pageMapAt .sample 0x40000000 3 1 .clean).2

theorem pageMapAt_clean : pageMapAt .sample 0x40000000 3 1 .clean = (0, .mappedAt) :=
  Prod.ext (by decide +kernel) rfl

/-- The page at 1 GiB is not taken out again. -/
theorem unmap_at_misses_one_page : ¬ UnmapUndoes .sample 0x40000000 PAGE_NOTHING 1 .mappedAt := by
  exact unmap_at_undoes_never .sample 0x40000000 3 PAGE_NOTHING 1 .clean .mappedAt (by decide)
    (by decide) pageMapAt_clean

/-- `page_unmap_at` answers 0, the page is present and its frame is allocated. -/
theorem unmap_at_leaves_one_page :
    pageMapAt .sample 0x40000000 3 1 .clean = (0, .mappedAt) ∧
      ¬ Present .sample .clean 0x40000000 ∧
      (pageUnmapAt .sample 0x40000000 PAGE_NOTHING 1 .mappedAt).1 = 0 ∧
      Present .sample (pageUnmapAt .sample 0x40000000 PAGE_NOTHING 1 .mappedAt).2 0x40000000 ∧
      ¬ UnmapUndoes .sample 0x40000000 PAGE_NOTHING 1 .mappedAt := by
  have hpresent :
      Present .sample (pageUnmapAt .sample 0x40000000 PAGE_NOTHING 1 .mappedAt).2 0x40000000 := by
    decide +kernel
  have hpage : runPage 0x40000000 0 = 0x40000000 := by decide +kernel
  refine ⟨pageMapAt_clean, by decide +kernel, by decide +kernel, hpresent, fun h => ?_⟩
  refine h.gone 0 (by decide) ?_
  rw [hpage]
  exact hpresent

end Moonlight
