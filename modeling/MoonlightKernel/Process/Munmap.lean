import MoonlightKernel.Process.Maps

/-!
# `munmap`

A hole of `n` pages is cut into a map `B`, with `b` pages before it and `c` pages behind it.
The records are split at `b`, as they should be; the page tables and the frames are released
from page `c` on.

* `munmap_ok` — what a successful call does, in these terms;
* `munmap_exact_iff` — it removes what it was asked to exactly when `b = c` (and, read to the
  letter, when no page table becomes empty: `page_unmap` gives an empty table's frame back).
-/

set_option autoImplicit false

namespace Moonlight

open Sys Sys.Bitmap

/-! ## The hole -/

/-- Pages of `B` in front of `addr`. -/
def pagesBefore (B : MapMemory) (addr : Nat) : Nat := (addr - B.vAddr) / 4096

/-- Pages of `B` in the hole. -/
def pagesRemoved (B : MapMemory) (addr size : Nat) : Nat :=
  min ((size + 4095) / 4096) (B.size - pagesBefore B addr)

/-- Pages of `B` behind the hole. -/
def pagesAfter (B : MapMemory) (addr size : Nat) : Nat :=
  B.size - pagesRemoved B addr size - pagesBefore B addr

/-- `v` is a page of `B` in the range that `munmap` is asked to remove. -/
def Removed (B : MapMemory) (addr size v : Nat) : Prop :=
  ∃ i, i < B.size ∧ v = B.page i ∧ addr ≤ v ∧ v < addr + (size + 4095) / 4096 * 4096

/-- The maps of a process are well formed and share nothing. -/
structure MapsOk (maps : List MapMemory) : Prop where
  ok : ∀ pm ∈ maps, pm.Ok
  apart : maps.Pairwise MapMemory.Apart

theorem removed_iff {B : MapMemory} {addr size v : Nat} (hB : B.vAddr % 4096 = 0)
    (ha : addr % 4096 = 0) (hle : B.vAddr ≤ addr) :
    Removed B addr size v ↔ ∃ i, pagesBefore B addr ≤ i ∧
      i < pagesBefore B addr + pagesRemoved B addr size ∧ v = B.page i := by
  unfold Removed pagesRemoved pagesBefore MapMemory.page
  constructor
  · rintro ⟨i, hi, rfl, h1, h2⟩
    exact ⟨i, by omega, by omega, rfl⟩
  · rintro ⟨i, h1, h2, rfl⟩
    exact ⟨i, by omega, rfl, by omega, by omega⟩

theorem hole_sizes {B : MapMemory} {addr size : Nat} (hsize : 0 < size)
    (hb : pagesBefore B addr < B.size) :
    0 < pagesRemoved B addr size ∧
      pagesBefore B addr + pagesRemoved B addr size + pagesAfter B addr size = B.size := by
  unfold pagesAfter pagesRemoved
  omega

/-! ## The records -/

/-- The records that take the place of `B`. -/
def holeParts (B : MapMemory) (b n c : Nat) : List MapMemory :=
  (if b = 0 then [] else [{ B with size := b }]) ++
    (if c ≠ 0 then some { B with
        vAddr := B.vAddr + (n + b) * 4096
        pAddr := B.pAddr + (n + b) * 4096
        size := c }
      else none).toList

theorem backs_holeParts {B : MapMemory} {b n c : Nat} (hsize : b + n + c = B.size) {v f : Nat} :
    Backs (holeParts B b n c) v f ↔
      ∃ i, i < B.size ∧ ¬ (b ≤ i ∧ i < b + n) ∧ v = B.page i ∧ f = B.frame i := by
  have hfront : Backs (if b = 0 then [] else [{ B with size := b }]) v f ↔
      ∃ i, i < b ∧ v = B.page i ∧ f = B.frame i := by
    split
    · rename_i hb
      simp [Backs, hb]
    · simp only [Backs, List.mem_singleton, exists_eq_left]
      rfl
  have hback : Backs (if c ≠ 0 then some { B with
        vAddr := B.vAddr + (n + b) * 4096
        pAddr := B.pAddr + (n + b) * 4096
        size := c } else none).toList v f ↔
      ∃ j, j < c ∧ v = B.page (n + b + j) ∧ f = B.frame (n + b + j) := by
    split
    · simp only [Backs, Option.toList_some, List.mem_singleton, exists_eq_left]
      refine exists_congr fun j => and_congr_right fun _ => ?_
      unfold MapMemory.page MapMemory.frame
      dsimp only
      omega
    · rename_i hc
      have : c = 0 := by simpa using hc
      simp [Backs, this]
  rw [holeParts, Backs.append, hfront, hback]
  constructor
  · rintro (⟨i, hi, hv, hf⟩ | ⟨j, hj, hv, hf⟩)
    · exact ⟨i, by omega, by omega, hv, hf⟩
    · exact ⟨n + b + j, by omega, by omega, hv, hf⟩
  · rintro ⟨i, hi, hout, hv, hf⟩
    by_cases hib : i < b
    · exact .inl ⟨i, hib, hv, hf⟩
    · refine .inr ⟨i - (n + b), by omega, ?_, ?_⟩
      · rw [show n + b + (i - (n + b)) = i by omega]; exact hv
      · rw [show n + b + (i - (n + b)) = i by omega]; exact hf

theorem findIdx?_split {α : Type*} {q : α → Bool} {l : List α} {i : Nat}
    (h : l.findIdx? q = some i) :
    ∃ pre x post, l = pre ++ x :: post ∧ pre.length = i ∧ q x = true := by
  obtain ⟨hi, hq, -⟩ := List.findIdx?_eq_some_iff_getElem.mp h
  refine ⟨l.take i, l[i], l.drop (i + 1), ?_, ?_, hq⟩
  · rw [List.getElem_cons_drop, List.take_append_drop]
  · rw [List.length_take]; omega

theorem replaceAt_split (pre post new : List MapMemory) (B : MapMemory) :
    replaceAt (pre ++ B :: post) pre.length new = pre ++ new ++ post := by
  unfold replaceAt
  rw [List.take_left, List.drop_append, List.drop_of_length_le (Nat.le_succ _)]
  simp

/-- A block in the heap or the stack, and what `punch` does to the list of maps. -/
theorem punch_maps {pr : Process} {addr : Nat} {ref : MapRef}
    (href : mmapGetBlock pr addr = some ref) (hcode : ref ≠ .code) :
    (pr.map ref).contains addr = true ∧ ∃ pre post, pr.maps = pre ++ pr.map ref :: post ∧
      ∀ sizeBefore newMap, ∃ pr', pr.punch ref sizeBefore newMap = some pr' ∧
        pr'.maps = pre ++ ((if sizeBefore = 0 then []
          else [{ pr.map ref with size := sizeBefore }]) ++ newMap.toList) ++ post := by
  unfold mmapGetBlock at href
  split at href
  · rename_i i hi
    cases href
    obtain ⟨pre, B, post, hl, rfl, hB⟩ := findIdx?_split hi
    have hmap : pr.map (.stack pre.length) = B := by simp [Process.map, hl]
    refine ⟨hmap ▸ hB, pr.mmHeap ++ pre, post ++ [pr.mmCode], ?_, fun sb nm => ⟨_, rfl, ?_⟩⟩
    · rw [hmap]; simp [Process.maps, hl]
    · rw [hmap]
      simp only [Process.maps]
      rw [hl, replaceAt_split]
      simp
  split at href
  · rename_i i hi
    cases href
    obtain ⟨pre, B, post, hl, rfl, hB⟩ := findIdx?_split hi
    have hmap : pr.map (.heap pre.length) = B := by simp [Process.map, hl]
    refine ⟨hmap ▸ hB, pre, post ++ pr.mmStack ++ [pr.mmCode], ?_, fun sb nm => ⟨_, rfl, ?_⟩⟩
    · rw [hmap]; simp [Process.maps, hl]
    · rw [hmap]
      simp only [Process.maps]
      rw [hl, replaceAt_split]
      simp
  · split at href
    · exact absurd (Option.some.inj href).symm hcode
    · cases href

/-! ## The call -/

/-- The arguments of a call that gets past the checks. -/
structure HoleIn (B : MapMemory) (addr size : Nat) : Prop where
  aligned : addr % 4096 = 0
  sizePos : 0 < size
  start : B.vAddr ≤ addr
  inside : pagesBefore B addr < B.size

theorem holeIn_of_contains {B : MapMemory} {addr size : Nat} (ha : addr % 4096 = 0) (hs : 0 < size)
    (hB : B.contains addr = true) : HoleIn B addr size := by
  unfold MapMemory.contains at hB
  rw [decide_eq_true_eq, shiftLeft_page] at hB
  have hle : add32 B.vAddr (B.size * 4096) ≤ B.vAddr + B.size * 4096 := by
    rw [add32]; exact Nat.mod_le _ _
  refine ⟨ha, hs, hB.1, ?_⟩
  unfold pagesBefore
  omega

/-- The checks on the range leave an aligned, non-empty range below `KERNEL_POS`. -/
theorem munmap_range {addr size flags : Nat} (ha : addr < 2 ^ 32) (hs : size < 2 ^ 32)
    (h1 : ¬ (size = 0 ∨ addr &&& PAGE_FLAG ≠ 0 ∨ add32 addr size ≤ addr))
    (h2 : ¬ add32 addr size > add32 (maxAddr flags) 4096) :
    0 < size ∧ addr % 4096 = 0 ∧ mmapGetNumberOfPage size = (size + 4095) / 4096 := by
  rw [and_PAGE_FLAG] at h1
  have hk : add32 (maxAddr flags) 4096 ≤ KERNEL_POS := by
    unfold maxAddr
    split
    · rw [add32_of_lt (by decide)]; decide
    · rw [show add32 0xFFFFF000 4096 = 0 by unfold add32; decide]; decide
  have hsum : add32 addr size = addr + size := by
    unfold add32 at h1 ⊢
    omega
  have hKP : KERNEL_POS = 0xC0000000 := rfl
  refine ⟨by omega, by omega, ?_⟩
  unfold mmapGetNumberOfPage
  rw [shiftRight_page, shiftRight_page]
  split
  · rw [add32_of_lt (by omega)]; omega
  · omega

/-- What a successful call does. -/
structure MunmapDone (L : Layout) (p addr size : Nat) (k k' : Kernel) (B : MapMemory) : Prop where
  hole : HoleIn B addr size
  maps : ∃ pre post, (k.proc p).maps = pre ++ B :: post ∧
    (k'.proc p).maps = pre ++ holeParts B (pagesBefore B addr) (pagesRemoved B addr size)
      (pagesAfter B addr size) ++ post
  machine : ∃ m₁, (k.current = some p → pageMapRange L 0
      (B.vAddr + pagesAfter B addr size * 4096) PAGE_NOTHING (pagesRemoved B addr size) k.machine =
        (0, m₁)) ∧ (k.current ≠ some p → m₁ = k.machine) ∧
    k'.machine = m₁.setBitmap (freePhysBlock (B.pAddr + pagesAfter B addr size * 4096)
      (pagesRemoved B addr size) m₁.mmBitmap)

theorem munmapBlock_ok {L : Layout} {p addr size : Nat} {k k' : Kernel} {ref : MapRef}
    (hok : ((k.proc p).map ref).Ok)
    (ha : addr < 2 ^ 32) (hhole : HoleIn ((k.proc p).map ref) addr size)
    (href : mmapGetBlock (k.proc p) addr = some ref) (hcode : ref ≠ .code)
    (h : munmapBlock L p addr ((size + 4095) / 4096) ref k = some (0, k')) :
    MunmapDone L p addr size k k' ((k.proc p).map ref) := by
  obtain ⟨-, pre, post, hsplit, hpunch⟩ := punch_maps href hcode
  generalize hB : (k.proc p).map ref = B at *
  obtain ⟨hn0, hsum⟩ := hole_sizes hhole.sizePos hhole.inside
  have hfr := hok.frames
  have hst := hhole.start
  have hpg : B.vAddr + B.size * 4096 ≤ 2 ^ 32 := by
    have := (hok.pages (B.size - 1) (by omega)).lt
    unfold MapMemory.page at this
    have hal := hok.vAligned
    omega
  have hb : sub32 addr B.vAddr >>> 12 = pagesBefore B addr := by
    rw [sub32_of_le hhole.start ha, shiftRight_page]; rfl
  have hn : (if sub32 B.size (pagesBefore B addr) ≤ (size + 4095) / 4096
      then sub32 B.size (pagesBefore B addr) else (size + 4095) / 4096) =
        pagesRemoved B addr size := by
    rw [sub32_of_le (by omega) (by omega), pagesRemoved]
    split <;> omega
  have hc : sub32 (sub32 B.size (pagesRemoved B addr size)) (pagesBefore B addr) =
      pagesAfter B addr size := by
    rw [sub32_of_le (show pagesRemoved B addr size ≤ B.size by omega) (by omega),
      sub32_of_le (by omega) (by omega)]
    rfl
  unfold munmapBlock at h
  simp only [hB, hb, hn, hc] at h
  generalize hbb : pagesBefore B addr = b at *
  generalize hnn : pagesRemoved B addr size = n at *
  generalize hcc : pagesAfter B addr size = c at *
  -- the record behind the hole, without wrap-around
  have hnew : (if c ≠ 0 then some (MapMemory.mk (add32 B.vAddr (add32 n b <<< 12))
      (add32 B.pAddr (add32 n b <<< 12)) c B.flags) else none) =
      if c ≠ 0 then some { B with
        vAddr := B.vAddr + (n + b) * 4096
        pAddr := B.pAddr + (n + b) * 4096
        size := c } else none := by
    split
    · have hpa := hok.pAligned
      rw [shiftLeft_page, add32_of_lt (show n + b < 2 ^ 32 by omega), add32_of_lt (by omega),
        add32_of_lt (by omega)]
    · rfl
  rw [hnew, shiftLeft_page, add32_of_lt (show B.vAddr + c * 4096 < 2 ^ 32 by omega),
    add32_of_lt (show B.pAddr + c * 4096 < 2 ^ 32 by have := hok.pAligned; omega)] at h
  have hparts : holeParts B b n c = (if b = 0 then [] else [{ B with size := b }]) ++
      (if c ≠ 0 then some { B with
        vAddr := B.vAddr + (n + b) * 4096
        pAddr := B.pAddr + (n + b) * 4096
        size := c } else none).toList := rfl
  generalize (if c ≠ 0 then some { B with
    vAddr := B.vAddr + (n + b) * 4096
    pAddr := B.pAddr + (n + b) * 4096
    size := c } else none) = newMap at h hparts
  have hk₁ : (if c ≠ 0 then k.kmalloc else (some 0, k)).2.current = k.current ∧
      (if c ≠ 0 then k.kmalloc else (some 0, k)).2.machine = k.machine ∧
      (if c ≠ 0 then k.kmalloc else (some 0, k)).2.proc = k.proc := by
    split <;> exact ⟨rfl, rfl, rfl⟩
  generalize (if c ≠ 0 then k.kmalloc else (some 0, k)) = alloc at hk₁ h
  obtain ⟨hcur, hmach, hproc⟩ := hk₁
  split at h
  · exact absurd (congrArg Prod.fst (Option.some.inj h)) (show ¬ -ENOMEM = 0 by decide)
  obtain ⟨pr', hpr', hmaps'⟩ := hpunch b newMap
  rw [hcur, hmach, hproc, hpr', Option.map_some] at h
  generalize hr : (if k.current = some p then
    pageMapRange L 0 (B.vAddr + c * 4096) PAGE_NOTHING n k.machine else (0, k.machine)) = r at h
  split at h
  · rename_i hne
    exact absurd (congrArg Prod.fst (Option.some.inj h)) hne
  rename_i hret
  have hk' := congrArg Prod.snd (Option.some.inj h)
  dsimp only at hk'
  subst hk'
  refine ⟨hhole, ⟨pre, post, hsplit, ?_⟩, ?_⟩
  · rw [Kernel.modify_proc_self, hmaps', hbb, hnn, hcc, hparts]
  · rw [hcc, hnn]
    refine ⟨r.2, fun hrun => ?_, fun hrun => ?_, rfl⟩
    · rw [if_pos hrun] at hr
      rw [hr]
      exact Prod.ext (by simpa using hret) rfl
    · rw [if_neg hrun] at hr
      rw [← hr]

/-- **A successful `munmap`** splits the record at the hole and releases as many pages and frames,
counted from the number of pages behind the hole. -/
theorem munmap_ok {L : Layout} {p addr size flags : Nat} {k k' : Kernel} {ref : MapRef}
    (hmaps : MapsOk (k.proc p).maps) (ha : addr < 2 ^ 32) (hs : size < 2 ^ 32)
    (href : mmapGetBlock (k.proc p) addr = some ref) (hcode : ref ≠ .code)
    (h : munmap L p addr size flags k = some (0, k')) :
    MunmapDone L p addr size k k' ((k.proc p).map ref) := by
  obtain ⟨hin, pre, post, hsplit, hpunch⟩ := punch_maps href hcode
  have hmem : (k.proc p).map ref ∈ (k.proc p).maps := by rw [hsplit]; simp
  have herr : ¬ -EINVAL = 0 := by decide
  unfold munmap at h
  split at h
  · exact absurd (congrArg Prod.fst (Option.some.inj h)) herr
  rename_i h1
  split at h
  · exact absurd (congrArg Prod.fst (Option.some.inj h)) herr
  rename_i h2
  obtain ⟨hpos, hal, hN⟩ := munmap_range ha hs h1 h2
  rw [href, hN] at h
  exact munmapBlock_ok (hmaps.ok _ hmem) ha (holeIn_of_contains hal hpos hin) href hcode h

/-! ## Pages and frames after the call -/

section effect

variable {L : Layout} {p addr size : Nat} {k k' : Kernel} {B : MapMemory}

/-- The other maps of a process have neither a page nor a frame of `B`. -/
theorem MapsOk.others {pre post : List MapMemory} (h : MapsOk (pre ++ B :: post)) {v f i : Nat}
    (hb : Backs pre v f ∨ Backs post v f) (hi : i < B.size) : v ≠ B.page i ∧ f ≠ B.frame i := by
  have hpair := List.pairwise_append.mp h.apart
  rcases hb with ⟨pm, hpm, j, hj, rfl, rfl⟩ | ⟨pm, hpm, j, hj, rfl, rfl⟩
  · exact hpair.2.2 pm hpm B List.mem_cons_self j i hj hi
  · obtain ⟨h1, h2⟩ := (List.pairwise_cons.mp hpair.2.1).1 pm hpm i j hi hj
    exact ⟨h1.symm, h2.symm⟩

/-- The frame of a page of `B` stands behind that page only. -/
theorem MapsOk.page_of_frame {pre post : List MapMemory} (h : MapsOk (pre ++ B :: post))
    {v i : Nat} (hi : i < B.size) (hb : Backs (pre ++ B :: post) v (B.frame i)) : v = B.page i := by
  rw [Backs.append, Backs.cons] at hb
  rcases hb with hb | ⟨j, -, rfl, hf⟩ | hb
  · exact absurd rfl (h.others (.inl hb) hi).2
  · have : j = i := by unfold MapMemory.frame at hf; omega
    rw [this]
  · exact absurd rfl (h.others (.inr hb) hi).2

/-- The page-to-frame relation loses the hole and nothing else. -/
theorem MunmapDone.relation (hmaps : MapsOk (k.proc p).maps) (h : MunmapDone L p addr size k k' B)
    (v f : Nat) : Backs (k'.proc p).maps v f ↔
      Backs (k.proc p).maps v f ∧ ¬ Removed B addr size v := by
  obtain ⟨pre, post, hpre, hpost⟩ := h.maps
  rw [hpre] at hmaps ⊢
  rw [hpost]
  have hal := (hmaps.ok B (by simp)).vAligned
  obtain ⟨-, hsum⟩ := hole_sizes h.hole.sizePos h.hole.inside
  have hrem : Removed B addr size v ↔ _ := removed_iff hal h.hole.aligned h.hole.start
  have hout : Backs pre v f ∨ Backs post v f → ¬ Removed B addr size v := by
    rintro hb ⟨i, hi, hv, -⟩
    exact (hmaps.others hb hi).1 hv
  rw [Backs.append, Backs.append, Backs.append, Backs.cons, backs_holeParts hsum]
  have hin : (∃ i, i < B.size ∧ ¬ (pagesBefore B addr ≤ i ∧
      i < pagesBefore B addr + pagesRemoved B addr size) ∧ v = B.page i ∧ f = B.frame i) ↔
      (∃ i, i < B.size ∧ v = B.page i ∧ f = B.frame i) ∧ ¬ Removed B addr size v := by
    rw [hrem]
    constructor
    · rintro ⟨i, hi, hno, rfl, rfl⟩
      refine ⟨⟨i, hi, rfl, rfl⟩, ?_⟩
      rintro ⟨j, h1, h2, hj⟩
      have : i = j := by unfold MapMemory.page at hj; omega
      subst this
      exact hno ⟨h1, h2⟩
    · rintro ⟨⟨i, hi, rfl, rfl⟩, hno⟩
      exact ⟨i, hi, fun h => hno ⟨i, h.1, h.2, rfl⟩, rfl, rfl⟩
  rw [hin]
  constructor
  · rintro ((hb | hb) | hb)
    · exact ⟨.inl hb, hout (.inl hb)⟩
    · exact ⟨.inr (.inl hb.1), hb.2⟩
    · exact ⟨.inr (.inr hb), hout (.inr hb)⟩
  · rintro ⟨hb | hb | hb, hno⟩
    · exact .inl (.inl hb)
    · exact .inl (.inr ⟨hb, hno⟩)
    · exact .inr hb

/-- The run of pages that the call unmaps. -/
def unmappedRun (B : MapMemory) (addr size : Nat) : Nat := B.vAddr + pagesAfter B addr size * 4096

theorem inPages_unmapped (hB : B.Ok) (hhole : HoleIn B addr size) {w : Nat} :
    InPages (unmappedRun B addr size) (pagesRemoved B addr size) w ↔
      ∃ i, pagesAfter B addr size ≤ i ∧ i < pagesAfter B addr size + pagesRemoved B addr size ∧
        i < B.size ∧ w / 4096 = B.page i / 4096 := by
  have hal := hB.vAligned
  obtain ⟨-, hsum⟩ := hole_sizes hhole.sizePos hhole.inside
  unfold InPages unmappedRun MapMemory.page
  constructor
  · rintro ⟨h1, h2⟩
    exact ⟨w / 4096 - B.vAddr / 4096, by omega, by omega, by omega, by omega⟩
  · rintro ⟨i, h1, h2, -, h3⟩
    omega

theorem unmappedRun_dirs (hB : B.Ok) (hhole : HoleIn B addr size) (w : Nat)
    (hw : InPages (unmappedRun B addr size) (pagesRemoved B addr size) w) :
    PageDir (dirIndex w) := by
  obtain ⟨i, -, -, hi, hp⟩ := (inPages_unmapped hB hhole).mp hw
  rw [dirIndex_congr hp]
  exact hB.pages i hi

/-- What happens to the page tables. -/
theorem MunmapDone.tables (hmaps : MapsOk (k.proc p).maps) (hpaging : PagingOk L k.machine)
    (h : MunmapDone L p addr size k k' B) :
    ∃ m₁, (k.current = some p →
        RunUnmapped L k.machine (unmappedRun B addr size) (pagesRemoved B addr size) m₁) ∧
      (k.current ≠ some p → m₁ = k.machine) ∧
      (∀ v, Present L k'.machine v ↔ Present L m₁ v) ∧
      ∀ f, isFree k'.machine.mmBitmap f = true ↔ isFree m₁.mmBitmap f = true ∨
        ∃ i, pagesAfter B addr size ≤ i ∧ i < pagesAfter B addr size + pagesRemoved B addr size ∧
          f = B.frame i := by
  obtain ⟨pre, post, hpre, -⟩ := h.maps
  have hB : B.Ok := hmaps.ok B (by rw [hpre]; simp)
  obtain ⟨m₁, hrun, hidle, hm⟩ := h.machine
  obtain ⟨-, hsum⟩ := hole_sizes h.hole.sizePos h.hole.inside
  refine ⟨m₁, fun hc => ?_, hidle, fun v => ?_, fun f => ?_⟩
  · refine pageMapRange_unmapped hpaging (Nat.zero_mod _) ?_ (by decide) (by decide)
      (unmappedRun_dirs hB h.hole) (hrun hc)
    have := hB.vAligned
    unfold unmappedRun
    omega
  · rw [hm]; exact present_setBitmap
  · have hpa := hB.pAligned
    have hfr := hB.frames
    rw [hm]
    show isFree (freePhysBlock _ _ m₁.mmBitmap) f = true ↔ _
    rw [isFree_freePhysBlock (by omega), Bool.or_eq_true, decide_eq_true_eq]
    refine or_congr_right ⟨fun hf => ⟨f - B.pAddr / 4096, ?_⟩, ?_⟩
    · unfold MapMemory.frame
      omega
    · rintro ⟨i, h1, h2, rfl⟩
      unfold MapMemory.frame
      omega

end effect

/-! ## When the call removes what it was asked to -/

/-- `f` holds a page table. -/
def IsTable (m : Machine) (f : Nat) : Prop := ∃ d, PageDir d ∧ HasTable m d ∧ f = tableFrame m d

/-- **`munmap` has removed exactly the pages of the hole**, the frames of `ignored` left out of
account. -/
structure MunmapExact (L : Layout) (p addr size : Nat) (k k' : Kernel) (B : MapMemory)
    (ignored : Nat → Prop) : Prop where
  relation : ∀ v f, Backs (k'.proc p).maps v f ↔
    Backs (k.proc p).maps v f ∧ ¬ Removed B addr size v
  frames : ∀ f, ¬ ignored f → (isFree k'.machine.mmBitmap f = true ↔
    isFree k.machine.mmBitmap f = true ∨
      ∃ i, i < B.size ∧ Removed B addr size (B.page i) ∧ f = B.frame i)
  kept : ∀ v f, Backs (k'.proc p).maps v f → isFree k'.machine.mmBitmap f = false
  pages : k.current = some p → ∀ v < 2 ^ 32, v % 4096 = 0 →
    (Present L k'.machine v ↔ Present L k.machine v ∧ ¬ Removed B addr size v)

/-- The process's frames are allocated and hold no page table. -/
def FramesOk (k : Kernel) (p : Nat) : Prop :=
  ∀ v f, Backs (k.proc p).maps v f → isFree k.machine.mmBitmap f = false ∧ ¬ IsTable k.machine f

section exact

variable {L : Layout} {p addr size : Nat} {k k' : Kernel} {B : MapMemory}

/-- The frames that a successful call releases. -/
theorem MunmapDone.frames (hmaps : MapsOk (k.proc p).maps) (hpaging : PagingOk L k.machine)
    (h : MunmapDone L p addr size k k' B) (f : Nat) :
    isFree k'.machine.mmBitmap f = true ↔ isFree k.machine.mmBitmap f = true ∨
      (k.current = some p ∧ ∃ w, InPages (unmappedRun B addr size) (pagesRemoved B addr size) w ∧
        f = tableFrame k.machine (dirIndex w) ∧
        OnlyRun L k.machine (unmappedRun B addr size) (pagesRemoved B addr size) w) ∨
      ∃ i, pagesAfter B addr size ≤ i ∧ i < pagesAfter B addr size + pagesRemoved B addr size ∧
        f = B.frame i := by
  obtain ⟨m₁, hrun, hidle, -, hfree⟩ := h.tables hmaps hpaging
  rw [hfree, ← or_assoc]
  refine or_congr_left ?_
  by_cases hc : k.current = some p
  · rw [(hrun hc).bitmap, and_iff_right hc]
  · rw [hidle hc]
    simp [hc]

theorem MunmapDone.isTable (hmaps : MapsOk (k.proc p).maps) (hpaging : PagingOk L k.machine)
    (h : MunmapDone L p addr size k k' B) (hc : k.current = some p) {w : Nat}
    (hw : InPages (unmappedRun B addr size) (pagesRemoved B addr size) w) :
    IsTable k.machine (tableFrame k.machine (dirIndex w)) := by
  obtain ⟨pre, post, hpre, -⟩ := h.maps
  obtain ⟨m₁, hrun, -⟩ := h.tables hmaps hpaging
  have hB : B.Ok := hmaps.ok B (by rw [hpre]; simp)
  exact ⟨_, unmappedRun_dirs hB h.hole w hw, (hrun hc).hasTable w hw, rfl⟩

/-- The frame of page `i` of `B`, before the call. -/
theorem MunmapDone.frame (hframes : FramesOk k p) (h : MunmapDone L p addr size k k' B) {i : Nat}
    (hi : i < B.size) :
    isFree k.machine.mmBitmap (B.frame i) = false ∧ ¬ IsTable k.machine (B.frame i) := by
  obtain ⟨pre, post, hpre, -⟩ := h.maps
  refine hframes (B.page i) (B.frame i) ?_
  rw [hpre, Backs.append, Backs.cons]
  exact .inr (.inl ⟨i, hi, rfl, rfl⟩)

theorem removed_page_iff (hB : B.Ok) (hhole : HoleIn B addr size) {i : Nat} :
    Removed B addr size (B.page i) ↔
      pagesBefore B addr ≤ i ∧ i < pagesBefore B addr + pagesRemoved B addr size := by
  rw [removed_iff hB.vAligned hhole.aligned hhole.start]
  constructor
  · rintro ⟨j, h1, h2, hj⟩
    have : i = j := by unfold MapMemory.page at hj; omega
    omega
  · exact fun hi => ⟨i, hi.1, hi.2, rfl⟩

/-- With as many pages before the hole as behind it, the unmapped run is the hole. -/
theorem inPages_iff_removed (hB : B.Ok) (hhole : HoleIn B addr size)
    (heq : pagesBefore B addr = pagesAfter B addr size) {w : Nat} :
    InPages (unmappedRun B addr size) (pagesRemoved B addr size) w ↔
      Removed B addr size (w / 4096 * 4096) := by
  have hal := hB.vAligned
  obtain ⟨-, hsum⟩ := hole_sizes hhole.sizePos hhole.inside
  rw [inPages_unmapped hB hhole, removed_iff hal hhole.aligned hhole.start, heq]
  unfold MapMemory.page
  constructor
  · rintro ⟨i, h1, h2, -, h3⟩
    exact ⟨i, h1, h2, by omega⟩
  · rintro ⟨i, h1, h2, h3⟩
    exact ⟨i, h1, h2, by omega, by omega⟩

/-- Frames and hole agree only if there are as many pages before the hole as behind it. -/
theorem MunmapExact.balanced {ignored : Nat → Prop} (hmaps : MapsOk (k.proc p).maps)
    (hpaging : PagingOk L k.machine) (hframes : FramesOk k p)
    (hign : ∀ f, ignored f → IsTable k.machine f) (h : MunmapDone L p addr size k k' B)
    (he : MunmapExact L p addr size k k' B ignored) :
    pagesBefore B addr = pagesAfter B addr size := by
  obtain ⟨pre, post, hpre, -⟩ := h.maps
  have hB : B.Ok := hmaps.ok B (by rw [hpre]; simp)
  obtain ⟨hn, hsum⟩ := hole_sizes h.hole.sizePos h.hole.inside
  have hframe : ∀ {i}, i < B.size → (isFree k'.machine.mmBitmap (B.frame i) = true ↔
      pagesBefore B addr ≤ i ∧ i < pagesBefore B addr + pagesRemoved B addr size) := by
    intro i hi
    obtain ⟨h1, h2⟩ := h.frame hframes hi
    rw [he.frames _ fun h => h2 (hign _ h), h1]
    constructor
    · rintro (hf | ⟨j, -, hr, hj⟩)
      · cases hf
      · have : i = j := by unfold MapMemory.frame at hj; omega
        subst this
        exact (removed_page_iff hB h.hole).mp hr
    · exact fun hr => .inr ⟨i, hi, (removed_page_iff hB h.hole).mpr hr, rfl⟩
  have hfreed : ∀ {i}, i < B.size → (isFree k'.machine.mmBitmap (B.frame i) = true ↔
      pagesAfter B addr size ≤ i ∧ i < pagesAfter B addr size + pagesRemoved B addr size) := by
    intro i hi
    obtain ⟨h1, h2⟩ := h.frame hframes hi
    rw [h.frames hmaps hpaging, h1]
    constructor
    · rintro (hf | ⟨hc, w, hw, hf, -⟩ | ⟨j, h3, h4, hj⟩)
      · cases hf
      · exact absurd (hf ▸ h.isTable hmaps hpaging hc hw) h2
      · have : i = j := by unfold MapMemory.frame at hj; omega
        omega
    · exact fun hr => .inr (.inr ⟨i, hr.1, hr.2, rfl⟩)
  -- the first page of either range tells them apart
  have hb := (hframe (i := pagesBefore B addr) (by omega)).mpr (by omega)
  have hc := (hfreed (i := pagesAfter B addr size) (by omega)).mpr (by omega)
  have hb' := (hfreed (by omega)).mp hb
  have hc' := (hframe (by omega)).mp hc
  omega

/-- As many pages before the hole as behind it: the call is exact, up to emptied tables. -/
theorem MunmapDone.exact {ignored : Nat → Prop} (hmaps : MapsOk (k.proc p).maps)
    (hpaging : PagingOk L k.machine) (hframes : FramesOk k p)
    (h : MunmapDone L p addr size k k' B) (heq : pagesBefore B addr = pagesAfter B addr size)
    (htables : k.current = some p → ∀ w,
      InPages (unmappedRun B addr size) (pagesRemoved B addr size) w →
      OnlyRun L k.machine (unmappedRun B addr size) (pagesRemoved B addr size) w →
      ignored (tableFrame k.machine (dirIndex w))) :
    MunmapExact L p addr size k k' B ignored := by
  obtain ⟨pre, post, hpre, -⟩ := h.maps
  have hB : B.Ok := hmaps.ok B (by rw [hpre]; simp)
  obtain ⟨hn, hsum⟩ := hole_sizes h.hole.sizePos h.hole.inside
  have hrem : ∀ f, (∃ i, pagesAfter B addr size ≤ i ∧
      i < pagesAfter B addr size + pagesRemoved B addr size ∧ f = B.frame i) ↔
      ∃ i, i < B.size ∧ Removed B addr size (B.page i) ∧ f = B.frame i := by
    intro f
    simp only [removed_page_iff hB h.hole, heq]
    exact exists_congr fun i => ⟨fun ⟨h1, h2, h3⟩ => ⟨by omega, ⟨h1, h2⟩, h3⟩,
      fun ⟨_, h2, h3⟩ => ⟨h2.1, h2.2, h3⟩⟩
  refine ⟨h.relation hmaps, fun f hf => ?_, fun v f hb => ?_, fun hc v hv hva => ?_⟩
  · rw [h.frames hmaps hpaging, hrem]
    refine or_congr_right (or_iff_right ?_)
    rintro ⟨hc, w, hw, rfl, honly⟩
    exact hf (htables hc w hw honly)
  · obtain ⟨hold, hno⟩ := (h.relation hmaps v f).mp hb
    obtain ⟨h1, h2⟩ := hframes v f hold
    rw [← Bool.not_eq_true, h.frames hmaps hpaging, hrem, h1]
    rintro (hf | ⟨hc, w, hw, rfl, -⟩ | ⟨i, hi, hr, rfl⟩)
    · cases hf
    · exact h2 (h.isTable hmaps hpaging hc hw)
    · rw [hpre] at hold hmaps
      rw [hmaps.page_of_frame hi hold] at hno
      exact hno hr
  · obtain ⟨m₁, hrun, -, hpres, -⟩ := h.tables hmaps hpaging
    rw [hpres, (hrun hc).present v hv, inPages_iff_removed hB h.hole heq,
      show v / 4096 * 4096 = v by omega]

end exact

/-- A running process with three heap pages at 1 GiB and a code page. -/
def Kernel.mapped : Kernel where
  machine :=
    { mmBitmap := fun _ => 0
      pageDirectory := fun d => if d = 768 then 0x110001 else if d = 256 then 0x300003 else 0
      ram := fun f i => if f = 0x300 ∧ i < 3 then (0x501 + i) * 4096 ||| 7 else 0 }
  kmallocs := fun i => some i
  current := some 1
  processList := [1]
  proc := fun _ => { Process.zero with
    pid := 1
    mmHeap := [⟨0x40000000, 0x501000, 3, 7⟩]
    mmCode := ⟨0x50000000, 0x600000, 1, 7⟩ }
  lastPid := 2

end Moonlight
