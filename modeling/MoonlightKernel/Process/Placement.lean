import MoonlightKernel.Process.Mmap

/-!
# Where `mmap` places a map

* `search_complete_iff` — the search from a hint finds room if there is any, unless every room
  reaches over the hint;
* `kernel_placement_safe_iff` — a map in kernel space overlaps nothing, unless a map ends with the
  address space: its end is 0 in 32 bits, and no address is found to be in it;
* `mmap_ignores_loaded_directory_iff` — an `mmap` for another process does not depend on the page
  directory that is loaded, unless the page chosen is present in it.
-/

set_option autoImplicit false

namespace Moonlight

open Sys Sys.Bitmap

/-! ## The search is complete -/

/-- A map in user space. -/
def MapMemory.InUserSpace (pm : MapMemory) : Prop :=
  0 < pm.size → pm.vAddr % 4096 = 0 ∧ pm.vAddr + pm.size * 4096 ≤ 0xC0000000

/-- `n` pages of user space from `a` on that are in no map. -/
structure UserRoom (pr : Process) (n a : Nat) : Prop where
  aligned : a % 4096 = 0
  lo : 0x1000 ≤ a
  hi : a + n * 4096 ≤ 0xC0000000
  free : ∀ w, a ≤ w → w < a + n * 4096 → ∀ pm ∈ pr.maps, ¬ pm.Covers w

/-- A page is free when no map covers its address. -/
theorem freePage_iff {pr : Process} (hmaps : ∀ pm ∈ pr.maps, pm.Placed) (v : Nat) :
    FreePage pr v ↔ ∀ pm ∈ pr.maps, ¬ pm.Covers v := by
  constructor
  · intro h pm hpm hcov
    have hno := not_contains_of_freePage h hpm
    rw [contains_of_covers (hmaps pm hpm) hcov] at hno
    cases hno
  · intro h
    unfold FreePage mmapIsFree
    rw [Option.isNone_iff_eq_none]
    by_contra hsome
    obtain ⟨ref, href⟩ := Option.ne_none_iff_exists'.mp hsome
    obtain ⟨hmem, hcont⟩ := mmapGetBlock_map href
    exact h _ hmem (covers_of_contains hcont)

/-- The rooms of the search are the rooms of user space. -/
theorem userRoom_iff {pr : Process} (hmaps : ∀ pm ∈ pr.maps, pm.InUserSpace) {n : Nat} (hn : 0 < n)
    (a : Nat) : UserRoom pr n (a * 4096) ↔ a ∈ Rooms (PageFree pr) n 1 0xC0000 := by
  have hplaced : ∀ pm ∈ pr.maps, pm.Placed := fun pm hpm hs => by
    obtain ⟨hal, hhi⟩ := hmaps pm hpm hs
    exact ⟨hal, by omega⟩
  constructor
  · intro h
    have hlo := h.lo
    have hhi := h.hi
    refine ⟨hn, by omega, by omega, fun i hi => ?_⟩
    have hlow : a * 4096 ≤ (a + i) * 4096 := Nat.mul_le_mul_right 4096 (Nat.le_add_right a i)
    have hhigh : (a + i) * 4096 < a * 4096 + n * 4096 := by omega
    exact (freePage_iff hplaced _).mpr (h.free _ hlow hhigh)
  · rintro ⟨-, hlo, hhi, hfree⟩
    refine ⟨Nat.mul_mod_left a 4096, by omega, by omega, fun w h1 h2 pm hpm hcov => ?_⟩
    -- the page of `w` is one of the run, and the map covers its first address
    have hpage := (freePage_iff hplaced _).mp (hfree (w / 4096 - a) (by omega)) pm hpm
    unfold MapMemory.Covers at hcov hpage
    have hal := (hmaps pm hpm (by omega)).1
    omega

/-- The search of `mmap` ends, and gives up only when there is no room for the pages. -/
def SearchComplete (pr : Process) (addr size flags : Nat) : Prop :=
  ∃ r, mmapChoose pr addr (mmapGetNumberOfPage size) flags = some r ∧
    (r = -ENOMEM → ∀ a, ¬ UserRoom pr ((size + 4095) / 4096) a)

/-- The `n` pages from `a` on are on one side of the page where the search starts. -/
def BesideStart (addr flags n a : Nat) : Prop :=
  a + n * 4096 ≤ startPage addr flags * 4096 + 4096 ∨ startPage addr flags * 4096 < a

instance (addr flags n a : Nat) : Decidable (BesideStart addr flags n a) :=
  inferInstanceAs (Decidable (_ ∨ _))

section search

variable {pr : Process} {addr size flags : Nat}

/-- The search succeeds exactly when there is a room beside its start. -/
theorem exists_chosen_iff (hmod : addr % 4096 = 0) (hsize : size < 2 ^ 32)
    (hfix : flags &&& MAP_FIXED = 0) (hspace : flags &&& MAP_KERNEL_SPACE = 0)
    (hmaps : ∀ pm ∈ pr.maps, pm.InUserSpace) (hpos : 1 ≤ size) :
    (∃ a, Chosen pr addr (mmapGetNumberOfPage size) flags a) ↔
      ∃ a, UserRoom pr ((size + 4095) / 4096) a ∧
        BesideStart addr flags ((size + 4095) / 4096) a := by
  have hmax : maxAddr flags / 4096 + 1 = 0xC0000 := by
    unfold maxAddr
    rw [if_pos hspace]
    rfl
  obtain ⟨-, -, hstart⟩ := startPage_spec flags hmod
  simp only [chosen_search hfix]
  unfold BesideStart
  rcases (mmapGetNumberOfPage_spec hsize).2 with hn | hn
  · have hnpos : 0 < (size + 4095) / 4096 := by omega
    rw [hn]
    constructor
    · rintro ⟨a, ha⟩
      have hroom := ha.mem hstart
      rw [hmax] at hroom
      refine ⟨a * 4096, (userRoom_iff hmaps hnpos a).mpr hroom, ?_⟩
      rcases ha with h | ⟨-, h⟩
      · have hhi := h.1.2.2.1
        exact .inl (by omega)
      · have hlo := h.1.2.1
        exact .inr (by omega)
    · rintro ⟨a, hroom, hside⟩
      have hal := hroom.aligned
      obtain ⟨b, rfl⟩ : ∃ b, a = b * 4096 := ⟨a / 4096, by omega⟩
      obtain ⟨-, hlo, hhi, hfree⟩ := (userRoom_iff hmaps hnpos b).mp hroom
      refine exists_settles (b := b) ?_
      rcases hside with hside | hside
      · exact .inl ⟨hnpos, hlo, by omega, hfree⟩
      · exact .inr ⟨hnpos, by omega, by omega, hfree⟩
  · -- a size of nearly 4 GiB is rounded to 0 pages, and user space has no room for it
    have hbig : 2 ^ 20 ≤ (size + 4095) / 4096 := by
      unfold mmapGetNumberOfPage at hn
      rw [shiftRight_page, shiftRight_page] at hn
      unfold add32 at hn
      split at hn
      · omega
      · omega
    rw [hn]
    constructor
    · rintro ⟨a, ha⟩
      exact absurd (ha.mem hstart).1 (Nat.lt_irrefl 0)
    · rintro ⟨a, hroom, -⟩
      have hhi := hroom.hi
      omega

/-- **The search of `mmap` is complete** exactly when, if there is room for the pages, there is room
on one side of the hint. -/
theorem search_complete_iff (pr : Process) (addr size flags : Nat) (haddr : addr < 2 ^ 32)
    (hmod : addr % 4096 = 0) (hpos : 1 ≤ size) (hsize : size < 2 ^ 32)
    (hfix : flags &&& MAP_FIXED = 0) (hspace : flags &&& MAP_KERNEL_SPACE = 0)
    (hmaps : ∀ pm ∈ pr.maps, pm.InUserSpace) :
    SearchComplete pr addr size flags ↔
      ((∃ a, UserRoom pr ((size + 4095) / 4096) a) →
        ∃ a, UserRoom pr ((size + 4095) / 4096) a ∧
          BesideStart addr flags ((size + 4095) / 4096) a) := by
  have hiff := exists_chosen_iff hmod hsize hfix hspace hmaps hpos
  rcases mmapChoose_cases pr flags haddr hmod (mmapGetNumberOfPage_spec hsize).1 with
    ⟨a, hch, hr⟩ | ⟨hno, hr⟩
  · refine iff_of_true ⟨_, hr, fun h => ?_⟩ fun _ => hiff.mp ⟨a, hch⟩
    have hneg : (-ENOMEM : Int) < 0 := by decide
    omega
  · rw [if_neg (not_not.mpr hfix)] at hr
    constructor
    · rintro ⟨r, hr', hnone⟩ ⟨a, ha⟩
      rw [hr] at hr'
      exact absurd ha (hnone (Option.some.inj hr').symm a)
    · intro h
      refine ⟨_, hr, fun _ a ha => ?_⟩
      obtain ⟨b, hb⟩ := hiff.mpr (h ⟨a, ha⟩)
      exact hno b hb

end search

/-- A process whose maps leave two pages of user space free. -/
def Process.crowded : Process :=
  { Process.zero with mmHeap := [⟨0x1000, 0x600000, 0x3FFFF, 7⟩, ⟨0x40002000, 0x600000, 0x7FFFE, 7⟩] }

theorem crowded_maps : Process.crowded.maps =
    [⟨0x1000, 0x600000, 0x3FFFF, 7⟩, ⟨0x40002000, 0x600000, 0x7FFFE, 7⟩, ⟨0, 0, 0, 0⟩] := rfl

theorem crowded_inUserSpace : ∀ pm ∈ Process.crowded.maps, pm.InUserSpace := by
  rw [crowded_maps]
  simp only [List.forall_mem_cons, MapMemory.InUserSpace]
  refine ⟨fun _ => by decide, fun _ => by decide, fun h => absurd h (by decide), fun q hq => ?_⟩
  cases hq

/-- The two pages are at 1 GiB. -/
theorem crowded_room_iff {a : Nat} : UserRoom .crowded 2 a ↔ a = 0x40000000 := by
  constructor
  · rintro ⟨hal, hlo, hhi, hfree⟩
    have hfirst := hfree a (Nat.le_refl a) (by omega) ⟨0x1000, 0x600000, 0x3FFFF, 7⟩
      (by rw [crowded_maps]; simp)
    have hsecond := hfree (a + 0x1000) (by omega) (by omega) ⟨0x40002000, 0x600000, 0x7FFFE, 7⟩
      (by rw [crowded_maps]; simp)
    unfold MapMemory.Covers at hfirst hsecond
    dsimp only at hfirst hsecond
    omega
  · rintro rfl
    refine ⟨by decide, by decide, by decide, fun w h1 h2 => ?_⟩
    rw [crowded_maps]
    simp only [List.forall_mem_cons, MapMemory.Covers]
    refine ⟨by omega, by omega, by omega, fun q hq => ?_⟩
    cases hq

/-- Without a hint the search goes over all of user space in one run. -/
theorem search_from_the_top_is_complete : SearchComplete .crowded 0 0x2000 MAP_ANON := by
  refine (search_complete_iff .crowded 0 0x2000 MAP_ANON (by decide) (by decide) (by decide)
    (by decide) (by decide) (by decide) crowded_inUserSpace).mpr ?_
  rintro ⟨a, ha⟩
  have hstart : startPage 0 MAP_ANON = 0xBFFFF := by decide
  have hhi := ha.hi
  refine ⟨a, ha, .inl ?_⟩
  rw [hstart]
  omega

/-- With the hint at the first of the two pages it gives up. -/
theorem search_misses_room_at_hint :
    UserRoom .crowded 2 0x40000000 ∧
      mmapChoose .crowded 0x40000000 (mmapGetNumberOfPage 0x2000) MAP_ANON = some (-ENOMEM) ∧
      ¬ SearchComplete .crowded 0x40000000 0x2000 MAP_ANON := by
  have hroom : UserRoom .crowded 2 0x40000000 := crowded_room_iff.mpr rfl
  have hnone : ¬ ∃ a, Chosen .crowded 0x40000000 (mmapGetNumberOfPage 0x2000) MAP_ANON a := by
    rw [exists_chosen_iff (by decide) (by decide) (by decide) (by decide) crowded_inUserSpace
      (by decide)]
    rintro ⟨a, ha, hside⟩
    obtain rfl : a = 0x40000000 := crowded_room_iff.mp ha
    exact absurd hside (by decide)
  rcases @mmapChoose_cases .crowded 0x40000000 (mmapGetNumberOfPage 0x2000) MAP_ANON (by decide)
    (by decide) (by decide +kernel) with ⟨a, ha, -⟩ | ⟨-, hr⟩
  · exact absurd ⟨a, ha⟩ hnone
  · refine ⟨hroom, hr, ?_⟩
    rintro ⟨r, hr', h⟩
    rw [hr] at hr'
    exact h (Option.some.inj hr').symm _ hroom

/-! ## Maps in kernel space -/

/-- A map that starts on a page and lies in the address space. -/
def MapMemory.InSpace (pm : MapMemory) : Prop :=
  0 < pm.size → pm.vAddr % 4096 = 0 ∧ pm.vAddr + pm.size * 4096 ≤ 2 ^ 32

/-- The pages of the process are found in its maps, and an `mmap` that succeeds returns pages that
are in none of them. -/
structure PlacementSafe (L : Layout) (p addr size prot flags : Nat) (fd : Int) (offset : Nat)
    (k : Kernel) : Prop where
  apart : ∃ r k', mmap L p addr size prot flags fd offset k = some (r, k') ∧ (0 ≤ r →
    ∀ w : Nat, r ≤ w → w < r + ((size + 4095) / 4096 * 4096 : Nat) →
      ∀ q ∈ (k.proc p).maps, ¬ q.Covers w)
  found : ∀ q ∈ (k.proc p).maps, ∀ w, q.Covers w →
    ∃ ref, mmapGetBlock (k.proc p) w = some ref ∧ (k.proc p).map ref = q

section place

variable {L : Layout} {p addr size prot flags offset : Nat} {fd : Int} {k : Kernel}

/-- `mmap` returns, and what it returns when it succeeds is the page it has chosen. -/
theorem mmap_returns (L : Layout) (p prot flags : Nat) (fd : Int) (offset : Nat) (k : Kernel)
    (haddr : addr < 2 ^ 32) (hsize : size < 2 ^ 32) :
    ∃ r k', mmap L p addr size prot flags fd offset k = some (r, k') ∧
      (r < 0 ∨ addr % 4096 = 0 ∧ ∃ a, r = (a * 4096 : Nat) ∧
        Chosen (k.proc p) addr (mmapGetNumberOfPage size) flags a) := by
  unfold mmap
  rw [and_PAGE_FLAG]
  split
  · exact ⟨_, _, rfl, .inl (by decide)⟩
  rename_i hargs
  dsimp only
  split
  · exact ⟨_, _, rfl, .inl (by decide)⟩
  have hmod : addr % 4096 = 0 := by omega
  rcases mmapChoose_cases (k.proc p) flags haddr hmod (mmapGetNumberOfPage_spec hsize).1
    with ⟨a, hch, hr⟩ | ⟨-, hr⟩
  · rw [hr, Option.map_some, if_neg (by omega)]
    have hpf := mmap_pflags (k.current = some p)
    generalize (if k.current = some p then PROC_MEM_ADD_HEAP ||| PROC_MEM_ADD_IMEDIATE
      else PROC_MEM_ADD_HEAP) = pflags at hpf
    have hadd := processMemoryAdd_le L p (mmapGetNumberOfPage size <<< 12)
      ((a * 4096 : Nat) : Int).toNat k hpf (mmapFlags_present prot)
    generalize processMemoryAdd L p (mmapGetNumberOfPage size <<< 12) ((a * 4096 : Nat) : Int).toNat
      (mmapFlags prot) pflags k = r at hadd ⊢
    by_cases hok : r.1 = 0
    · rw [if_neg (not_not.mpr hok)]
      exact ⟨_, _, rfl, .inr ⟨hmod, a, rfl, hch⟩⟩
    · rw [if_pos hok]
      exact ⟨_, _, rfl, .inl (by omega)⟩
  · have hneg : (if flags &&& MAP_FIXED ≠ 0 then -EINVAL else -ENOMEM) < 0 := by
      split
      · decide
      · decide
    rw [hr, Option.map_some, if_pos hneg]
    exact ⟨_, _, rfl, .inl hneg⟩

/-- A map that covers an address is the one that is found there, when no address is covered
twice. -/
theorem found_of_placed {pr : Process} (hplaced : ∀ q ∈ pr.maps, q.Placed)
    (hdis : pr.maps.Pairwise MapMemory.Disjoint) {q : MapMemory} (hq : q ∈ pr.maps) {w : Nat}
    (hcov : q.Covers w) : ∃ ref, mmapGetBlock pr w = some ref ∧ pr.map ref = q := by
  have hsome : mmapGetBlock pr w ≠ none := fun hnone => by
    have hfree : FreePage pr w := by
      unfold FreePage mmapIsFree
      rw [hnone]
      rfl
    exact (freePage_iff hplaced w).mp hfree q hq hcov
  obtain ⟨ref, href⟩ := Option.ne_none_iff_exists'.mp hsome
  obtain ⟨hmem, hcont⟩ := mmapGetBlock_map href
  refine ⟨ref, href, ?_⟩
  by_contra hne
  have : Std.Symm MapMemory.Disjoint := ⟨fun b c h v hc hb => h v hb hc⟩
  exact hdis.forall hmem hq hne w (covers_of_contains hcont) hcov

/-- **A map, in kernel space or not, overlaps nothing** and every map is found, exactly when no map of
the process ends with the address space. -/
theorem kernel_placement_safe_iff (L : Layout) (p addr size prot flags : Nat) (fd : Int)
    (offset : Nat) (k : Kernel) (haddr : addr < 2 ^ 32) (hsize : size < 2 ^ 32)
    (hmaps : ∀ q ∈ (k.proc p).maps, q.InSpace)
    (hdis : (k.proc p).maps.Pairwise MapMemory.Disjoint) :
    PlacementSafe L p addr size prot flags fd offset k ↔
      ∀ q ∈ (k.proc p).maps, 0 < q.size → q.vAddr + q.size * 4096 ≠ 2 ^ 32 := by
  constructor
  · intro h q hq hpos hend
    obtain ⟨ref, href, hmap⟩ := h.found q hq q.vAddr ⟨Nat.le_refl _, by omega⟩
    -- the end of the map is 0 in 32 bits
    have hcont := (mmapGetBlock_map href).2
    rw [hmap, MapMemory.contains, decide_eq_true_eq, shiftLeft_page] at hcont
    have hwrap : add32 q.vAddr (q.size * 4096) = 0 := by
      unfold add32
      rw [hend, Nat.mod_self]
    omega
  · intro hends
    have hplaced : ∀ q ∈ (k.proc p).maps, q.Placed := fun q hq hpos => by
      obtain ⟨hal, hhi⟩ := hmaps q hq hpos
      have hne := hends q hq hpos
      exact ⟨hal, by omega⟩
    refine ⟨?_, fun q hq w hcov => found_of_placed hplaced hdis hq hcov⟩
    obtain ⟨r, k', hr, hcase⟩ := mmap_returns L p prot flags fd offset k haddr hsize
    refine ⟨r, k', hr, fun hnonneg w h1 h2 q hq hcov => ?_⟩
    rcases hcase with hneg | ⟨hmod, a, rfl, hch⟩
    · omega
    · obtain ⟨hn, -, -, hfree⟩ := hch.mem hmod
      have hpages : mmapGetNumberOfPage size = (size + 4095) / 4096 :=
        (mmapGetNumberOfPage_spec hsize).2.resolve_right (Nat.ne_of_gt hn)
      rw [hpages] at hfree
      -- the pages returned, as a map of their own
      have hnew : MapMemory.Disjoint ⟨a * 4096, 0, (size + 4095) / 4096, 0⟩ q :=
        FreePages.disjoint (Nat.mul_mod_left a 4096) (freePages_iff.mpr hfree) hq (hplaced q hq)
      exact hnew w ⟨by dsimp only; omega, by dsimp only; omega⟩ hcov

end place

/-- The maps of `Kernel.roomy` end below the kernel. -/
theorem roomy_placement_safe :
    PlacementSafe .sample 1 0 0x3000 3 (MAP_ANON ||| MAP_KERNEL_SPACE) (-1) 0 .roomy := by
  refine (kernel_placement_safe_iff .sample 1 0 0x3000 3 (MAP_ANON ||| MAP_KERNEL_SPACE) (-1) 0 .roomy
    (by decide) (by decide) ?_ ?_).mpr ?_
  · rw [roomy_maps]
    simp only [List.forall_mem_cons, MapMemory.InSpace]
    refine ⟨fun _ => by decide, fun _ => by decide, fun _ => by decide, fun q hq => ?_⟩
    cases hq
  · rw [roomy_maps]
    simp only [MapMemory.Disjoint, MapMemory.Covers, List.pairwise_cons, List.mem_cons,
      List.not_mem_nil, or_false, forall_eq_or_imp, forall_eq]
    refine ⟨⟨fun v h h' => ?_, fun v h h' => ?_⟩, fun v h h' => ?_, by simp⟩ <;> omega
  · rw [roomy_maps]
    simp only [List.forall_mem_cons]
    refine ⟨fun _ => by decide, fun _ => by decide, fun _ => by decide, fun q hq => ?_⟩
    cases hq

/-- A process whose map is the last page of the address space. -/
def Kernel.atTop : Kernel := .single ⟨0xFFFFF000, 0x600000, 1, 7⟩ Kernel.ready.machine none

/-- The last page is given out a second time. -/
theorem last_page_is_placed_twice :
    (mmap .sample 1 0 0x1000 3 (MAP_ANON ||| MAP_KERNEL_SPACE) (-1) 0 .atTop).map Prod.fst =
        some 0xFFFFF000 ∧
      (Kernel.atTop.proc 1).maps.Pairwise MapMemory.Disjoint ∧
      ¬ PlacementSafe .sample 1 0 0x1000 3 (MAP_ANON ||| MAP_KERNEL_SPACE) (-1) 0 .atTop := by
  have hr : (mmap .sample 1 0 0x1000 3 (MAP_ANON ||| MAP_KERNEL_SPACE) (-1) 0 .atTop).map Prod.fst =
      some 0xFFFFF000 := by decide +kernel
  refine ⟨hr, single_disjoint _ _ _, fun h => ?_⟩
  obtain ⟨r, k', hm, hsafe⟩ := h.apart
  rw [hm] at hr
  have hr : r = 0xFFFFF000 := Option.some.inj hr
  subst hr
  exact hsafe (by decide) 0xFFFFF000 (by decide) (by decide) ⟨0xFFFFF000, 0x600000, 1, 7⟩
    List.mem_cons_self ⟨by decide, by decide⟩

/-! ## The loaded page directory -/

/-- What `mmap` depends on, and what it changes, of a process. -/
def Process.mm (pr : Process) : List MapMemory × List MapMemory × MapMemory :=
  (pr.mmHeap, pr.mmStack, pr.mmCode)

/-- The value that `mmap` returns and the maps that it leaves. -/
def mmapView (L : Layout) (p addr size prot flags : Nat) (fd : Int) (offset : Nat) (k : Kernel) :
    Option (Int × List MapMemory × List MapMemory × MapMemory) :=
  (mmap L p addr size prot flags fd offset k).map fun r => (r.1, (r.2.proc p).mm)

/-- Two states agree on the maps of a process, on the heap and on `mm_bitmap`. -/
structure AgreeOn (p : Nat) (k₁ k₂ : Kernel) : Prop where
  maps : (k₁.proc p).mm = (k₂.proc p).mm
  heap : k₁.kmallocs = k₂.kmallocs
  frames : k₁.machine.mmBitmap = k₂.machine.mmBitmap

/-- The arguments pass the checks of `mmap`. -/
def Accepted (addr size flags : Nat) (fd : Int) (offset : Nat) : Prop :=
  (size ≠ 0 ∧ addr % 4096 = 0) ∧ flags &&& MAP_ANON ≠ 0 ∧ fd = -1 ∧ offset = 0

section view

variable {L : Layout} {p addr size prot flags offset : Nat} {fd : Int} {k : Kernel}

/-- Only the maps of the process decide which pages are free. -/
theorem pageFree_congr {pr₁ pr₂ : Process} (h : pr₁.mm = pr₂.mm) : PageFree pr₁ = PageFree pr₂ := by
  obtain ⟨hheap, hrest⟩ := Prod.ext_iff.mp h
  obtain ⟨hstack, hcode⟩ := Prod.ext_iff.mp hrest
  have hblock : mmapGetBlock pr₁ = mmapGetBlock pr₂ := by
    funext v
    unfold mmapGetBlock
    rw [show pr₁.mmHeap = pr₂.mmHeap from hheap, show pr₁.mmStack = pr₂.mmStack from hstack,
      show pr₁.mmCode = pr₂.mmCode from hcode]
  funext v
  unfold PageFree FreePage mmapIsFree
  rw [hblock]

theorem chosen_congr {pr₁ pr₂ : Process} (h : pr₁.mm = pr₂.mm) (n a : Nat) :
    Chosen pr₁ addr n flags a ↔ Chosen pr₂ addr n flags a := by
  unfold Chosen
  rw [pageFree_congr h]

theorem mmapView_refused (h : ¬ Accepted addr size flags fd offset) :
    mmapView L p addr size prot flags fd offset k =
      some (if size = 0 ∨ addr % 4096 ≠ 0 then -EINVAL else -ENOSYS, (k.proc p).mm) := by
  unfold mmapView mmap
  rw [and_PAGE_FLAG]
  by_cases hargs : size = 0 ∨ addr % 4096 ≠ 0
  · rw [if_pos hargs, if_pos hargs, Option.map_some]
  · rw [if_neg hargs, if_neg hargs]
    rw [not_or, not_not] at hargs
    have hsys : flags &&& MAP_ANON = 0 ∨ fd ≠ -1 ∨ offset ≠ 0 := by
      by_contra hno
      rw [not_or, not_or, not_not, not_not] at hno
      exact h ⟨hargs, hno⟩
    dsimp only
    rw [if_pos hsys, Option.map_some]

/-- **An `mmap` for another process**: no page is chosen, or the page chosen is refused, or the map is
added. -/
theorem mmapView_cases (L : Layout) (prot : Nat) (haddr : addr < 2 ^ 32) (hsize : size < 2 ^ 32)
    (hacc : Accepted addr size flags fd offset) (hcur : k.current ≠ some p) :
    ((∀ a, ¬ Chosen (k.proc p) addr (mmapGetNumberOfPage size) flags a) ∧
        mmapView L p addr size prot flags fd offset k =
          some (if flags &&& MAP_FIXED ≠ 0 then -EINVAL else -ENOMEM, (k.proc p).mm)) ∨
      ∃ a, Chosen (k.proc p) addr (mmapGetNumberOfPage size) flags a ∧
        (AddRefused L k (a * 4096) (mmapGetNumberOfPage size) ∧
            mmapView L p addr size prot flags fd offset k = some (-ENOMEM, (k.proc p).mm) ∨
          ¬ AddRefused L k (a * 4096) (mmapGetNumberOfPage size) ∧
            mmapView L p addr size prot flags fd offset k = some (((a * 4096 : Nat) : Int),
              ⟨a * 4096, (getPhysBlock (mmapGetNumberOfPage size) k.machine.mmBitmap).1,
                mmapGetNumberOfPage size, mmapFlags prot⟩ :: (k.proc p).mmHeap,
              (k.proc p).mmStack, (k.proc p).mmCode)) := by
  obtain ⟨⟨hpos, hmod⟩, hanon, hfd, hoff⟩ := hacc
  have hn := (mmapGetNumberOfPage_spec hsize).1
  unfold mmapView mmap
  rw [and_PAGE_FLAG, if_neg (not_or.mpr ⟨hpos, not_not.mpr hmod⟩)]
  dsimp only
  rw [if_neg (not_or.mpr ⟨hanon, not_or.mpr ⟨not_not.mpr hfd, not_not.mpr hoff⟩⟩), if_neg hcur]
  rcases mmapChoose_cases (k.proc p) flags haddr hmod hn with ⟨a, hch, hr⟩ | ⟨hno, hr⟩
  · obtain ⟨hnpos, -, hhi, -⟩ := hch.mem hmod
    obtain ⟨-, -, hmax⟩ := maxAddr_page flags
    have hlt : a * 4096 < 2 ^ 32 := by omega
    have halign : a * 4096 % 4096 = 0 := Nat.mul_mod_left a 4096
    obtain ⟨hbase, -⟩ := whole_pages halign hlt hn
    have hadd := processMemoryAdd_cases L p (mmapGetNumberOfPage size * 4096) (a * 4096)
      PROC_MEM_ADD_HEAP k (mmapFlags_present prot)
    rw [hbase, addPages_whole halign hlt hn] at hadd
    refine .inr ⟨a, hch, ?_⟩
    rw [hr, Option.map_some, if_neg (by omega), Int.toNat_natCast, shiftLeft_page]
    refine hadd.imp ?_ ?_
    · rintro ⟨href, herr, hproc⟩
      refine ⟨href, ?_⟩
      rw [herr, if_pos (by decide), Option.map_some, herr, hproc]
    · rintro ⟨href, f, k', hstart, hfill⟩
      obtain ⟨hok, hproc⟩ := @processMemoryFill_later L p f (a * 4096) _ (mmapFlags prot) k' k hstart
      refine ⟨href, ?_⟩
      rw [hfill, hok, if_neg (not_not.mpr rfl), Option.map_some, hproc, hstart.got]
      rfl
  · have hneg : (if flags &&& MAP_FIXED ≠ 0 then -EINVAL else -ENOMEM) < 0 := by
      split
      · decide
      · decide
    refine .inl ⟨hno, ?_⟩
    rw [hr, Option.map_some, if_pos hneg, Option.map_some]

/-- **An `mmap` for another process does not depend on the loaded page directory** exactly when the
page it chooses is seen as absent in both states or in neither, or when there is no record or no
frame for it anyway. -/
theorem mmap_ignores_loaded_directory_iff (L : Layout) (p addr size prot flags : Nat) (fd : Int)
    (offset : Nat) (k₁ k₂ : Kernel) (haddr : addr < 2 ^ 32) (hsize : size < 2 ^ 32)
    (h : AgreeOn p k₁ k₂) (h₁ : k₁.current ≠ some p) (h₂ : k₂.current ≠ some p) :
    mmapView L p addr size prot flags fd offset k₁ = mmapView L p addr size prot flags fd offset k₂ ↔
      ∀ a, Accepted addr size flags fd offset →
        Chosen (k₁.proc p) addr (mmapGetNumberOfPage size) flags a → k₁.kmallocs 0 ≠ none →
          (getPhysBlock (mmapGetNumberOfPage size) k₁.machine.mmBitmap).1 ≠ 0 →
            ((pageGetPhys L (a * 4096) k₁.machine).1 = 0 ↔
              (pageGetPhys L (a * 4096) k₂.machine).1 = 0) := by
  by_cases hacc : Accepted addr size flags fd offset
  swap
  · rw [mmapView_refused hacc, mmapView_refused hacc, h.maps]
    exact iff_of_true rfl fun _ hacc' => absurd hacc' hacc
  rcases mmapView_cases L prot haddr hsize hacc h₁ with ⟨hno₁, hv₁⟩ | ⟨a, ha, hcase₁⟩
  · rcases mmapView_cases L prot haddr hsize hacc h₂ with ⟨-, hv₂⟩ | ⟨b, hb, -⟩
    · rw [hv₁, hv₂, h.maps]
      exact iff_of_true rfl fun a _ ha => absurd ha (hno₁ a)
    · exact absurd ((chosen_congr h.maps _ b).mpr hb) (hno₁ b)
  rcases mmapView_cases L prot haddr hsize hacc h₂ with ⟨hno₂, -⟩ | ⟨b, hb, hcase₂⟩
  · exact absurd ((chosen_congr h.maps _ a).mp ha) (hno₂ a)
  -- both choose the same page
  obtain rfl : a = b := ha.unique ((chosen_congr h.maps _ b).mpr hb)
  have hmaps := h.maps
  obtain ⟨hheap, hrest⟩ := Prod.ext_iff.mp hmaps
  obtain ⟨hstack, hcode⟩ := Prod.ext_iff.mp hrest
  rw [addRefused_iff] at hcase₁ hcase₂
  rw [← h.heap, ← h.frames] at hcase₂
  have hneg : (-ENOMEM : Int) < 0 := by decide
  rcases hcase₁ with ⟨href₁, hv₁⟩ | ⟨hok₁, hv₁⟩
  · rcases hcase₂ with ⟨href₂, hv₂⟩ | ⟨hok₂, hv₂⟩
    · rw [hv₁, hv₂, hmaps]
      refine iff_of_true rfl fun c _ hc hrec hget => ?_
      obtain rfl : a = c := ha.unique hc
      exact iff_of_false (href₁.resolve_right (not_or.mpr ⟨hrec, hget⟩))
        (href₂.resolve_right (not_or.mpr ⟨hrec, hget⟩))
    · rw [not_or, not_or, not_not] at hok₂
      rw [hv₁, hv₂]
      refine iff_of_false (fun heq => ?_) fun hall => ?_
      · have hr := congrArg Prod.fst (Option.some.inj heq)
        dsimp only at hr
        omega
      · exact href₁.resolve_right (not_or.mpr hok₂.2)
          ((hall a hacc ha hok₂.2.1 hok₂.2.2).mpr hok₂.1)
  · rw [not_or, not_or, not_not] at hok₁
    rcases hcase₂ with ⟨href₂, hv₂⟩ | ⟨hok₂, hv₂⟩
    · rw [hv₁, hv₂]
      refine iff_of_false (fun heq => ?_) fun hall => ?_
      · have hr := congrArg Prod.fst (Option.some.inj heq)
        dsimp only at hr
        omega
      · exact href₂.resolve_right (not_or.mpr hok₁.2)
          ((hall a hacc ha hok₁.2.1 hok₁.2.2).mp hok₁.1)
    · rw [not_or, not_or, not_not] at hok₂
      rw [hv₁, hv₂, show (k₁.proc p).mmHeap = (k₂.proc p).mmHeap from hheap,
        show (k₁.proc p).mmStack = (k₂.proc p).mmStack from hstack,
        show (k₁.proc p).mmCode = (k₂.proc p).mmCode from hcode]
      refine iff_of_true rfl fun c _ hc _ _ => ?_
      obtain rfl : a = c := ha.unique hc
      exact iff_of_true hok₁.1 hok₂.1

end view

/-- A machine with two frames taken, -/
def Machine.twoTaken : Machine :=
  Kernel.ready.machine.setBitmap (clearRun 0x4F8 2 Kernel.ready.machine.mmBitmap)

/-- and the same with the last page of user space present in the directory, on these frames. -/
def Machine.lastUserPage : Machine := (Machine.twoTaken.setDir 767 0x4F8003).write 0x4F8 1023 0x4F9003

/-- A process that is not running, under one directory and under the other. -/
def Kernel.waiting (machine : Machine) : Kernel := .single ⟨0x40000000, 0x600000, 1, 7⟩ machine none

theorem waiting_agree : AgreeOn 1 (.waiting .twoTaken) (.waiting .lastUserPage) :=
  ⟨rfl, rfl, rfl⟩

/-- With its hint below the page that is present the call does not see the directory. -/
theorem low_hint_ignores_directory :
    mmapView .sample 1 0x50000000 0x1000 3 MAP_ANON (-1) 0 (.waiting .twoTaken) =
      mmapView .sample 1 0x50000000 0x1000 3 MAP_ANON (-1) 0 (.waiting .lastUserPage) := by
  refine (mmap_ignores_loaded_directory_iff .sample 1 0x50000000 0x1000 3 MAP_ANON (-1) 0 _ _
    (by decide) (by decide) waiting_agree (by decide) (by decide)).mpr fun a _ ha _ _ => ?_
  have hpage : a = 0x50000 := by
    have hr : mmapChoose ((Kernel.waiting Machine.twoTaken).proc 1) 0x50000000
        (mmapGetNumberOfPage 0x1000) MAP_ANON = some 0x50000000 := by decide +kernel
    rcases @mmapChoose_cases ((Kernel.waiting Machine.twoTaken).proc 1) 0x50000000
      (mmapGetNumberOfPage 0x1000) MAP_ANON (by decide) (by decide) (by decide +kernel) with ⟨b, hb, hr'⟩ | ⟨hno, -⟩
    · obtain rfl := ha.unique hb
      rw [hr] at hr'
      have hr' := Option.some.inj hr'
      omega
    · exact absurd ha (hno a)
  rw [hpage]
  exact iff_of_true (by decide +kernel) (by decide +kernel)

/-- Without a hint the page that is present in the loaded directory is chosen, and refused. -/
theorem loaded_page_is_refused :
    AgreeOn 1 (.waiting .twoTaken) (.waiting .lastUserPage) ∧
      (mmap .sample 1 0 0x1000 3 MAP_ANON (-1) 0 (.waiting .twoTaken)).map Prod.fst =
        some 0xBFFFF000 ∧
      (mmap .sample 1 0 0x1000 3 MAP_ANON (-1) 0 (.waiting .lastUserPage)).map Prod.fst =
        some (-ENOMEM) ∧
      mmapView .sample 1 0 0x1000 3 MAP_ANON (-1) 0 (.waiting .twoTaken) ≠
        mmapView .sample 1 0 0x1000 3 MAP_ANON (-1) 0 (.waiting .lastUserPage) := by
  have h₁ : (mmap .sample 1 0 0x1000 3 MAP_ANON (-1) 0 (.waiting .twoTaken)).map Prod.fst =
      some 0xBFFFF000 := by decide +kernel
  have h₂ : (mmap .sample 1 0 0x1000 3 MAP_ANON (-1) 0 (.waiting .lastUserPage)).map Prod.fst =
      some (-ENOMEM) := by decide +kernel
  refine ⟨waiting_agree, h₁, h₂, fun heq => ?_⟩
  have hfst := congrArg (Option.map Prod.fst) heq
  unfold mmapView at hfst
  rw [Option.map_map, Option.map_map] at hfst
  have hval : some (0xBFFFF000 : Int) = some (-ENOMEM) := h₁.symm.trans (hfst.trans h₂)
  exact absurd hval (by decide)

end Moonlight
