import MoonlightKernel.Heap.GiveBack
import MoonlightKernel.Heap.Sizes

/-!
# When `kmalloc` succeeds

`kmalloc` looks for room in the regions of the list and sets up a new region otherwise.  The
result is about what happens when enough pages and frames are free for the new region
(`MemoryThere`) and the mapping of its pages, if `kmalloc` comes to it, succeeds.

The two scans miss a run that ends with the last bit of its bitmap, and `try_allocate` asks for
a block that is larger than the rounded request, where the new region may be exactly as large
(`kmalloc_succeeds_iff`).
-/

set_option autoImplicit false

namespace Moonlight

open Sys Sys.Bitmap Sys.Tiling

variable {L : Layout} {word : Machine → Nat → Nat}

/-- There are pages in the heap window and frames for a new region for `n` bytes. -/
structure MemoryThere (n : Nat) (h : Heap Machine) : Prop where
  pages : HasRun h.mmVirtHeap 0 (HEAP_SIZE / 4096) (regionSize n / 4096)
  frames : HasRun h.low.mmBitmap 1272 MAX_RAM_PAGE (regionSize n / 4096)

/-- `kmalloc` finds them: they are there without the last page of the window and the last
frame. -/
structure MemoryFound (n : Nat) (h : Heap Machine) : Prop where
  pages : HasRun h.mmVirtHeap 0 (HEAP_SIZE / 4096 - 1) (regionSize n / 4096)
  frames : HasRun h.low.mmBitmap 1272 (MAX_RAM_PAGE - 1) (regionSize n / 4096)

/-- The answer of `page_map_range` to the call by which `kmalloc` maps a new region. -/
def kmallocMaps (L : Layout) (n : Nat) (h : Heap Machine) : Int × Machine :=
  let virt := findFreeVirtAddr L (regionSize n) h.mmVirtHeap
  let phys := getPhysBlock (regionSize n >>> 12) h.low.mmBitmap
  pageMapRange L phys.1 virt.1 (PAGE_WRITE ||| PAGE_PRESENT) (regionSize n >>> 12)
    (h.low.setBitmap phys.2)

theorem memoryFound_iff {n : Nat} {h : Heap Machine} :
    MemoryFound n h ↔ (findFreeVirtAddr L (regionSize n) h.mmVirtHeap).1 ≠ 0 ∧
      (getPhysBlock (regionSize n >>> 12) h.low.mmBitmap).1 ≠ 0 := by
  have hframes : HasRun h.low.mmBitmap 1272 (MAX_RAM_PAGE - 1) (regionSize n / 4096) ↔
      (getPhysBlock (regionSize n >>> 12) h.low.mmBitmap).1 ≠ 0 := by
    rw [shiftRight_page]; exact (getPhysBlock_ne_zero_iff _ _).symm
  rw [findFreeVirtAddr_ne_zero_iff (regionSize_aligned n), ← hframes]
  exact ⟨fun h => ⟨h.pages, h.frames⟩, fun h => ⟨h.1, h.2⟩⟩

/-- A request that a region has room for is served. -/
theorem kmalloc_of_hasRoom {σ : Type} {B : Backing σ} {n : Nat} {h : Heap σ} (hn : n ≠ 0)
    (hroom : HasRoom 0 n h) : (kmalloc L B n h).1 ≠ 0 := by
  obtain ⟨f, hf⟩ := Option.ne_none_iff_exists'.mp (firstFitHead_ne_none_iff.mpr hroom)
  rw [kmalloc, if_neg hn, firstFit_eq, hf]
  simp [headerSize]

/-- Any other request is served from a new region, if one can be set up and has room. -/
theorem kmalloc_of_not_hasRoom {n : Nat} {h : Heap Machine} (hn : n ≠ 0) (hroom : ¬ HasRoom 0 n h)
    (hlo : 4096 ≤ regionSize n) (hhi : regionSize n < 2 ^ 31)
    (hmap : MemoryFound n h → (kmallocMaps L n h).1 = 0) :
    (kmalloc L (machineBacking L word) n h).1 ≠ 0 ↔
      MemoryFound n h ∧ MALLOC_ALIGN n < regionSize n - 48 := by
  have hnone : firstFitHead 0 n h.mem h.heapList = none := by
    by_contra hf
    exact hroom (firstFitHead_ne_none_iff.mp hf)
  rw [memoryFound_iff (L := L)] at hmap ⊢
  rw [kmalloc, if_neg hn, firstFit_eq, hnone]
  dsimp only [Option.map_none, machineBacking]
  split
  · rename_i hvirt
    simp [hvirt]
  rename_i hvirt
  split
  · rename_i hphys
    simp [hphys]
  rename_i hphys
  have hok := hmap ⟨hvirt, hphys⟩
  unfold kmallocMaps at hok
  rw [if_neg (not_not.mpr hok), and_iff_right ⟨hvirt, hphys⟩]
  obtain ⟨v, hv, hrun⟩ :=
    (findFreeVirtAddr_spec L (regionSize_aligned n) h.mmVirtHeap).resolve_left fun hv =>
      hvirt (by rw [hv])
  refine addRegion_ne_zero_iff (by decide) hlo hhi ?_ _ _
  rw [hv]
  exact hrun.size_le (regionSize_aligned n)

/-- The result of `kmalloc` in every state in which the mapping succeeds. -/
theorem kmalloc_ne_zero_iff {n : Nat} {h : Heap Machine} (hlo : 1 ≤ n) (hhi : n ≤ HEAP_SIZE)
    (hmap : MemoryFound n h → (kmallocMaps L n h).1 = 0) :
    (kmalloc L (machineBacking L word) n h).1 ≠ 0 ↔
      HasRoom 0 n h ∨ MemoryFound n h ∧ (MALLOC_ALIGN n + 48) % 4096 ≠ 0 := by
  unfold HEAP_SIZE at hhi
  have hsize := regionSize_of_le (n := n) (by omega)
  have halign := MALLOC_ALIGN_of_le (p := n) (by omega)
  -- the rounded request and its headers fill the new region exactly at a page boundary
  have hlt : MALLOC_ALIGN n < regionSize n - 48 ↔ (MALLOC_ALIGN n + 48) % 4096 ≠ 0 := by omega
  by_cases hroom : HasRoom 0 n h
  · exact iff_of_true (kmalloc_of_hasRoom (by omega) hroom) (.inl hroom)
  · rw [kmalloc_of_not_hasRoom (by omega) hroom (by omega) (by omega) hmap, hlt]
    exact (or_iff_right hroom).symm

/-- **When `kmalloc` succeeds with the memory there**: exactly when a region of the list has
room, or the memory is found and the request does not fill the new region exactly. -/
theorem kmalloc_succeeds_iff (L : Layout) (word : Machine → Nat → Nat) (h : Heap Machine) (n : Nat)
    (hlo : 1 ≤ n) (hhi : n ≤ HEAP_SIZE) (hmap : MemoryFound n h → (kmallocMaps L n h).1 = 0) :
    (MemoryThere n h → (kmalloc L (machineBacking L word) n h).1 ≠ 0) ↔
      (MemoryThere n h →
        HasRoom 0 n h ∨ MemoryFound n h ∧ (MALLOC_ALIGN n + 48) % 4096 ≠ 0) :=
  imp_congr_right fun _ => kmalloc_ne_zero_iff hlo hhi hmap

/-- On a heap with every page and frame free the memory is there. -/
theorem memoryThere_sample {n : Nat} (h : regionSize n = 4096) :
    MemoryThere n Client.sample.heap := by
  have hone : regionSize n / 4096 = 1 := by rw [h]
  constructor
  · rw [hone]
    refine ⟨0, by decide, by decide, fun q _ hq => ?_⟩
    obtain rfl : q = 0 := by omega
    decide
  · rw [hone]
    refine ⟨1272, by decide, by decide, fun q hq hq' => ?_⟩
    obtain rfl : q = 1272 := by omega
    decide

/-- 4048 bytes fill their page with its headers exactly, and are refused. -/
theorem kmalloc_refuses_exact_fit :
    1 ≤ 4048 ∧ 4048 ≤ HEAP_SIZE ∧ MemoryThere 4048 Client.sample.heap ∧
      (kmallocMaps .sample 4048 Client.sample.heap).1 = 0 ∧
      (kmalloc .sample (machineBacking .sample fun _ _ => 0) 4048 Client.sample.heap).1 = 0 :=
  ⟨by decide, by decide, memoryThere_sample (by decide +kernel), by decide +kernel, by decide +kernel⟩

/-- 4000 bytes are served. -/
theorem kmalloc_serves_4000 :
    (kmalloc .sample (machineBacking .sample fun _ _ => 0) 4000 Client.sample.heap).1 ≠ 0 := by
  have hfound : MemoryFound 4000 Client.sample.heap :=
    (memoryFound_iff (L := .sample)).mpr ⟨by decide +kernel, by decide +kernel⟩
  exact (kmalloc_succeeds_iff .sample (fun _ _ => 0) Client.sample.heap 4000 (by decide)
    (by decide) fun _ => by decide +kernel).mpr (fun _ => .inr ⟨hfound, by decide +kernel⟩)
    (memoryThere_sample (by decide +kernel))

end Moonlight
