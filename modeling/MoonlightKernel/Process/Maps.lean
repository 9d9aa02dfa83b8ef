import MoonlightKernel.Process.Memory
import MoonlightKernel.Unmap

/-!
# Pages and frames of a process

The relation between virtual pages and frames that the map records of a process describe, and
what the release of a run of frames does to it.

* `Backs` — the page-to-frame relation of a list of maps;
* `MapMemory.Disjoint` — two maps without a common address;
* `MapMemory.Ok` — a record as `process_memory_add` makes it: aligned, its frames inside
  `mm_bitmap`, its pages outside the directory entry of the kernel image.
-/

set_option autoImplicit false

namespace Moonlight

open Sys Sys.Bitmap

/-- The address of the `i`-th page of a map. -/
def MapMemory.page (pm : MapMemory) (i : Nat) : Nat := pm.vAddr + i * 4096

/-- The number of the `i`-th frame of a map. -/
def MapMemory.frame (pm : MapMemory) (i : Nat) : Nat := pm.pAddr / 4096 + i

/-- Page `v` belongs to one of the maps and the frame `f` stands behind it. -/
def Backs (maps : List MapMemory) (v f : Nat) : Prop :=
  ∃ pm ∈ maps, ∃ i, i < pm.size ∧ v = pm.page i ∧ f = pm.frame i

/-- A map record as the kernel builds it. -/
structure MapMemory.Ok (pm : MapMemory) : Prop where
  vAligned : pm.vAddr % 4096 = 0
  pAligned : pm.pAddr % 4096 = 0
  pages : ∀ i, i < pm.size → PageDir (dirIndex (pm.page i))
  frames : pm.pAddr / 4096 + pm.size ≤ 2 ^ 20

/-- Two maps share neither a page nor a frame. -/
def MapMemory.Apart (b c : MapMemory) : Prop :=
  ∀ i j, i < b.size → j < c.size → b.page i ≠ c.page j ∧ b.frame i ≠ c.frame j

/-- The addresses of a map. -/
def MapMemory.Covers (pm : MapMemory) (v : Nat) : Prop :=
  pm.vAddr ≤ v ∧ v < pm.vAddr + pm.size * 4096

/-- Two maps have no address in common. -/
def MapMemory.Disjoint (b c : MapMemory) : Prop := ∀ v, b.Covers v → ¬ c.Covers v

theorem Backs.append {b c : List MapMemory} {v f : Nat} :
    Backs (b ++ c) v f ↔ Backs b v f ∨ Backs c v f := by
  simp only [Backs, List.mem_append, or_and_right, exists_or]

theorem Backs.cons {pm : MapMemory} {c : List MapMemory} {v f : Nat} :
    Backs (pm :: c) v f ↔ (∃ i, i < pm.size ∧ v = pm.page i ∧ f = pm.frame i) ∨ Backs c v f := by
  simp only [Backs, List.mem_cons, or_and_right, exists_or, exists_eq_left]

end Moonlight
