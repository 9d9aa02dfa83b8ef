import MoonlightKernel.Boot.MemoryInit
import MoonlightKernel.Lib.Walk

/-!
# When the walk over the boot information ends

`memory_init_grub` goes from tag to tag, and from entry to entry of the memory map, by lengths that
it reads from the tags.

* `bootInfo_of_tagLoop` — a walk that ends has come along a `BootInfo`;
* `NextTag` — one tag behind another one that is neither the end nor a memory map;
* `entries_end_iff` — when the walk over the entries ends;
* `multiboot_walk_ends_iff` — when `memory_init_grub` ends: no tag leads back to itself, and the
  entries of the memory map get to its end.
-/

set_option autoImplicit false

namespace Moonlight

open Sys Relation

section walk

variable {mem : Bytes}

/-! ## A walk that ends -/

theorem entriesAt_of_entryLoop {stop entrySize fuel mmap : Nat} {bm bm' : Bytes}
    (h : entryLoop mem stop entrySize fuel mmap bm = some bm') :
    ∃ es, EntriesAt mem stop entrySize mmap es := by
  induction fuel generalizing mmap bm with
  | zero => cases h
  | succ fuel ih =>
    rw [entryLoop] at h
    split at h
    · rename_i hlt
      obtain ⟨es, hes⟩ := ih h
      exact ⟨_, .cons hlt hes⟩
    · rename_i hge
      exact ⟨[], .nil hge⟩

theorem bootInfo_of_tagLoop {fuel tag : Nat} {bm bm' : Bytes}
    (h : tagLoop mem fuel tag bm = some bm') : ∃ es, BootInfo mem tag es := by
  induction fuel generalizing tag bm with
  | zero => cases h
  | succ fuel ih =>
    rw [tagLoop] at h
    split at h
    · rename_i hend
      exact ⟨[], .last hend⟩
    rename_i hend
    split at h
    · rename_i hmap
      obtain ⟨es, hes⟩ := entriesAt_of_entryLoop h
      exact ⟨es, .mmap hmap hes⟩
    · rename_i hmap
      obtain ⟨es, hes⟩ := ih h
      exact ⟨es, .other hend hmap hes⟩

/-! ## The entries -/

/-- The entry of index `k`. -/
theorem entries_end_iff_exists {stop entrySize mmap : Nat} (hmmap : mmap < 2 ^ 32) :
    (∃ es, EntriesAt mem stop entrySize mmap es) ↔
      ∃ k, stop ≤ (mmap + k * entrySize) % 2 ^ 32 := by
  constructor
  · rintro ⟨es, hes⟩
    induction hes with
    | @nil mmap hge =>
      refine ⟨0, ?_⟩
      rw [Nat.zero_mul, Nat.add_zero, Nat.mod_eq_of_lt hmmap]
      exact not_lt.mp hge
    | @cons mmap es _ _ ih =>
      obtain ⟨k, hk⟩ := ih (add32_lt _ _)
      refine ⟨k + 1, ?_⟩
      unfold add32 at hk
      rwa [Nat.mod_add_mod, Nat.add_assoc, Nat.add_comm entrySize, ← Nat.succ_mul] at hk
  · rintro ⟨k, hk⟩
    induction k generalizing mmap with
    | zero =>
      rw [Nat.zero_mul, Nat.add_zero, Nat.mod_eq_of_lt hmmap] at hk
      exact ⟨[], .nil (not_lt.mpr hk)⟩
    | succ k ih =>
      by_cases hlt : mmap < stop
      · obtain ⟨es, hes⟩ := ih (add32_lt mmap entrySize) (by
          unfold add32
          rwa [Nat.mod_add_mod, Nat.add_assoc, Nat.add_comm entrySize, ← Nat.succ_mul])
        exact ⟨_, .cons hlt hes⟩
      · exact ⟨[], .nil hlt⟩

/-- The step around the 32-bit addresses that an entry size comes down to; all of them for 0. -/
def stride (entrySize : Nat) : Nat := Nat.gcd entrySize (2 ^ 32)

/-- **The walk over the entries ends** exactly when the last address that it can come to is not below
the end of the tag. -/
theorem entries_end_iff (mem : Bytes) {stop entrySize mmap : Nat} (hmmap : mmap < 2 ^ 32) :
    (∃ es, EntriesAt mem stop entrySize mmap es) ↔
      stop ≤ 2 ^ 32 - stride entrySize + mmap % stride entrySize := by
  rw [entries_end_iff_exists hmmap]
  exact exists_le_mod_iff (by decide)

/-! ## The tags -/

/-- A tag that is neither the end nor a memory map, and the one behind it. -/
def NextTag (mem : Bytes) (tag tag' : Nat) : Prop :=
  tagType mem tag ≠ MULTIBOOT_TAG_TYPE_END ∧ tagType mem tag ≠ MULTIBOOT_TAG_TYPE_MMAP ∧
    tag' = nextTag mem tag

/-- The entries of the memory map at `tag` get to its end. -/
def MapEnds (mem : Bytes) (tag : Nat) : Prop :=
  add32 tag (tagSize mem tag) ≤ 2 ^ 32 - stride (tagEntrySize mem tag) +
    tagEntries tag % stride (tagEntrySize mem tag)

instance (mem : Bytes) (tag : Nat) : Decidable (MapEnds mem tag) :=
  inferInstanceAs (Decidable (_ ≤ _))

/-- The tags from `tag` on do not come back to one of them, and a memory map among them ends. -/
structure TagsEnd (mem : Bytes) (tag : Nat) : Prop where
  noReturn : ∀ t, ReflTransGen (NextTag mem) tag t → ¬ TransGen (NextTag mem) t t
  maps : ∀ t, ReflTransGen (NextTag mem) tag t → tagType mem t = MULTIBOOT_TAG_TYPE_MMAP →
    MapEnds mem t

theorem nextTag_lt (tag : Nat) : nextTag mem tag < 2 ^ 32 := add32_lt _ _

/-- There are finitely many addresses. -/
theorem tags_finite {tag : Nat} (htag : tag < 2 ^ 32) :
    {t | ReflTransGen (NextTag mem) tag t}.Finite := by
  refine (Set.finite_lt_nat (2 ^ 32)).subset ?_
  intro t ht
  cases ht with
  | refl => exact htag
  | tail _ hstep => exact hstep.2.2 ▸ nextTag_lt _

theorem bootInfo_iff_acc {tag : Nat} : (∃ es, BootInfo mem tag es) ↔
    Acc (Function.swap (NextTag mem)) tag ∧
      ∀ t, ReflTransGen (NextTag mem) tag t → tagType mem t = MULTIBOOT_TAG_TYPE_MMAP →
        MapEnds mem t := by
  constructor
  · rintro ⟨es, hes⟩
    induction hes with
    | last hend =>
      refine ⟨.intro _ fun t ht => absurd hend ht.1, fun t ht hmap => ?_⟩
      cases ht.cases_head with
      | inl heq =>
        subst heq
        rw [hend] at hmap
        exact absurd hmap (by decide)
      | inr h => exact absurd hend h.choose_spec.1.1
    | @mmap tag es hmap hes =>
      refine ⟨.intro _ fun t ht => absurd hmap ht.2.1, fun t ht _ => ?_⟩
      cases ht.cases_head with
      | inl heq =>
        subst heq
        exact (entries_end_iff mem (add32_lt _ _)).mp ⟨es, hes⟩
      | inr h => exact absurd hmap h.choose_spec.1.2.1
    | @other tag es hend hmap _ ih =>
      refine ⟨.intro _ fun t ht => ?_, fun t ht hmapt => ?_⟩
      · obtain ⟨-, -, rfl⟩ := ht
        exact ih.1
      · rcases ht.cases_head with rfl | ⟨t', ⟨-, -, rfl⟩, hrest⟩
        · exact absurd hmapt hmap
        · exact ih.2 t hrest hmapt
  · rintro ⟨hacc, hmaps⟩
    induction hacc with
    | intro tag _ ih =>
      by_cases hend : tagType mem tag = MULTIBOOT_TAG_TYPE_END
      · exact ⟨[], .last hend⟩
      by_cases hmap : tagType mem tag = MULTIBOOT_TAG_TYPE_MMAP
      · obtain ⟨es, hes⟩ := (entries_end_iff mem (add32_lt tag 16)).mpr (hmaps tag .refl hmap)
        exact ⟨es, .mmap hmap hes⟩
      · have hstep : NextTag mem tag (nextTag mem tag) := ⟨hend, hmap, rfl⟩
        obtain ⟨es, hes⟩ := ih _ hstep fun t ht => hmaps t (.head hstep ht)
        exact ⟨es, .other hend hmap hes⟩

/-- **The walk over the tags ends** exactly when none leads back to itself and the memory map ends. -/
theorem bootInfo_iff {tag : Nat} (htag : tag < 2 ^ 32) :
    (∃ es, BootInfo mem tag es) ↔ TagsEnd mem tag := by
  rw [bootInfo_iff_acc, acc_iff_no_return (tags_finite htag)]
  exact ⟨fun h => ⟨h.1, h.2⟩, fun h => ⟨h.noReturn, h.maps⟩⟩

end walk

/-- **`memory_init_grub` ends**, with a panic or after its walk, exactly when it refuses its
arguments or the tags end. -/
theorem multiboot_walk_ends_iff (mem : Bytes) (magic addr : Nat) (bm : Bytes) :
    (∃ r n, ∀ fuel, n ≤ fuel → memoryInitGrub fuel mem magic addr bm = some r) ↔
      magic ≠ MULTIBOOT2_BOOTLOADER_MAGIC ∨ addr &&& 7 ≠ 0 ∨ TagsEnd mem (add32 addr 8) := by
  by_cases hmagic : magic ≠ MULTIBOOT2_BOOTLOADER_MAGIC
  · exact iff_of_true ⟨_, 0, fun _ _ => if_pos hmagic⟩ (.inl hmagic)
  by_cases haddr : addr &&& 7 ≠ 0
  · exact iff_of_true ⟨_, 0, fun _ _ => (if_neg hmagic).trans (if_pos haddr)⟩ (.inr (.inl haddr))
  have hgrub : ∀ fuel, memoryInitGrub fuel mem magic addr bm =
      (tagLoop mem fuel (add32 addr 8) (resetMmBitmap bm)).map .ok := fun _ =>
    (if_neg hmagic).trans (if_neg haddr)
  simp only [hgrub]
  rw [or_iff_right hmagic, or_iff_right haddr, ← bootInfo_iff (add32_lt addr 8)]
  constructor
  · rintro ⟨r, n, hrun⟩
    obtain ⟨bm', hloop, -⟩ := Option.map_eq_some_iff.mp (hrun n (Nat.le_refl n))
    exact bootInfo_of_tagLoop hloop
  · rintro ⟨es, hes⟩
    obtain ⟨n, bm', hloop, -⟩ := tagLoop_spec hes (resetMmBitmap bm)
    exact ⟨.ok bm', n, fun fuel hfuel => by rw [hloop fuel hfuel]; rfl⟩

/-- A tag of size 0, behind the head of the boot information. -/
def emptyTag : Bytes := wordsAt [0, 0, 1, 0]

/-- The walk never gets past it. -/
theorem empty_tag_never_ends : ¬ ∃ fuel,
    memoryInitGrub fuel emptyTag MULTIBOOT2_BOOTLOADER_MAGIC 0 (fun _ => 0) ≠ none := by
  have htype : tagType emptyTag 8 = 1 := by decide +kernel
  have hnext : nextTag emptyTag 8 = 8 := by decide +kernel
  have hloop : ∀ fuel bm, tagLoop emptyTag fuel 8 bm = none := by
    intro fuel bm
    induction fuel with
    | zero => rfl
    | succ fuel ih =>
      rw [tagLoop, htype, if_neg (by decide), if_neg (by decide), hnext]
      exact ih
  have hfirst : add32 0 8 = 8 := add32_of_lt (by decide)
  rintro ⟨fuel, hends⟩
  refine hends ?_
  unfold memoryInitGrub
  rw [if_neg (not_not.mpr rfl), if_neg (by decide), hfirst, hloop]
  rfl

end Moonlight
