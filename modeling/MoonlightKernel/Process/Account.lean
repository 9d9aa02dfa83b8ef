import MoonlightKernel.Process.Mmap
import MoonlightKernel.Process.WholeLife
import MoonlightKernel.UserPages

/-!
# The account of `mmap`

`process_memory_add` takes a block for the record of a new map and frames for its pages.  On every
error path both go back, and otherwise both are in the account of the process; the pages of the heap
stay as they are.

* `World.processMemoryAdd`, `World.mmap` — the source functions on the kernel's heap;
* `keepsPages_pageMapRange` — a map below the kernel leaves the pages of the heap alone;
* `processMemoryFill_cases` — what is done with the record and the frames;
* `mmap_keepsAccount`, `mmap_lifeStep` — a call of `mmap` keeps the account, whatever it answers,
  and so is a step in the life of a child.
-/

set_option autoImplicit false

namespace Moonlight

open Sys Sys.Bitmap

namespace World

/-! ## The pages of the heap -/

section pages

variable {L : Layout} {m m₁ m' : Machine} {va pa flag : Nat}

namespace KeepsPages

theorem trans (h : KeepsPages L m m₁) (h' : KeepsPages L m₁ m') : KeepsPages L m m' :=
  ⟨h'.paging, fun v f hv => (h'.names v f hv).trans (h.names v f hv),
    fun f => (h'.avail f).trans (h.avail f)⟩

/-- The tables of the heap stay as they are. -/
theorem of_tables (hm : PagingOk L m) (hmoved : Moved L m m')
    (hdir : ∀ w, HeapPage L w →
      m'.pageDirectory (dirIndex (w * 4096)) = m.pageDirectory (dirIndex (w * 4096)))
    (hram : ∀ w, HeapPage L w → HasTable m (dirIndex (w * 4096)) →
      m'.ram (tableFrame m (dirIndex (w * 4096))) = m.ram (tableFrame m (dirIndex (w * 4096)))) :
    KeepsPages L m m' :=
  ⟨hmoved.paging, fun w _ hw => names_of_table hm hw (hdir w hw) (hram w hw), hmoved.avail⟩

theorem refl (hm : PagingOk L m) : KeepsPages L m m := ⟨hm, fun _ _ _ => Iff.rfl, fun _ => Iff.rfl⟩

/-- Stores outside the page tables. -/
theorem of_ram (hm : PagingOk L m) (hdir : m'.pageDirectory = m.pageDirectory)
    (hbm : m'.mmBitmap = m.mmBitmap)
    (hram : ∀ f, f ≠ L.kernelFrame → IsTableFrame m f → m'.ram f = m.ram f) :
    KeepsPages L m m' where
  paging := hm.congr hdir hbm
  names v f hv := names_of_table hm hv (congrFun hdir _) fun ht =>
    hram _ (hm.notKernel _ hv.pageDir ht) ⟨_, hv.pageDir, ht, rfl⟩
  avail f := by
    unfold Avail
    rw [hbm, isTableFrame_congr hdir]

end KeepsPages

/-- A look at a page moves the window. -/
theorem keepsPages_pageGetPhys (hm : PagingOk L m) (v : Nat) :
    KeepsPages L m (pageGetPhys L v m).2 := by
  obtain ⟨hdir, hbm⟩ := pageGetPhys_keeps L v m
  exact .of_ram hm hdir hbm fun f hf _ => ram_pageGetPhys L v m hf

/-- A page below the kernel is translated by none of the tables of the heap. -/
theorem dirIndex_heap_ne {w : Nat} (hw : HeapPage L w) (hva : va < KERNEL_POS) :
    dirIndex (w * 4096) ≠ dirIndex va := fun he => by
  have hlt := (dirIndex_user hva).1
  have hgt := hw.kernelDir_lt.1
  omega

/-- `page_map` below the kernel, whether it succeeds or not. -/
theorem keepsPages_pageMap (hm : PagingOk L m) (hva : va < KERNEL_POS) (hpa : pa < 2 ^ 32)
    (hflag : flag &&& PAGE_PRESENT ≠ 0) : KeepsPages L m (pageMap L pa va flag m).2 := by
  obtain ⟨-, hdir⟩ := dirIndex_user hva
  have hmoved : Moved L m (pageMap L pa va flag m).2 := moved_pageMap hm hdir hpa
  have hpaging := hmoved.paging
  rcases pageMap_spec L pa va m hflag with hr | ⟨-, hr⟩ | ⟨-, -, -, t, m₁, -, hr⟩
  · rw [hr]
    exact .refl hm
  · rw [hr] at hmoved ⊢
    exact .of_tables hm hmoved
      (fun w hw => Function.update_of_ne (dirIndex_heap_ne hw hva) ..) fun _ _ _ => rfl
  · have hok : pageMap L pa va flag m = (0, (pageMap L pa va flag m).2) := by rw [hr]
    have hmap := pageMap_mapped hm.toTablesOk hdir hpa hflag hok
    have hsame (w : Nat) (hw : HeapPage L w) := hmap.dir _ (.inl (dirIndex_heap_ne hw hva))
    refine .of_tables hm hmoved hsame fun w hw ht => ?_
    refine hmap.ram _ (hm.notKernel _ hw.pageDir ht) fun heq => dirIndex_heap_ne hw hva ?_
    -- two entries never share a table
    rw [← tableFrame_congr (hsame w hw)] at heq
    exact hpaging.apart _ _ hw.pageDir hdir ((hasTable_congr (hsame w hw)).mpr ht) hmap.hasTable heq

/-- `page_unmap` below the kernel. -/
theorem keepsPages_pageUnmap (hm : PagingOk L m) (hva : va < KERNEL_POS)
    (hflag : flag &&& PAGE_PRESENT = 0) : KeepsPages L m (pageUnmap L va flag m).2 := by
  obtain ⟨-, hdir⟩ := dirIndex_user hva
  have hmoved := moved_pageUnmap hm hdir hflag
  have hram (htv : HasTable m (dirIndex va)) (w : Nat) (hw : HeapPage L w)
      (ht : HasTable m (dirIndex (w * 4096))) :
      (m.cleared L va).ram (tableFrame m (dirIndex (w * 4096))) =
        m.ram (tableFrame m (dirIndex (w * 4096))) := by
    have hk := hm.notKernel _ hw.pageDir ht
    have hf : tableFrame m (dirIndex (w * 4096)) ≠ tableFrame m (dirIndex va) := fun heq =>
      dirIndex_heap_ne hw hva (hm.apart _ _ hw.pageDir hdir ht htv heq)
    funext j
    simp [Machine.cleared, Machine.write, Machine.swapTo, hf, hk]
  rcases pageUnmap_spec hm hdir flag with ⟨hr, -⟩ | ⟨-, htv, ⟨-, hr⟩ | ⟨-, hr⟩⟩
  · rw [hr]
    exact .refl hm
  · rw [hr] at hmoved ⊢
    exact .of_tables hm hmoved (fun _ _ => rfl) (hram htv)
  · rw [hr] at hmoved ⊢
    exact .of_tables hm hmoved (fun w hw => Function.update_of_ne (dirIndex_heap_ne hw hva) ..)
      (hram htv)

/-- The loop of `page_map_range`. -/
theorem keepsPages_pageMapLoop (hflag : flag &&& PAGE_PRESENT ≠ 0) (n : Nat) :
    ∀ (i : Nat) {m : Machine}, PagingOk L m →
    (∀ j, j < i + n → add32 va (j <<< 12) < KERNEL_POS) →
    KeepsPages L m (pageMapLoop L pa va flag n i m).2.2 ∧
      (pageMapLoop L pa va flag n i m).2.1 ≤ i + n := by
  induction n with
  | zero => exact fun i m hm _ => ⟨.refl hm, Nat.le_refl _⟩
  | succ n ih =>
    intro i m hm hbelow
    have hone : KeepsPages L m
        (pageMap L (add32 pa (i <<< 12)) (add32 va (i <<< 12)) flag m).2 :=
      keepsPages_pageMap hm (hbelow i (by omega)) (add32_lt _ _) hflag
    rw [pageMapLoop]
    split
    · exact ⟨hone, by dsimp only; omega⟩
    · obtain ⟨hrest, hle⟩ := ih (i + 1) hone.paging fun j hj => hbelow j (by omega)
      exact ⟨hone.trans hrest, by omega⟩

theorem keepsPages_pageUnmapBack : ∀ (i : Nat) {m : Machine}, PagingOk L m →
    (∀ j, j < i → add32 va (j <<< 12) < KERNEL_POS) →
    KeepsPages L m (pageUnmapBack L va i m) := by
  intro i
  induction i with
  | zero => exact fun hm _ => .refl hm
  | succ i ih =>
    intro m hm hbelow
    have hone : KeepsPages L m (pageUnmap L (add32 va (i <<< 12)) PAGE_NOTHING m).2 :=
      keepsPages_pageUnmap hm (hbelow i (by omega)) (by decide)
    rw [pageUnmapBack]
    exact hone.trans (ih hone.paging fun j hj => hbelow j (by omega))

/-- **Pages below the kernel** are mapped or not, and the pages of the heap stay. -/
theorem keepsPages_pageMapRange {n : Nat} (hm : PagingOk L m) (hflag : flag &&& PAGE_PRESENT ≠ 0)
    (hv : va + n * 4096 ≤ KERNEL_POS) (pa : Nat) :
    KeepsPages L m (pageMapRange L pa va flag n m).2 := by
  have hbelow (j : Nat) (hj : j < n) : add32 va (j <<< 12) < KERNEL_POS := by
    rw [shiftLeft_page, add32_of_lt (by unfold KERNEL_POS at hv; omega)]
    omega
  obtain ⟨hloop, hle⟩ : KeepsPages L m (pageMapLoop L pa va flag n 0 m).2.2 ∧
      (pageMapLoop L pa va flag n 0 m).2.1 ≤ 0 + n :=
    keepsPages_pageMapLoop hflag n 0 hm (by simpa using hbelow)
  rw [pageMapRange]
  split
  · exact hloop.trans (keepsPages_pageUnmapBack _ hloop.paging fun j hj => hbelow j (by omega))
  · exact hloop

/-- Free frames are cleared, and they hold no page table. -/
theorem keepsPages_physBzero {p n : Nat} (hm : PagingOk L m) (hp : p + n < 2 ^ 20)
    (hk : L.kernelFrame < p) (hfree : ∀ f, IsTableFrame m f → ¬ (p ≤ f ∧ f < p + n)) :
    ∃ m', physBzero L (p * 4096) n m = (0, m') ∧ KeepsPages L m m' := by
  obtain ⟨m', he, hdir, hbm, -, hram⟩ := physBzero_spec L n (m := m) hp hk
  refine ⟨m', he, .of_ram hm hdir hbm fun f hf ht => hram f hf ?_⟩
  have hout := hfree f ht
  omega

end pages

/-! ## The source functions -/

section functions

variable (L : Layout) (word : Machine → Nat → Nat)

/-- The record `a` of a new map goes to the list of its map; the record of the code map is copied
into the process and freed. -/
def addRecord (p pflags a : Nat) (w : World) : World :=
  if pflags = PROC_MEM_ADD_HEAP then w.record p fun r => { r with heap := a :: r.heap }
  else if pflags = PROC_MEM_ADD_STACK then w.record p fun r => { r with stack := a :: r.stack }
  else w.kfree L word a

/-- `process_memory_add` once `get_phys_block` has succeeded; the record is at `a`. -/
def processMemoryFill (p a : Nat) (pm : MapMemory) (pflags : Nat) (w : World) : Int × World :=
  let err2 (ret : Int) (m : Machine) : Int × World :=
    (ret, (w.setMachine (m.setBitmap (freePhysBlock pm.pAddr pm.size m.mmBitmap))).kfree L word a)
  let r := physBzero L pm.pAddr pm.size w.kernel.machine
  if r.1 ≠ 0 then err2 r.1 r.2 else
  let r := if pflags &&& PROC_MEM_ADD_IMEDIATE ≠ 0
    then pageMapRange L pm.pAddr pm.vAddr pm.flags pm.size r.2 else (0, r.2)
  if r.1 ≠ 0 then err2 r.1 r.2 else
  let pflags := if pflags &&& PROC_MEM_ADD_IMEDIATE ≠ 0
    then pflags - PROC_MEM_ADD_IMEDIATE else pflags
  match (w.kernel.proc p).addMap pflags pm with
  | some pr => (0, ((w.setMachine r.2).modify p fun _ => pr).addRecord L word p pflags a)
  | none => err2 (-EINVAL) r.2

/-- `process_memory_add`. -/
def processMemoryAdd (p size vAddr mflags pflags : Nat) (w : World) : Int × World :=
  let size := add32 size (vAddr - (vAddr &&& PAGE_ADDR))
  let vAddr := vAddr &&& PAGE_ADDR
  let size := if size % 4096 ≠ 0 then (size >>> 12) + 1 else size >>> 12
  let q := pageGetPhys L vAddr w.kernel.machine
  let w := w.setMachine q.2
  if q.1 ≠ 0 then (-ENOMEM, w) else
  if mflags &&& PAGE_PRESENT = 0 then (-EINVAL, w) else
  match w.kmalloc L word sizeofMapMemory with
  | (none, w) => (-ENOMEM, w)
  | (some a, w) =>
    let new := getPhysBlock size w.kernel.machine.mmBitmap
    let w := w.setMachine (w.kernel.machine.setBitmap new.2)
    if new.1 = 0 then (-ENOMEM, w.kfree L word a)
    else w.processMemoryFill L word p a ⟨vAddr, new.1, size, mflags⟩ pflags

/-- `mmap`. -/
def mmap (p addr size prot flags : Nat) (fd : Int) (offset : Nat) (w : World) :
    Option (Int × World) :=
  if size = 0 ∨ addr &&& PAGE_FLAG ≠ 0 then some (-EINVAL, w) else
  let size := mmapGetNumberOfPage size
  let pflags := if w.kernel.current = some p then PROC_MEM_ADD_HEAP ||| PROC_MEM_ADD_IMEDIATE
    else PROC_MEM_ADD_HEAP
  if flags &&& MAP_ANON = 0 ∨ fd ≠ -1 ∨ offset ≠ 0 then some (-ENOSYS, w) else
  (mmapChoose (w.kernel.proc p) addr size flags).map fun addr =>
    if addr < 0 then (addr, w) else
    let r := w.processMemoryAdd L word p (size <<< 12) addr.toNat (mmapFlags prot) pflags
    if r.1 ≠ 0 then r else (addr, r.2)

end functions

/-! ## Links, states and the children -/

section family

variable {w u v : World}

/-- The links and the states of the processes are as before, and their lists of children. -/
structure SameFamily (w u : World) : Prop where
  tree : ∀ q, (u.kernel.proc q).tree = (w.kernel.proc q).tree
  state : ∀ q, (u.kernel.proc q).state = (w.kernel.proc q).state
  children : ∀ q, (u.recs q).children = (w.recs q).children

namespace SameFamily

theorem trans (h : SameFamily w u) (h' : SameFamily u v) : SameFamily w v :=
  ⟨fun q => (h'.tree q).trans (h.tree q), fun q => (h'.state q).trans (h.state q),
    fun q => (h'.children q).trans (h.children q)⟩

theorem of_same (h : w.SameRecords u) : SameFamily w u :=
  ⟨fun q => by rw [h.proc], fun q => by rw [h.proc], fun q => by rw [h.recs]⟩

theorem refl (w : World) : SameFamily w w := .of_same (.refl w)

/-- A store into a process that leaves its links and its state alone. -/
theorem modify (w : World) (p : Nat) {f : Process → Process}
    (htree : (f (w.kernel.proc p)).tree = (w.kernel.proc p).tree)
    (hstate : (f (w.kernel.proc p)).state = (w.kernel.proc p).state) :
    SameFamily w (w.modify p f) :=
  ⟨(Same.modify w.kernel p htree).proc, (Same.modify w.kernel p hstate).proc, fun _ => rfl⟩

theorem record (w : World) (p : Nat) {f : Records → Records}
    (h : (f (w.recs p)).children = (w.recs p).children) : SameFamily w (w.record p f) := by
  refine ⟨fun _ => rfl, fun _ => rfl, fun q => ?_⟩
  by_cases hq : q = p
  · rw [hq, record_recs_self, h]
  · rw [record_recs_of_ne _ _ _ hq]

end SameFamily

theorem addMap_family {pflags : Nat} {pm : MapMemory} {pr pr' : Process}
    (h : pr.addMap pflags pm = some pr') : pr'.tree = pr.tree ∧ pr'.state = pr.state := by
  unfold Process.addMap at h
  split at h
  · cases h
    exact ⟨rfl, rfl⟩
  split at h
  · cases h
    exact ⟨rfl, rfl⟩
  split at h
  · cases h
    exact ⟨rfl, rfl⟩
  · cases h

theorem addRecord_family (L : Layout) (word : Machine → Nat → Nat) (p pflags a : Nat) (w : World) :
    SameFamily w (w.addRecord L word p pflags a) := by
  unfold addRecord
  split
  · exact .record w p rfl
  split
  · exact .record w p rfl
  · exact .of_same (.kfree L word a w)

theorem processMemoryFill_family (L : Layout) (word : Machine → Nat → Nat) (p a : Nat)
    (pm : MapMemory) (pflags : Nat) (w : World) :
    SameFamily w (w.processMemoryFill L word p a pm pflags).2 := by
  have herr (m : Machine) : SameFamily w ((w.setMachine m).kfree L word a) :=
    .of_same ((SameRecords.setMachine m w).trans (.kfree L word a _))
  unfold processMemoryFill
  generalize physBzero L pm.pAddr pm.size w.kernel.machine = r
  dsimp only
  split
  · exact herr _
  generalize (if pflags &&& PROC_MEM_ADD_IMEDIATE ≠ 0
    then pageMapRange L pm.pAddr pm.vAddr pm.flags pm.size r.2 else (0, r.2)) = r
  split
  · exact herr _
  generalize (if pflags &&& PROC_MEM_ADD_IMEDIATE ≠ 0
    then pflags - PROC_MEM_ADD_IMEDIATE else pflags) = pflags
  cases hadd : (w.kernel.proc p).addMap pflags pm with
  | none => exact herr _
  | some pr =>
    obtain ⟨htree, hstate⟩ := addMap_family hadd
    exact ((SameFamily.of_same (.setMachine r.2 w)).trans
      (.modify (w.setMachine r.2) p htree hstate)).trans (addRecord_family L word p pflags a _)

theorem processMemoryAdd_family (L : Layout) (word : Machine → Nat → Nat)
    (p size vAddr mflags pflags : Nat) (w : World) :
    SameFamily w (w.processMemoryAdd L word p size vAddr mflags pflags).2 := by
  unfold processMemoryAdd
  dsimp only
  generalize (if add32 size (vAddr - (vAddr &&& PAGE_ADDR)) % 4096 ≠ 0 then _ else _ : Nat) = n
  generalize (pageGetPhys L (vAddr &&& PAGE_ADDR) w.kernel.machine) = q
  have hlook : SameFamily w (w.setMachine q.2) := .of_same (.setMachine q.2 w)
  split
  · exact hlook
  split
  · exact hlook
  refine hlook.trans ?_
  rcases (w.setMachine q.2).kmalloc_cases L word sizeofMapMemory with
    ⟨u, he, -, hsame, -⟩ | ⟨a, u, he, -, -, hsame, -⟩
  · rw [he]
    exact .of_same hsame
  rw [he]
  dsimp only
  have htake (bm : Bytes) : SameFamily (w.setMachine q.2)
      (u.setMachine (u.kernel.machine.setBitmap bm)) := .of_same (hsame.trans (.setMachine _ u))
  split
  · exact (htake _).trans (.of_same (.kfree L word a _))
  · exact (htake _).trans (processMemoryFill_family ..)

end family

/-! ## The account -/

section account

variable {L : Layout} {word : Machine → Nat → Nat} {p a v f n pflags mflags : Nat}
  {w₀ w u : World} {rs₀ : List (Region L)} {own : List Nat} {maps : List MapMemory}

/-- A map with its record and its frames goes to the heap. -/
theorem Endowed.push (h : Endowed L word p w₀ rs₀ own w) (pm : MapMemory)
    (hproc : u.kernel.proc p = { w.kernel.proc p with mmHeap := pm :: (w.kernel.proc p).mmHeap })
    (hrecs : u.recs p = { w.recs p with heap := a :: (w.recs p).heap })
    (hb : Balanced L word w₀ rs₀ (a ::ₘ ↑((w.recs p).heap ++ ((w.recs p).stack ++ own)))
      (HasFrame (pm :: (w.kernel.proc p).maps)) u)
    (hnew : ∀ i, i < pm.size → ¬ HasFrame (w.kernel.proc p).maps (pm.frame i))
    (hrange : pm.pAddr / 4096 + pm.size ≤ 2 ^ 20) : Endowed L word p w₀ rs₀ own u := by
  have hmaps : (u.kernel.proc p).maps = pm :: (w.kernel.proc p).maps := by
    rw [hproc]
    rfl
  refine ⟨?_, ?_, ?_, ?_, ?_⟩
  · rw [hmaps, hrecs]
    exact hb
  · rw [hproc, hrecs]
    exact congrArg Nat.succ h.heapRecords
  · rw [hproc, hrecs]
    exact h.stackRecords
  · rw [hmaps]
    refine List.pairwise_cons.mpr ⟨fun q hq i j hi hj he => ?_, h.apart⟩
    exact hnew i hi ⟨q, hq, j, hj, he⟩
  · rw [hmaps]
    exact List.forall_mem_cons.mpr ⟨hrange, h.inRange⟩

/-- `process_memory_add` to the heap, once it has its block and its frames: both go back, or both
go to the process. -/
theorem processMemoryFill_cases (word : Machine → Nat → Nat) (p a : Nat)
    (hpf : pflags = PROC_MEM_ADD_HEAP ∨ pflags = PROC_MEM_ADD_HEAP ||| PROC_MEM_ADD_IMEDIATE)
    (hmf : mflags &&& PAGE_PRESENT ≠ 0) (hv : v + n * 4096 ≤ KERNEL_POS) (hlo : 1272 ≤ f)
    (hhi : f + n < 2 ^ 20) (hm : PagingOk L w.kernel.machine)
    (hfree : ∀ g, IsTableFrame w.kernel.machine g → ¬ (f ≤ g ∧ g < f + n)) :
    ∃ m, KeepsPages L w.kernel.machine m ∧
      ((w.processMemoryFill L word p a ⟨v, f * 4096, n, mflags⟩ pflags).2 =
          (w.setMachine (m.setBitmap (freePhysBlock (f * 4096) n m.mmBitmap))).kfree L word a ∨
        (w.processMemoryFill L word p a ⟨v, f * 4096, n, mflags⟩ pflags).2 =
          ((w.setMachine m).modify p fun _ => { w.kernel.proc p with
            mmHeap := ⟨v, f * 4096, n, mflags⟩ :: (w.kernel.proc p).mmHeap }).record p
              fun r => { r with heap := a :: r.heap }) := by
  have hkf : L.kernelFrame < f := Nat.lt_of_lt_of_le L.kernelFrame_lt (by omega)
  obtain ⟨m₁, hzeroed, hkeep⟩ := keepsPages_physBzero hm hhi hkf hfree
  unfold processMemoryFill
  dsimp only
  rw [hzeroed]
  simp only [ne_eq, not_true_eq_false, ↓reduceIte]
  rcases hpf with rfl | rfl
  · have himm : PROC_MEM_ADD_HEAP &&& PROC_MEM_ADD_IMEDIATE = 0 := by decide
    simp only [himm, not_true_eq_false, ↓reduceIte, addMap_heap]
    exact ⟨m₁, hkeep, .inr rfl⟩
  · have himm : (PROC_MEM_ADD_HEAP ||| PROC_MEM_ADD_IMEDIATE) &&& PROC_MEM_ADD_IMEDIATE ≠ 0 := by
      decide
    have hclear : (PROC_MEM_ADD_HEAP ||| PROC_MEM_ADD_IMEDIATE) - PROC_MEM_ADD_IMEDIATE =
        PROC_MEM_ADD_HEAP := by decide
    simp only [himm, hclear, not_false_eq_true, ↓reduceIte, addMap_heap]
    refine ⟨_, hkeep.trans (keepsPages_pageMapRange hkeep.paging hmf hv (f * 4096)), ?_⟩
    by_cases hok : (pageMapRange L (f * 4096) v mflags n m₁).1 = 0
    · simp only [hok, not_true_eq_false, ↓reduceIte]
      exact .inr rfl
    · simp only [hok, not_false_eq_true, ↓reduceIte]
      exact .inl trivial

/-- The frames of a new map. -/
theorem mem_new_frames (v f n mflags g : Nat) :
    (f ≤ g ∧ g < f + n) ↔ ∃ i, i < n ∧ g = MapMemory.frame ⟨v, f * 4096, n, mflags⟩ i := by
  refine Iff.trans ?_ (mem_frames_iff ⟨v, f * 4096, n, mflags⟩ g)
  rw [Nat.mul_div_cancel f (by decide)]

/-- **`process_memory_add`** to the heap, once it has its block `a` and the frames from `f` on. -/
theorem Endowed.processMemoryFill (h : Endowed L word p w₀ rs₀ own w)
    (hpf : pflags = PROC_MEM_ADD_HEAP ∨ pflags = PROC_MEM_ADD_HEAP ||| PROC_MEM_ADD_IMEDIATE)
    (hmf : mflags &&& PAGE_PRESENT ≠ 0) (hv : v + n * 4096 ≤ KERNEL_POS) (hlo : 1272 ≤ f)
    (hhi : f + n < 2 ^ 20) (hsame : w.SameRecords u)
    (hb : Balanced L word w₀ rs₀ (a ::ₘ ↑((w.recs p).heap ++ ((w.recs p).stack ++ own)))
      (fun g => (f ≤ g ∧ g < f + n) ∨ HasFrame (w.kernel.proc p).maps g) u)
    (hnew : ∀ g, HasFrame (w.kernel.proc p).maps g → ¬ (f ≤ g ∧ g < f + n)) :
    Endowed L word p w₀ rs₀ own
      (u.processMemoryFill L word p a ⟨v, f * 4096, n, mflags⟩ pflags).2 := by
  have hdiv : f * 4096 / 4096 = f := Nat.mul_div_cancel f (by decide)
  obtain ⟨m, hkeep, he⟩ := processMemoryFill_cases word p a hpf hmf hv hlo hhi hb.paging
    fun g ht hin => hb.apart (.inl hin) (.inr ht)
  have hmoved := hkeep.balanced hb
  rcases he with he | he
  · rw [he]
    refine h.same (hsame.trans ⟨rfl, rfl⟩)
      ((hmoved.congr fun g => ?_).giveRun (by omega) fun g hg => ?_).kfree
    · rw [hdiv]
    · rw [hdiv]
      exact hnew g hg
  · rw [he]
    refine h.push ⟨v, f * 4096, n, mflags⟩ ?_ ?_ (hmoved.congr fun g => ?_) (fun i hi hin => ?_) ?_
    · rw [record_kernel, modify_kernel, Kernel.modify_proc_self, hsame.proc]
    · rw [record_recs_self, modify_recs, setMachine_recs, hsame.recs]
    · rw [hasFrame_cons, mem_new_frames v f n mflags]
    · exact hnew _ hin ((mem_new_frames v f n mflags _).mpr ⟨i, hi, rfl⟩)
    · dsimp only
      omega

/-- **`process_memory_add`** of whole pages to the heap. -/
theorem Endowed.processMemoryAdd (h : Endowed L word p w₀ rs₀ own w)
    (hpf : pflags = PROC_MEM_ADD_HEAP ∨ pflags = PROC_MEM_ADD_HEAP ||| PROC_MEM_ADD_IMEDIATE)
    (hmf : mflags &&& PAGE_PRESENT ≠ 0) (hmod : v % 4096 = 0) (hv : v + n * 4096 ≤ KERNEL_POS) :
    Endowed L word p w₀ rs₀ own
      (w.processMemoryAdd L word p (n * 4096) v mflags pflags).2 := by
  obtain ⟨hlt, hn⟩ := user_pages hv
  obtain ⟨haddr, hsize, hwhole, hpages⟩ := whole_pages hmod hlt hn
  have hlook : Endowed L word p w₀ rs₀ own (w.setMachine (pageGetPhys L v w.kernel.machine).2) :=
    h.keeps (keepsPages_pageGetPhys h.balance.paging v).keeps
  unfold World.processMemoryAdd
  dsimp only
  rw [haddr, hsize, if_neg (not_not.mpr hwhole), hpages]
  generalize pageGetPhys L v w.kernel.machine = q at hlook ⊢
  by_cases hphys : q.1 ≠ 0
  · rw [if_pos hphys]
    exact hlook
  rw [if_neg hphys, if_neg hmf]
  generalize w.setMachine q.2 = w₁ at hlook ⊢
  rcases hlook.balance.kmalloc small_sizeofMapMemory (by decide) with
    ⟨u, he, hsame, hb⟩ | ⟨a, u, he, hsame, hb, -⟩
  · rw [he]
    exact hlook.same hsame hb
  rw [he]
  dsimp only
  rcases getPhysBlock_spec n u.kernel.machine.mmBitmap with hg | ⟨f, hg, hlo, hhi, hfree⟩
  · rw [hg, if_pos rfl]
    exact hlook.same (hsame.trans ⟨rfl, rfl⟩) (Balanced.kfree hb)
  · rw [hg, if_neg (by dsimp only; omega)]
    exact hlook.processMemoryFill hpf hmf hv hlo hhi (hsame.trans ⟨rfl, rfl⟩) (hb.takeRun hfree)
      fun g hg hin => hb.apart hg (.inl (hfree g hin.1 hin.2))

/-- The ways through `mmap`. -/
theorem mmap_cases {addr size prot flags offset : Nat} {fd r : Int} (haddr : addr < 2 ^ 32)
    (hsize : size < 2 ^ 32) (hflags : flags &&& MAP_KERNEL_SPACE = 0)
    (h : w.mmap L word p addr size prot flags fd offset = some (r, u)) :
    u = w ∨ ∃ v n pflags, (pflags = PROC_MEM_ADD_HEAP ∨
        pflags = PROC_MEM_ADD_HEAP ||| PROC_MEM_ADD_IMEDIATE) ∧ v % 4096 = 0 ∧
      v + n * 4096 ≤ KERNEL_POS ∧
      u = (w.processMemoryAdd L word p (n * 4096) v (mmapFlags prot) pflags).2 := by
  unfold mmap at h
  rw [and_PAGE_FLAG] at h
  split at h
  · cases h
    exact .inl rfl
  rename_i hargs
  dsimp only at h
  split at h
  · cases h
    exact .inl rfl
  obtain ⟨hn, -⟩ := mmapGetNumberOfPage_spec hsize
  obtain ⟨s, hs, hfound⟩ := mmapChoose_spec (w.kernel.proc p) haddr (by omega) hn hflags
  rw [hs, Option.map_some, Option.some.injEq] at h
  rcases hfound with hneg | ⟨v, rfl, -, hmod, -, hhi, -⟩
  · rw [if_pos hneg] at h
    cases h
    exact .inl rfl
  have hpf := mmap_pflags (w.kernel.current = some p)
  generalize (if w.kernel.current = some p then PROC_MEM_ADD_HEAP ||| PROC_MEM_ADD_IMEDIATE
    else PROC_MEM_ADD_HEAP) = pflags at h hpf
  rw [if_neg (by omega), shiftLeft_page, Int.toNat_natCast] at h
  refine .inr ⟨v, mmapGetNumberOfPage size, pflags, hpf, hmod, ?_, ?_⟩
  · unfold KERNEL_POS at hhi ⊢
    omega
  · split at h
    · rw [h]
    · exact (congrArg Prod.snd h).symm

/-- **`mmap` keeps the account**, whatever it answers. -/
theorem mmap_keepsAccount {addr size prot flags offset : Nat} {fd r : Int} (haddr : addr < 2 ^ 32)
    (hsize : size < 2 ^ 32) (hflags : flags &&& MAP_KERNEL_SPACE = 0)
    (h : w.mmap L word p addr size prot flags fd offset = some (r, u)) :
    KeepsAccount L word p w u := by
  rcases mmap_cases haddr hsize hflags h with rfl | ⟨v, n, pflags, hpf, hmod, hv, rfl⟩
  · exact ⟨fun _ => rfl, rfl, fun _ => rfl, id⟩
  · have hfamily := processMemoryAdd_family L word p (n * 4096) v (mmapFlags prot) pflags w
    exact ⟨hfamily.tree, hfamily.state p, hfamily.children,
      fun he => he.processMemoryAdd hpf (mmapFlags_present prot) hmod hv⟩

/-- A call of `mmap` is a step in the life of a child. -/
theorem mmap_lifeStep {new addr size prot flags offset : Nat} {fd r : Int} (haddr : addr < 2 ^ 32)
    (hsize : size < 2 ^ 32) (hflags : flags &&& MAP_KERNEL_SPACE = 0) (hl : Lives p new w.kernel)
    (h : w.mmap L word new addr size prot flags fd offset = some (r, u)) :
    lifeStep L word p new w .memory u := ⟨hl, mmap_keepsAccount haddr hsize hflags h⟩

end account

end World

end Moonlight
