import MoonlightKernel.Process.Birth

/-!
# Whole lives

A process is forked, ends and is reaped.

* `lifeStep` — what may happen in between;
* `Inv.step` — every step keeps the account of the child;
* `life_leaks_iff` — a life leaks nothing exactly when no call of `kmalloc` in it gets a block for a
  signal or leaves a sliver in a new region.
-/

set_option autoImplicit false

namespace Moonlight

open Sys Sys.Bitmap

/-! ## One step -/

namespace World

/-- What may happen between the `fork` and the reaping.  A delivery of a signal to the father or a
call of `process_waitpid` may reap the child; `memory` stands for what the child does to its maps
with the account kept, as by `mmap` (`mmap_lifeStep`), and `paging` for everything else that the
machine does. -/
inductive LifeOp where
  | exit (status : Nat)
  | addSignal (sig : Int) (q type : Nat)
  | deliverChild
  | deliverParent
  | setHandler (q signum : Nat) (h : Option Shandler)
  | waitpid (pid : Int) (option : Nat)
  | schedule (current : Option Nat)
  | paging
  | memory

/-- The maps of the process `c` change, and what it takes and gives back is in its maps and in its
lists of records. -/
structure KeepsAccount (L : Layout) (word : Machine → Nat → Nat) (c : Nat) (w u : World) : Prop where
  tree : ∀ q, (u.kernel.proc q).tree = (w.kernel.proc q).tree
  state : (u.kernel.proc c).state = (w.kernel.proc c).state
  children : ∀ q, (u.recs q).children = (w.recs q).children
  account : ∀ {w₀ : World} {rs₀ : List (Region L)} {own : List Nat},
    Endowed L word c w₀ rs₀ own w → Endowed L word c w₀ rs₀ own u

/-- Page tables come and go, and the pages of the heap stay. -/
structure KeepsPages (L : Layout) (m m' : Machine) : Prop where
  paging : PagingOk L m'
  names : ∀ v f, HeapPage L v → (Names L m' v f ↔ Names L m v f)
  avail : ∀ f, Avail m' f ↔ Avail m f

/-- The child has neither ended nor been reaped. -/
def Lives (p new : Nat) (k : Kernel) : Prop :=
  new ∈ (k.proc p).children ∧ (k.proc new).state ≠ .ZOMBIE

/-- One step in the life of the child `new` of `p`.  The father survives it and reaps no other
child. -/
def lifeStep (L : Layout) (word : Machine → Nat → Nat) (p new : Nat) (w : World) :
    LifeOp → World → Prop
  | .exit status, u => Lives p new w.kernel ∧ u = w.exit L word new status
  | .addSignal sig q type, u => u = (w.addSignal L word sig (some q) type).2
  | .deliverChild, u => new ∈ (w.kernel.proc p).children ∧ w.sendSignal L word new = some u
  | .deliverParent, u => w.sendSignal L word p = some u ∧ (u.kernel.proc p).state ≠ .ZOMBIE ∧
      ∀ c, freed w.kernel (.sendSignal p) = some c → c = new
  | .setHandler q signum h, u => u = w.modify q (Process.setHandler signum h)
  | .waitpid pid option, u => u = (w.processWaitpid L word p pid option).2 ∧
      ∀ c, freed w.kernel (.waitpid p pid option) = some c → c = new
  | .schedule c, u => u = w.setKernel { w.kernel with current := c }
  | .paging, u => ∃ m, KeepsPages L w.kernel.machine m ∧ u = w.setMachine m
  | .memory, u => Lives p new w.kernel ∧ KeepsAccount L word new w u

section step

variable {L : Layout} {word : Machine → Nat → Nat} {p new : Nat} {w₀ w u : World}
  {rs₀ : List (Region L)}

/-- Machine steps that keep the pages of the heap keep every balance. -/
theorem KeepsPages.keeps {m : Machine} (h : KeepsPages L w.kernel.machine m) :
    Keeps L word w₀ rs₀ w (w.setMachine m) where
  same _ := rfl
  recs := rfl
  balance hb := hb.move h.paging h.names (fun f => or_congr (h.avail f) Iff.rfl)
    fun f hf ha => hb.apart hf ((h.avail f).mp ha)

theorem KeepsPages.balanced {m : Machine} {own : Multiset Nat} {mine : Nat → Prop}
    (h : KeepsPages L w.kernel.machine m) (hb : Balanced L word w₀ rs₀ own mine w) :
    Balanced L word w₀ rs₀ own mine (w.setMachine m) := h.keeps.balance hb

/-- **One step** keeps the account of the child. -/
theorem Inv.step {op : LifeOp} (h : Inv L word p new w₀ rs₀ w) (hne : p ≠ new)
    (hfresh : new ∉ (w₀.kernel.proc p).children) (hs : lifeStep L word p new w op u) :
    Inv L word p new w₀ rs₀ u := by
  cases op with
  | exit status =>
    obtain ⟨⟨hin, hz⟩, rfl⟩ := hs
    obtain ⟨c, hc⟩ := h.alive hfresh hin hz
    exact hc.ended hne _
  | addSignal sig q type =>
    cases hs
    obtain ⟨hk, hstate⟩ := addSignal_keeps L word w₀ rs₀ sig (some q) type w
    exact h.keeps hk (by rw [hstate])
  | deliverChild => exact h.deliverChild hne hfresh hs.1 hs.2
  | deliverParent => exact h.deliverParent hne hfresh hs.1 hs.2.1 hs.2.2
  | setHandler q signum a =>
    cases hs
    exact h.modify q rfl fun _ => Iff.rfl
  | waitpid pid option =>
    obtain ⟨rfl, honly⟩ := hs
    exact h.waitpid hne hfresh honly
  | schedule c =>
    cases hs
    exact h.keeps ⟨fun _ => rfl, rfl, fun hb => hb.setKernel rfl⟩ Iff.rfl
  | paging =>
    obtain ⟨m, hm, rfl⟩ := hs
    exact h.keeps hm.keeps Iff.rfl
  | memory =>
    obtain ⟨⟨hin, hz⟩, hk⟩ := hs
    obtain ⟨c, hc⟩ := h.alive hfresh hin hz
    exact .inl ⟨c, hc.toLinked.congr hk.tree hk.children, hk.account hc.toEndowed, by
      rw [hk.state]
      exact hc.state⟩

end step

/-! ## Whole lives -/

/-- The blocks and the frames are those of before. -/
structure LeaksNothing (w₀ w : World) : Prop where
  blocks : blocksOf w.live = blocksOf w₀.live
  frames : ∀ f, Avail w.kernel.machine f ↔ Avail w₀.kernel.machine f

/-- The child has been reaped, and no `SIGCHLD` is left for its father. -/
structure Reaped (p new : Nat) (k : Kernel) : Prop where
  gone : new ∉ (k.proc p).children
  delivered : ∀ s ∈ (k.proc p).signal.sigQueue, s.sigHandled ≠ SIGCHLD

section life

variable {L : Layout} {word : Machine → Nat → Nat} {p new : Nat} {w₀ w : World}
  {rs₀ : List (Region L)}

theorem Inv.gone (h : Inv L word p new w₀ rs₀ w) (hr : Reaped p new w.kernel) :
    Gone L word p w₀ rs₀ w := by
  have hin {c : Nat} (hl : Linked p new w₀ c w) : new ∈ (w.kernel.proc p).children := by
    rw [hl.kids]
    exact List.mem_cons_self
  rcases h with ⟨c, h⟩ | ⟨c, h, -⟩ | h
  · exact absurd (hin h.toLinked) hr.gone
  · exact absurd (hin h.toLinked) hr.gone
  · exact h

theorem Gone.leaksNothing_iff (h : Gone L word p w₀ rs₀ w) (h₀ : HeapHeld L w₀.client rs₀) :
    LeaksNothing w₀ w ↔ ∀ call ∈ w.calls,
      ¬ call.Gets L word sizeofSigQueue ∧ ¬ SliversNew w₀.client call.client call.size := by
  have hb : Balanced L word w₀ rs₀ 0 (fun _ => False) w :=
    h.balance.congr fun f => iff_of_false id (hasFrame_nil f)
  rw [← hb.settled h₀]
  exact ⟨fun hl => ⟨hl.blocks, hl.frames⟩, fun hl => ⟨hl.1, hl.2⟩⟩

/-- The record of the child is none of the blocks of before. -/
theorem fresh_record (h₀ : HeapHeld L w₀.client rs₀)
    (hnew : (w₀.kmalloc L word sizeofProcess).1 = some new) : new ∉ blocksOf w₀.live := by
  intro hin
  rcases w₀.kmalloc_cases L word sizeofProcess with ⟨u, he, -⟩ | ⟨a, u, he, ha, h0, -⟩
  · rw [he] at hnew
    cases hnew
  rw [he] at hnew
  cases hnew
  have hb : Balance L word sizeofSigQueue w₀.client rs₀ {new} (fun _ => False)
      (w₀.client.kmalloc L word sizeofProcess).2 [⟨w₀.client, sizeofProcess⟩] := by
    have hk := (Balance.start word sizeofSigQueue h₀).kmalloc_own
      small_sizeofProcess (by decide) (ha ▸ h0)
    rw [ha] at hk
    exact hk
  obtain ⟨lost, hblocks, -⟩ := hb.blocks
  have hnodup := hb.nodup
  rw [hblocks, Multiset.singleton_add] at hnodup
  exact (Multiset.nodup_cons.mp hnodup).1 (Multiset.mem_add.mpr (.inr hin))

end life

end World

open World

/-- **A life leaks nothing exactly when no block is got for a signal in it, and no block leaves a
sliver in a region opened in it.** -/
theorem life_leaks_iff (L : Layout) (word : Machine → Nat → Nat) (swap swap2 p new : Nat)
    (w₀ w : World) (rs₀ : List (Region L)) (ops : List LifeOp) (hheap : HeapHeld L w₀.client rs₀)
    (hcalls : w₀.calls = []) (hnew : (w₀.kmalloc L word sizeofProcess).1 = some new)
    (hp : p ∈ blocksOf w₀.live)
    (hkids : ∀ q ∈ (w₀.kernel.proc p).children, q ∈ blocksOf w₀.live)
    (hcov : Covered w₀.kernel.machine swap) (hcov2 : Covered w₀.kernel.machine swap2)
    (hswap : OffHeap L swap) (hswap2 : OffHeap L swap2)
    (hmaps : ∀ pm ∈ (w₀.kernel.proc p).maps, pm.Withheld L w₀.kernel.machine)
    (hlive : (w₀.kernel.proc p).state ≠ .ZOMBIE) (hfork : 0 ≤ (w₀.fork L word swap swap2 p).1)
    (hrun : Run (lifeStep L word p new) (w₀.fork L word swap swap2 p).2 ops w)
    (hreaped : Reaped p new w.kernel) :
    LeaksNothing w₀ w ↔ ∀ call ∈ w.calls,
      ¬ call.Gets L word sizeofSigQueue ∧ ¬ SliversNew w₀.client call.client call.size := by
  have hfresh := fresh_record hheap hnew
  have hne : p ≠ new := fun he => hfresh (he ▸ hp)
  obtain ⟨c, halive⟩ := fork_alive hheap hcalls hnew hne hcov hcov2 hswap hswap2 hmaps hlive hfork
  have hinv : Inv L word p new w₀ rs₀ w := hrun.invariant _
    (fun _ _ _ hs hstep => hs.step hne (fun hin => hfresh (hkids new hin)) hstep) (.inl ⟨c, halive⟩)
  exact (hinv.gone hreaped).leaksNothing_iff hheap

/-! ## A fixed life -/

/-- The heap of a kernel without regions. -/
def Client.noRegion (virtHeap : Bytes) : Client Machine :=
  ⟨⟨fun _ => 0, virtHeap, [], (Kernel.parent 1).machine⟩, []⟩

/-- It has two blocks, one for the record of a process and one of `n` bytes. -/
def Client.twoBlocks (virtHeap : Bytes) (n : Nat) : Client Machine :=
  (((noRegion virtHeap).kmalloc .sample (fun _ _ => 0) sizeofProcess).2.kmalloc .sample
    (fun _ _ => 0) n).2

/-- A process with a code page only, whose record is the first of two blocks. -/
def World.parent (virtHeap : Bytes) (n : Nat) : World :=
  let c := Client.twoBlocks virtHeap n
  { kernel := { Kernel.parent 1 with
      machine := c.heap.low
      current := some 0xC0780030
      processList := [0xC0780030]
      proc := fun _ => { Process.zero with pid := 1, mmCode := ⟨0x50000000, 0x510000, 1, 7⟩ } }
    recs := fun _ => .empty
    mem := c.heap.mem
    mmVirtHeap := c.heap.mmVirtHeap
    heapList := c.heap.heapList
    live := c.live
    calls := [] }

def World.forked (virtHeap : Bytes) (n : Nat) : World :=
  ((parent virtHeap n).fork .sample (fun _ _ => 0) 0xC0200000 0xC0201000 0xC0780030).2

def World.exited (virtHeap : Bytes) (n child : Nat) : World :=
  (forked virtHeap n).exit .sample (fun _ _ => 0) child 3

def World.waited (virtHeap : Bytes) (n child : Nat) : World :=
  ((exited virtHeap n child).processWaitpid .sample (fun _ _ => 0) 0xC0780030 (-1) 0).2

theorem parent_stretch (virtHeap : Bytes) {n : Nat} (hn : Small n) :
    ∃ (rs : List (Region .sample)) (slivered : Prop), Stretch .sample (Client.noRegion virtHeap) []
      (fun _ => False) slivered (World.parent virtHeap n).client rs := by
  have h₀ := Stretch.start (HeapHeld.empty (L := .sample) parent_paging (fun _ => 0) virtHeap)
  obtain ⟨rs₁, h₁⟩ := h₀.kmalloc (fun _ _ => 0) small_sizeofProcess
  obtain ⟨rs₂, h₂⟩ := h₁.kmalloc (fun _ _ => 0) hn
  exact ⟨rs₂, _, h₂⟩

theorem parent_withheld (virtHeap : Bytes) {n : Nat} (hn : Small n) :
    ∀ pm ∈ ((World.parent virtHeap n).kernel.proc 0xC0780030).maps,
      pm.Withheld .sample (World.parent virtHeap n).kernel.machine := by
  intro pm hpm
  obtain rfl := List.mem_singleton.mp hpm
  obtain ⟨rs, slivered, hs⟩ := parent_stretch virtHeap hn
  have hcode := (parent_owned ⟨0x50000000, 0x510000, 1, 7⟩ (by decide)).withheld
  exact ⟨hcode.aligned, hcode.frames, hcode.present, fun i hi =>
    ⟨hs.not_avail (hcode.withheld i hi).1, (hcode.withheld i hi).2⟩⟩

theorem child_exits (virtHeap : Bytes) (n : Nat) {child : Nat}
    (h : Lives 0xC0780030 child (World.forked virtHeap n).kernel) :
    lifeStep .sample (fun _ _ => 0) 0xC0780030 child (.forked virtHeap n) (.exit 3)
      (.exited virtHeap n child) := ⟨h, rfl⟩

theorem father_waits (virtHeap : Bytes) (n : Nat) {child : Nat}
    (h : freed (World.exited virtHeap n child).kernel (.waitpid 0xC0780030 (-1) 0) = some child) :
    lifeStep .sample (fun _ _ => 0) 0xC0780030 child (.exited virtHeap n child) (.waitpid (-1) 0)
      (.waited virtHeap n child) := by
  refine ⟨rfl, fun c hc => ?_⟩
  rw [h] at hc
  exact (Option.some.inj hc).symm

/-- With a page of the heap left, the life of the child leaves the block of its `SIGCHLD`. -/
theorem sigchld_block_leaks :
    0 ≤ ((World.parent (fun _ => 0xFF) 1000).fork .sample (fun _ _ => 0) 0xC0200000 0xC0201000
        0xC0780030).1 ∧
      ∃ w, Run (lifeStep .sample (fun _ _ => 0) 0xC0780030 0xC0780570) (.forked (fun _ => 0xFF) 1000)
          [.exit 3, .waitpid (-1) 0, .deliverParent] w ∧
        Reaped 0xC0780030 0xC0780570 w.kernel ∧
        w.live.map (fun x => (x.ptr, x.asked)) =
          [(0xC07806D0, 16), (0xC0780170, 1000), (0xC0780030, 292)] ∧
        ¬ LeaksNothing (.parent (fun _ => 0xFF) 1000) w := by
  refine ⟨by decide +kernel, ?_⟩
  have hsome : ((World.waited (fun _ => 0xFF) 1000 0xC0780570).sendSignal .sample (fun _ _ => 0)
    0xC0780030).isSome = true := by decide +kernel
  obtain ⟨w, hw⟩ := Option.isSome_iff_exists.mp hsome
  have hout : ((World.waited (fun _ => 0xFF) 1000 0xC0780570).sendSignal .sample (fun _ _ => 0)
      0xC0780030).map (fun w => ((w.kernel.proc 0xC0780030).state,
        (w.kernel.proc 0xC0780030).children, (w.kernel.proc 0xC0780030).signal.sigQueue,
        w.live.map fun x => (x.ptr, x.asked))) = some (.RUN, [], [],
          [(0xC07806D0, 16), (0xC0780170, 1000), (0xC0780030, 292)]) := by
    decide +kernel
  rw [hw, Option.map_some, Option.some.injEq] at hout
  simp only [Prod.mk.injEq] at hout
  obtain ⟨hstate, hkids, hqueue, hlive⟩ := hout
  refine ⟨w, .cons (child_exits _ _ ⟨by decide +kernel, by decide +kernel⟩)
    (.cons (father_waits _ _ (by decide +kernel))
      (.single ⟨hw, by rw [hstate]; decide, fun c hc => ?_⟩)),
    ⟨by rw [hkids]; simp, by rw [hqueue]; simp⟩, hlive, fun h => ?_⟩
  · have hnone : freed (World.waited (fun _ => 0xFF) 1000 0xC0780570).kernel
        (.sendSignal 0xC0780030) = none := by decide +kernel
    rw [hnone] at hc
    cases hc
  · have hcount := congrArg Multiset.card h.blocks
    have hlen : w.live.length = 3 := by simpa using congrArg List.length hlive
    have hlen₀ : (World.parent (fun _ => 0xFF) 1000).live.length = 2 := by decide +kernel
    simp only [blocksOf, Multiset.coe_card, List.length_map, hlen, hlen₀] at hcount
    omega

/-- The window of the heap has one page left, which the parent's blocks are in. -/
def lastPage : Bytes := fun i => if i = 0 then 1 else 0

/-- With no page of the heap left and too little room for the `SIGCHLD`, a life leaves nothing. -/
theorem sigchld_refused_leaks_nothing :
    LeaksNothing (.parent lastPage 3344) (.waited lastPage 3344 0xC0780E90) := by
  have hsize : Small 3344 := ⟨by decide, by decide⟩
  obtain ⟨rs, slivered, hs⟩ := parent_stretch lastPage hsize
  have hcalls : ∀ call ∈ (World.waited lastPage 3344 0xC0780E90).calls,
      ¬ (call.size = 16 ∧ (call.client.kmalloc .sample (fun _ _ => 0) call.size).1 ≠ 0) ∧
        ∀ f ∈ firstFitHead 0 call.size call.client.heap.mem call.client.heap.heapList,
          f.1 ∈ (World.parent lastPage 3344).heapList := by decide +kernel
  exact (life_leaks_iff .sample (fun _ _ => 0) 0xC0200000 0xC0201000 0xC0780030 0xC0780E90
    (.parent lastPage 3344) (.waited lastPage 3344 0xC0780E90) rs [.exit 3, .waitpid (-1) 0] hs.held
    rfl (by decide +kernel) (by decide +kernel) (by decide) ⟨by decide, by decide +kernel⟩
    ⟨by decide, by decide +kernel⟩ (offHeap_kernel _ (by decide)) (offHeap_kernel _ (by decide))
    (parent_withheld lastPage hsize) (by decide) (by decide +kernel)
    (.cons (child_exits _ _ ⟨by decide +kernel, by decide +kernel⟩)
      (.single (father_waits _ _ (by decide +kernel)))) ⟨by decide +kernel, by decide +kernel⟩).mpr
    fun call hc => ⟨(hcalls call hc).1, not_sliversNew (hcalls call hc).2⟩

end Moonlight
