import MoonlightKernel.Lib.Run
import MoonlightKernel.Tty.Terminal

/-!
# The cursor, the screens and the VGA buffer

* `Tty.InGrid` — the cursor is on the screen and every store went inside it;
* `Console.Shown` — the VGA buffer holds the screen of the current terminal;
* `ttyStep_inv` — every operation keeps both, a backspace in the first cell apart;
* `cursor_in_grid` — the cursor never leaves the grid;
* `vga_mirrors_current` — the VGA buffer mirrors the current terminal.
-/

set_option autoImplicit false

namespace Moonlight

open Sys

/-- The number of cells of a screen. -/
def CELLS : Nat := VGA_WIDTH * VGA_HEIGHT

theorem width_pos : 0 < VGA_WIDTH := by decide

theorem height_pos : 0 < VGA_HEIGHT := by decide

theorem cellIndex_eq {x y : Nat} (hx : x < VGA_WIDTH) (hy : y < VGA_HEIGHT) :
    cellIndex x y = y * VGA_WIDTH + x := by
  unfold VGA_WIDTH VGA_HEIGHT at *
  rw [cellIndex, VGA_WIDTH, add32_of_lt (by omega)]

theorem cellIndex_lt {x y : Nat} (hx : x < VGA_WIDTH) (hy : y < VGA_HEIGHT) :
    cellIndex x y < CELLS := by
  rw [cellIndex_eq hx hy]
  unfold CELLS VGA_WIDTH VGA_HEIGHT at *
  omega

theorem fillRows_val (v : Nat → UInt16) (n : Nat) (a : Cells UInt16) (j : Nat) :
    (fillRows v n a).val j = if j < n * VGA_WIDTH then v j else a.val j := by
  induction n with
  | zero => simp [fillRows]
  | succ n ih =>
    rw [fillRows, Cells.storeRange_val, ih, Nat.succ_mul]
    by_cases h : j < n * VGA_WIDTH
    · rw [if_neg (by omega), if_pos h, if_pos (by omega)]
    · rw [if_neg h]
      exact if_congr (by omega) rfl rfl

theorem fillRows_within (v : Nat → UInt16) {n : Nat} (hn : n ≤ VGA_HEIGHT) {a : Cells UInt16}
    (h : a.Within CELLS) : (fillRows v n a).Within CELLS := by
  induction n with
  | zero => exact h
  | succ n ih =>
    refine (ih (by omega)).storeRange ?_ v
    unfold CELLS VGA_WIDTH VGA_HEIGHT at *
    omega

/-! ## The cursor stays in the grid -/

namespace Tty

/-- The cursor is on the screen, and so was every store. -/
structure InGrid (s : Tty) : Prop where
  row : s.ttyRow < VGA_HEIGHT
  column : s.ttyColumn < VGA_WIDTH
  stores : s.screen.Within CELLS

/-- The rows move up, and the last one is blank. -/
theorem scrollup_val (s : Tty) (j : Nat) : s.scrollup.screen.val j =
    if j < VGA_WIDTH * (VGA_HEIGHT - 1) then s.screen.val (VGA_WIDTH + j)
    else if j < CELLS then vgaEntry 32 s.ttyColor else s.screen.val j := by
  have hmove : memmove s.screen 0 VGA_WIDTH (VGA_WIDTH * (VGA_HEIGHT - 1)) =
      Cells.copyForward 0 VGA_WIDTH (VGA_WIDTH * (VGA_HEIGHT - 1)) s.screen := rfl
  unfold scrollup
  dsimp only
  rw [hmove, Cells.storeRange_val, Cells.copyForward_val (Nat.zero_le _), Nat.sub_zero]
  unfold CELLS VGA_WIDTH VGA_HEIGHT
  by_cases hup : j < 80 * (25 - 1)
  · rw [if_neg (by omega), if_pos (by omega), if_pos hup]
  · rw [if_neg hup, if_neg (show ¬ (0 ≤ j ∧ j < 0 + 80 * (25 - 1)) by omega)]
    exact if_congr (by omega) rfl rfl

theorem scrollup_within {s : Tty} (h : s.screen.Within CELLS) :
    s.scrollup.screen.Within CELLS :=
  (h.copyForward (by decide) _).storeRange (by decide) _

/-- Above the last row the line feed moves the cursor. -/
theorem lineFeed_of_lt {s : Tty} (h : s.ttyRow + 1 < VGA_HEIGHT) :
    s.lineFeed = { s with ttyRow := s.ttyRow + 1 } := by
  have hne : s.ttyRow ≠ VGA_HEIGHT := by omega
  have hadd : add32 s.ttyRow 1 = s.ttyRow + 1 := by
    unfold VGA_HEIGHT at h
    rw [add32_of_lt (by omega)]
  unfold lineFeed nextRow
  rw [if_pos hne, hadd]
  exact if_neg (Nat.ne_of_lt h)

/-- In the last row it scrolls the screen. -/
theorem lineFeed_of_last {s : Tty} (h : s.ttyRow + 1 = VGA_HEIGHT) :
    s.lineFeed = { s with screen := s.scrollup.screen } := by
  have h1 : add32 s.ttyRow 1 = VGA_HEIGHT := by
    unfold VGA_HEIGHT at *
    rw [add32_of_lt (by omega), h]
  have h2 : sub32 VGA_HEIGHT 1 = s.ttyRow := by
    unfold VGA_HEIGHT at *
    rw [sub32_of_le (by omega) (by omega)]
    omega
  unfold lineFeed nextRow
  rw [if_pos (show s.ttyRow ≠ VGA_HEIGHT by omega), h1]
  dsimp only
  rw [if_pos rfl]
  show { s with screen := s.scrollup.screen, ttyRow := sub32 VGA_HEIGHT 1 } = _
  rw [h2]

/-- It moves the cursor to no other column. -/
theorem lineFeed_ttyColumn (s : Tty) : s.lineFeed.ttyColumn = s.ttyColumn := by
  have hnext : s.nextRow.ttyColumn = s.ttyColumn := by
    unfold nextRow
    split <;> rfl
  unfold lineFeed
  dsimp only
  split <;> exact hnext

theorem lineFeed_ttyColor (s : Tty) : s.lineFeed.ttyColor = s.ttyColor := by
  have hnext : s.nextRow.ttyColor = s.ttyColor := by
    unfold nextRow
    split <;> rfl
  unfold lineFeed
  dsimp only
  split <;> exact hnext

theorem InGrid.lineFeed {s : Tty} (h : s.InGrid) : s.lineFeed.InGrid := by
  by_cases hlast : s.ttyRow + 1 = VGA_HEIGHT
  · rw [lineFeed_of_last hlast]
    exact ⟨h.row, h.column, scrollup_within h.stores⟩
  · have hlt : s.ttyRow + 1 < VGA_HEIGHT := by
      have := h.row
      omega
    rw [lineFeed_of_lt hlt]
    exact ⟨hlt, h.column, h.stores⟩

theorem InGrid.column_zero {s : Tty} (h : s.InGrid) : InGrid { s with ttyColumn := 0 } :=
  ⟨h.row, width_pos, h.stores⟩

theorem InGrid.putentryat {s : Tty} (h : s.InGrid) (ch color : UInt8) :
    (s.putentryat ch color s.ttyColumn s.ttyRow).InGrid :=
  ⟨h.row, h.column, h.stores.store (cellIndex_lt h.column h.row) _⟩

/-- Inside a row `tty_printchar` moves the cursor on; at its end it feeds a line. -/
theorem printchar_eq {s : Tty} (h : s.ttyColumn < VGA_WIDTH) (ch : UInt8) : s.printchar ch =
    if s.ttyColumn + 1 = VGA_WIDTH then
      lineFeed { s.putentryat ch s.ttyColor s.ttyColumn s.ttyRow with ttyColumn := 0 }
    else { s.putentryat ch s.ttyColor s.ttyColumn s.ttyRow with ttyColumn := s.ttyColumn + 1 } := by
  have hadd : add32 s.ttyColumn 1 = s.ttyColumn + 1 := by
    unfold VGA_WIDTH at h
    rw [add32_of_lt (by omega)]
  unfold printchar
  rw [hadd]

theorem InGrid.printchar {s : Tty} (h : s.InGrid) (ch : UInt8) : (s.printchar ch).InGrid := by
  have hput := h.putentryat ch s.ttyColor
  rw [printchar_eq h.column]
  split
  · exact hput.column_zero.lineFeed
  · rename_i hin
    have hcol : s.ttyColumn + 1 < VGA_WIDTH := by
      have := h.column
      omega
    exact ⟨hput.row, hcol, hput.stores⟩

/-- The cursor is in the first cell of the screen. -/
def AtOrigin (s : Tty) : Prop := s.ttyRow = 0 ∧ s.ttyColumn = 0

instance (s : Tty) : Decidable s.AtOrigin := inferInstanceAs (Decidable (_ ∧ _))

theorem InGrid.stepBack {s : Tty} (h : s.InGrid) (hat : ¬ s.AtOrigin) : s.stepBack.InGrid := by
  have hrow := h.row
  have hcol := h.column
  unfold AtOrigin at hat
  unfold Tty.stepBack
  unfold VGA_HEIGHT VGA_WIDTH at *
  split
  · rename_i hprev
    refine ⟨?_, Nat.lt_succ_self 79, h.stores⟩
    show sub32 s.ttyRow 1 < 25
    rw [sub32_of_le (by omega) (by omega)]
    omega
  · refine ⟨hrow, ?_, h.stores⟩
    show sub32 s.ttyColumn 1 < 80
    rw [sub32_of_le (by omega) (by omega)]
    omega

/-- **`tty_putchar` keeps the cursor in the grid**, unless a backspace meets it in the first
cell. -/
theorem InGrid.putchar {s : Tty} (h : s.InGrid) {ch : UInt8} (hat : ch = 8 → ¬ s.AtOrigin) :
    (s.putchar ch).InGrid := by
  unfold Tty.putchar
  split
  · exact h.printchar ch
  split
  · exact h.lineFeed.column_zero
  split
  · exact h.column_zero
  split
  · rename_i hbs
    exact (h.stepBack (hat hbs)).putentryat 32 _
  · exact h

theorem clearScreen_inGrid {s : Tty} (h : s.screen.Within CELLS) : s.clearScreen.InGrid :=
  ⟨height_pos, width_pos, fillRows_within _ (Nat.le_refl _) h⟩

end Tty

/-! ## The VGA buffer shows the current terminal -/

/-- The VGA buffer holds the screen of the current terminal, and every store into it was inside
it. -/
structure Console.Shown (c : Console) : Prop where
  stores : c.vgaBuffer.Within CELLS
  mirrors : ∀ j < CELLS, c.vgaBuffer.val j = (c.tty c.currentTty).screen.val j

namespace Console.Shown

variable {c c' : Console} {term : Nat} {f : Tty → Tty}

/-- An operation on another terminal does not show. -/
theorem away (h : c.Shown) (ha : ActsOn term f c c') (hne : c.currentTty ≠ term) : c'.Shown where
  stores := by
    rw [ha.away hne]
    exact h.stores
  mirrors j hj := by
    rw [ha.away hne, ha.current, ha.other hne]
    exact h.mirrors j hj

/-- Neither does a change of other fields than the screen. -/
theorem modify (h : c.Shown) (hf : (f (c.tty term)).screen = (c.tty term).screen) :
    (c.modify term f).Shown where
  stores := h.stores
  mirrors j hj := by
    by_cases hcur : c.currentTty = term
    · rw [modify_currentTty, hcur, modify_tty, hf, ← hcur]
      exact h.mirrors j hj
    · rw [modify_currentTty, (ActsOn.modify term f c).other hcur]
      exact h.mirrors j hj

theorem moveCursor (h : c.Shown) (x y : Nat) : (vgaMoveCursor x y c).Shown := ⟨h.stores, h.mirrors⟩

theorem showCursor (h : c.Shown) (term : Nat) : (ttyShowCursor term c).Shown := by
  unfold ttyShowCursor
  split
  · exact h.moveCursor _ _
  · exact h

/-- After `tty_render_vga` the buffer shows the terminal, whatever it held before. -/
theorem render (h : c.vgaBuffer.Within CELLS) (hcur : term = c.currentTty) :
    (ttyRenderVga term c).Shown where
  stores := fillRows_within _ (Nat.le_refl _) h
  mirrors j hj := by
    show (fillRows (c.tty term).screen.val VGA_HEIGHT c.vgaBuffer).val j = _
    rw [fillRows_val, hcur]
    exact if_pos hj

/-- A single cell goes to the screen and to the buffer. -/
theorem putentryat (h : c.Shown) {x y : Nat} (hx : x < VGA_WIDTH) (hy : y < VGA_HEIGHT)
    (ch color : UInt8) : (ttyPutentryat term ch color x y c).Shown := by
  by_cases hcur : c.currentTty = term
  · unfold ttyPutentryat
    dsimp only
    rw [modify_currentTty, if_pos hcur]
    refine ⟨h.stores.store (cellIndex_lt hx hy) _, fun j hj => ?_⟩
    dsimp only
    rw [hcur, modify_tty, Tty.putentryat, Cells.store_val, Cells.store_val]
    refine if_congr Iff.rfl rfl ?_
    rw [← hcur]
    exact h.mirrors j hj
  · exact h.away (ActsOn.putentryat ..) hcur

theorem lineFeed (h : c.Shown) (term : Nat) : (ttyLineFeed term c).Shown := by
  by_cases hcur : c.currentTty = term
  · unfold ttyLineFeed
    dsimp only
    have hnext : (c.modify term Tty.nextRow).Shown := h.modify (by unfold Tty.nextRow; split <;> rfl)
    split
    · -- the scrolled screen is rendered
      rw [if_pos (by rw [modify_currentTty, modify_currentTty, hcur])]
      refine Shown.modify (render hnext.stores ?_) rfl
      rw [modify_currentTty, modify_currentTty, hcur]
    · exact hnext
  · exact h.away (ttyLineFeed_acts term c) hcur

theorem printchar (h : c.Shown) (hgrid : (c.tty term).InGrid) (ch : UInt8) :
    (ttyPrintchar term ch c).Shown := by
  unfold ttyPrintchar
  dsimp only
  have hput : Shown (ttyPutentryat term ch _ _ _ c) :=
    h.putentryat hgrid.column hgrid.row ch (c.tty term).ttyColor
  refine showCursor ?_ term
  split
  · exact ((hput.modify rfl).modify rfl).lineFeed term
  · exact hput.modify rfl

theorem backspace (h : c.Shown) (hgrid : (c.tty term).InGrid) (hat : ¬ (c.tty term).AtOrigin) :
    (ttyBackspace term c).Shown := by
  unfold ttyBackspace
  dsimp only
  rw [modify_tty]
  have hback := hgrid.stepBack hat
  have hmove : (c.modify term Tty.stepBack).Shown := h.modify (by unfold Tty.stepBack; split <;> rfl)
  exact (hmove.putentryat hback.column hback.row 32 _).showCursor term

theorem putchar (h : c.Shown) (hgrid : (c.tty term).InGrid) {ch : UInt8}
    (hat : ch = 8 → ¬ (c.tty term).AtOrigin) : (ttyPutchar term ch c).Shown := by
  unfold ttyPutchar
  split
  · exact h.printchar hgrid ch
  split
  · exact ((h.lineFeed term).modify rfl).showCursor term
  split
  · exact h.modify rfl
  split
  · rename_i hbs
    exact h.backspace hgrid (hat hbs)
  · exact h

/-- Clearing the current terminal renders it. -/
theorem clear_current (h : c.vgaBuffer.Within CELLS) (hcur : c.currentTty = term) :
    (ttyClearScreen term c).Shown := by
  unfold ttyClearScreen
  dsimp only
  rw [modify_currentTty, if_pos hcur]
  refine moveCursor ?_ 0 0
  exact render h hcur.symm

theorem clearScreen (h : c.Shown) (term : Nat) : (ttyClearScreen term c).Shown := by
  by_cases hcur : c.currentTty = term
  · exact clear_current h.stores hcur
  · exact h.away (ttyClearScreen_acts term c) hcur

theorem switchTty (h : c.vgaBuffer.Within CELLS) (term : Nat) : (switchTty term c).Shown := by
  refine moveCursor ?_ _ _
  exact render (c := { c with currentTty := term }) h rfl

end Console.Shown

/-! ## Runs -/

/-- The operations on the terminals. -/
inductive TtyOp where
  | putchar (term : Nat) (ch : UInt8)
  | setcolor (term : Nat) (color : UInt8)
  | clearScreen (term : Nat)
  | switchTty (term : Nat)

/-- The terminal that the operation is about. -/
def TtyOp.term : TtyOp → Nat
  | .putchar term _ => term
  | .setcolor term _ => term
  | .clearScreen term => term
  | .switchTty term => term

def TtyOp.apply : TtyOp → Console → Console
  | .putchar term ch => ttyPutchar term ch
  | .setcolor term color => ttySetcolor term color
  | .clearScreen term => ttyClearScreen term
  | .switchTty term => Moonlight.switchTty term

/-- The operation is no backspace on a terminal whose cursor is in the first cell. -/
def TtyOp.NotAtOrigin (c : Console) : TtyOp → Prop
  | .putchar term ch => ch = 8 → ¬ (c.tty term).AtOrigin
  | _ => True

/-- One operation on one of the terminals. -/
def ttyStep (c : Console) (op : TtyOp) (c' : Console) : Prop :=
  op.term < MAX_TTY ∧ c' = op.apply c

/-- One operation, a backspace in the first cell excluded. -/
def ttyStepIn (c : Console) (op : TtyOp) (c' : Console) : Prop :=
  ttyStep c op c' ∧ op.NotAtOrigin c

/-- Every terminal is in its grid and the current one shows. -/
structure Console.Ok (c : Console) : Prop where
  grid : ∀ term < MAX_TTY, (c.tty term).InGrid
  shown : c.Shown

/-- An operation that keeps its terminal in the grid keeps all of them there. -/
theorem ActsOn.grid {term : Nat} {f : Tty → Tty} {c c' : Console} (ha : ActsOn term f c c')
    (h : ∀ u < MAX_TTY, (c.tty u).InGrid) (hf : (f (c.tty term)).InGrid) :
    ∀ u < MAX_TTY, (c'.tty u).InGrid := by
  intro u hu
  by_cases hut : u = term
  · rw [hut, ha.self]
    exact hf
  · rw [ha.other hut]
    exact h u hu

/-- **One operation** keeps the terminals in their grids and the current one shown. -/
theorem ttyStep_ok (c : Console) (op : TtyOp) (c' : Console) (h : c.Ok)
    (hstep : ttyStepIn c op c') : c'.Ok := by
  obtain ⟨⟨hterm, rfl⟩, hat⟩ := hstep
  have hgrid := h.grid op.term hterm
  cases op with
  | putchar term ch =>
    exact ⟨(ttyPutchar_acts term ch c).grid h.grid (hgrid.putchar hat), h.shown.putchar hgrid hat⟩
  | setcolor term color =>
    exact ⟨(ttySetcolor_acts term color c).grid h.grid ⟨hgrid.row, hgrid.column, hgrid.stores⟩,
      @Console.Shown.modify c term (fun s => { s with ttyColor := color }) h.shown rfl⟩
  | clearScreen term =>
    exact ⟨(ttyClearScreen_acts term c).grid h.grid (Tty.clearScreen_inGrid hgrid.stores),
      h.shown.clearScreen term⟩
  | switchTty term => exact ⟨h.grid, Console.Shown.switchTty h.shown.stores term⟩

/-! ## `init_tty` -/

/-- No store was recorded yet. -/
structure Console.Unrecorded (c : Console) : Prop where
  screens : ∀ term, (c.tty term).screen.written = []
  vga : c.vgaBuffer.written = []

/-- What an iteration of `init_tty` does to its terminal. -/
def Tty.initOne (i : Nat) (s : Tty) : Tty :=
  Tty.clearScreen { s with
    ttyColor := vgaEntryColor VGA_COLOR_LIGHT_GREY (VGA_COLOR_BLACK + UInt8.ofNat i)
    inputRawC := 0 }

theorem initOne_acts (i : Nat) (c : Console) : ActsOn i (Tty.initOne i) c (initOne i c) :=
  ((ActsOn.modify i _ c).trans (ttyClearScreen_acts i _)).congr rfl

theorem initLoop_currentTty (n : Nat) (c : Console) : (initLoop n c).currentTty = c.currentTty := by
  induction n with
  | zero => rfl
  | succ n ih => exact (initOne_acts n _).current.trans ih

/-- The loop initialises the terminals that it reached. -/
theorem initLoop_tty (n : Nat) (c : Console) (i : Nat) :
    (initLoop n c).tty i = if i < n then Tty.initOne i (c.tty i) else c.tty i := by
  induction n with
  | zero => rfl
  | succ n ih =>
    rw [initLoop, (initOne_acts n _).tty]
    rcases eq_or_ne i n with rfl | hin
    · rw [Function.update_self, if_pos (Nat.lt_succ_self i), ih, if_neg (Nat.lt_irrefl i)]
    · rw [Function.update_of_ne hin, ih]
      exact if_congr (by omega) rfl rfl

/-- The loop shows the first terminal, which is current, from its first iteration on. -/
theorem initLoop_shown {c : Console} (h : c.vgaBuffer.Within CELLS) (hcur : c.currentTty = 0)
    (n : Nat) : (initLoop (n + 1) c).Shown := by
  induction n with
  | zero => exact Console.Shown.clear_current h hcur
  | succ n ih =>
    refine ih.away (initOne_acts (n + 1) _) ?_
    rw [initLoop_currentTty, hcur]
    omega

theorem initTty_ok {c : Console} (h : c.Unrecorded) : (initTty c).Ok where
  grid term hterm := by
    rw [initTty, initLoop_tty, if_pos hterm]
    refine Tty.clearScreen_inGrid fun i hi => ?_
    rw [h.screens term] at hi
    cases hi
  shown := by
    refine initLoop_shown (n := 9) (fun i hi => ?_) rfl
    rw [h.vga] at hi
    cases hi

/-- **The cursor never leaves the grid.**  From `init_tty` on, in every run without a backspace on
a terminal whose cursor is in the first cell, each cursor is on its screen and no store goes outside
a screen or the VGA buffer. -/
theorem cursor_in_grid {c c' : Console} (h : c.Unrecorded) {ops : List TtyOp}
    (run : Run ttyStepIn (initTty c) ops c') {term : Nat} (hterm : term < MAX_TTY) :
    (c'.tty term).ttyRow < VGA_HEIGHT ∧ (c'.tty term).ttyColumn < VGA_WIDTH ∧
      (∀ i ∈ (c'.tty term).screen.written, i < VGA_WIDTH * VGA_HEIGHT) ∧
      ∀ i ∈ c'.vgaBuffer.written, i < VGA_WIDTH * VGA_HEIGHT := by
  have hok := run.invariant Console.Ok ttyStep_ok (initTty_ok h)
  have hgrid := hok.grid term hterm
  exact ⟨hgrid.row, hgrid.column, hgrid.stores, hok.shown.stores⟩

/-- The memory of the terminals before `init_tty`. -/
def Console.zeroed : Console where
  tty _ := ⟨0, 0, 0, ⟨fun _ => 0, []⟩, fun _ => 0, 0, ⟨0, 0, fun _ => 0⟩⟩
  currentTty := 0
  vgaBuffer := ⟨fun _ => 0, []⟩
  cursorLow := 0
  cursorHigh := 0

theorem Console.zeroed_unrecorded : Console.zeroed.Unrecorded := ⟨fun _ => rfl, rfl⟩

/-- A letter, a backspace over it and a carriage return. -/
theorem cursor_in_grid_after_backspace : ∃ ops c', Run ttyStepIn (initTty Console.zeroed) ops c' ∧
    ops.length = 3 ∧ (c'.tty 3).ttyRow < VGA_HEIGHT ∧ (c'.tty 3).ttyColumn < VGA_WIDTH := by
  have hfirst : ttyStepIn (initTty Console.zeroed) (.putchar 3 65)
      (ttyPutchar 3 65 (initTty Console.zeroed)) := by
    refine ⟨⟨by decide, rfl⟩, fun h => ?_⟩
    revert h
    decide
  have hcolumn : ((ttyPutchar 3 65 (initTty Console.zeroed)).tty 3).ttyColumn ≠ 0 := by
    rw [(ttyPutchar_acts 3 65 _).self]
    decide +kernel
  have run : Run ttyStepIn (initTty Console.zeroed) [.putchar 3 65, .putchar 3 8, .putchar 3 13] _ :=
    .cons hfirst (.cons ⟨⟨by decide, rfl⟩, fun _ h => hcolumn h.2⟩
      (.cons ⟨⟨by decide, rfl⟩, fun h => absurd h (by decide)⟩ (.nil _)))
  obtain ⟨hrow, hcol, -⟩ := cursor_in_grid Console.zeroed_unrecorded run (show 3 < MAX_TTY by decide)
  exact ⟨_, _, run, rfl, hrow, hcol⟩

/-- In the first cell a backspace wraps the column, and stores far outside the screen. -/
theorem Tty.backspace_at_origin {s : Tty} (h : s.AtOrigin) :
    (s.putchar 8).ttyColumn = 4294967295 ∧ 4294967295 ∈ (s.putchar 8).screen.written := by
  have hwrap : sub32 0 1 = 4294967295 := by decide +kernel
  have hcell : cellIndex 4294967295 0 = 4294967295 := by decide +kernel
  have hback : s.stepBack = { s with ttyColumn := 4294967295 } := by
    unfold stepBack
    rw [if_neg (fun hrow => hrow.2 h.1), h.2, hwrap]
  have hput : s.putchar 8 = s.backspace := rfl
  rw [hput, backspace, hback]
  refine ⟨rfl, ?_⟩
  show 4294967295 ∈ (s.screen.store (cellIndex 4294967295 s.ttyRow) _).written
  rw [h.1, hcell]
  exact List.mem_cons_self

/-- A backspace right after `init_tty` does. -/
theorem backspace_leaves_grid : ∃ c', ttyStep (initTty Console.zeroed) (.putchar 0 8) c' ∧
    ¬ (c'.tty 0).ttyColumn < VGA_WIDTH ∧
    ∃ i ∈ (c'.tty 0).screen.written, ¬ i < VGA_WIDTH * VGA_HEIGHT := by
  have horigin : ((initTty Console.zeroed).tty 0).AtOrigin := ⟨rfl, rfl⟩
  obtain ⟨hcol, hmem⟩ := Tty.backspace_at_origin horigin
  have hself := (ttyPutchar_acts 0 8 (initTty Console.zeroed)).self
  refine ⟨ttyPutchar 0 8 (initTty Console.zeroed), ⟨by decide, rfl⟩, ?_, 4294967295, ?_, by decide⟩
  · rw [hself, hcol]
    decide
  · rw [hself]
    exact hmem

/-! ## The VGA buffer -/

/-- What an operation leaves alone: the screens of all terminals but its own, and the VGA buffer
when its terminal is not current. -/
def TtyOp.Frame (op : TtyOp) (c c' : Console) : Prop :=
  match op with
  | .switchTty _ => ∀ u, (c'.tty u).screen = (c.tty u).screen
  | op => (∀ u, u ≠ op.term → (c'.tty u).screen = (c.tty u).screen) ∧
      (c.currentTty ≠ op.term → c'.vgaBuffer = c.vgaBuffer)

theorem ActsOn.frame {term : Nat} {f : Tty → Tty} {c c' : Console} (ha : ActsOn term f c c') :
    (∀ u, u ≠ term → (c'.tty u).screen = (c.tty u).screen) ∧
      (c.currentTty ≠ term → c'.vgaBuffer = c.vgaBuffer) :=
  ⟨fun _ hu => congrArg Tty.screen (ha.other hu), ha.away⟩

theorem TtyOp.apply_frame (op : TtyOp) (c : Console) : op.Frame c (op.apply c) := by
  cases op with
  | putchar term ch => exact (ttyPutchar_acts term ch c).frame
  | setcolor term color => exact (ttySetcolor_acts term color c).frame
  | clearScreen term => exact (ttyClearScreen_acts term c).frame
  | switchTty term => exact fun _ => rfl

/-- `init_tty`, `init_vga` and the first `switch_tty`. -/
def startConsole (c : Console) (hardware : Nat → UInt16) (first : Nat) : Console :=
  switchTty first (initVga hardware (initTty c))

theorem initVga_within (n : Nat) (hardware : Nat → UInt16) (c : Console) :
    (initVga hardware c).vgaBuffer.Within n := by
  intro i hi
  cases hi

theorem switchTty_initVga_tty (first : Nat) (hardware : Nat → UInt16) (c : Console) :
    (switchTty first (initVga hardware c)).tty = c.tty := rfl

theorem startConsole_ok {c : Console} (h : c.Unrecorded) (hardware : Nat → UInt16) (first : Nat) :
    (startConsole c hardware first).Ok where
  grid := by
    rw [startConsole, switchTty_initVga_tty]
    exact (initTty_ok h).grid
  shown := Console.Shown.switchTty (initVga_within _ _ _) first

/-- **The VGA buffer mirrors the current terminal.**  After every operation of a run its cells are
those of the screen of the current terminal, and the operation changed no other terminal's screen,
nor the buffer when its terminal was not current. -/
theorem vga_mirrors_current {c c' : Console} (h : c.Unrecorded) (hardware : Nat → UInt16)
    {first : Nat} {ops : List TtyOp}
    (run : Run ttyStepIn (startConsole c hardware first) ops c') :
    (∀ j < VGA_WIDTH * VGA_HEIGHT, c'.vgaBuffer.val j = (c'.tty c'.currentTty).screen.val j) ∧
      ∀ op c'', ttyStepIn c' op c'' →
        (∀ j < VGA_WIDTH * VGA_HEIGHT,
          c''.vgaBuffer.val j = (c''.tty c''.currentTty).screen.val j) ∧ op.Frame c' c'' := by
  have hok := run.invariant Console.Ok ttyStep_ok (startConsole_ok h hardware first)
  refine ⟨hok.shown.mirrors, fun op c'' hstep => ?_⟩
  refine ⟨(ttyStep_ok c' op c'' hok hstep).shown.mirrors, ?_⟩
  obtain ⟨⟨-, rfl⟩, -⟩ := hstep
  exact op.apply_frame c'

/-- The current terminal is cleared after a switch to another one. -/
theorem vga_mirrors_current_after_switch : ∃ ops c',
    Run ttyStepIn (startConsole Console.zeroed (fun _ => 3) 0) ops c' ∧ ops.length = 2 ∧
      ∀ j < VGA_WIDTH * VGA_HEIGHT, c'.vgaBuffer.val j = (c'.tty c'.currentTty).screen.val j := by
  have run : Run ttyStepIn (startConsole Console.zeroed (fun _ => 3) 0)
      [.switchTty 4, .clearScreen 4] _ :=
    .cons ⟨⟨by decide, rfl⟩, trivial⟩ (.cons ⟨⟨by decide, rfl⟩, trivial⟩ (.nil _))
  exact ⟨_, _, run, rfl, (vga_mirrors_current Console.zeroed_unrecorded _ run).1⟩

end Moonlight
