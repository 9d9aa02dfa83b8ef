import MoonlightKernel.Lib.Cells
import MoonlightKernel.Io.Stream

/-!
# Terminals: `kernel/tty` and `kernel/vga`

`MAX_TTY` terminals, one of them current, and the VGA buffer.  A terminal is named by its index in
the array `tty`.  Screens and the VGA buffer are arrays of 16-bit entries that record the indices
they were stored at; copies are made entry by entry.

* `ttyPutchar`, `ttyWrite`, `ttySetcolor`, `ttyClearScreen`, `switchTty`, `initTty` — the source
  functions;
* `Tty.putchar`, `Tty.clearScreen`, `Tty.write` — what they do to the terminal itself;
* `ActsOn` — an operation on one terminal, and what it leaves alone;
* `ttyPutchar_acts`, `ttyClearScreen_acts`, `ttyWrite_acts` — the functions are such operations.
-/

set_option autoImplicit false

namespace Moonlight

open Sys

def VGA_WIDTH : Nat := 80

def VGA_HEIGHT : Nat := 25

def MAX_TTY : Nat := 10

def VGA_COLOR_BLACK : UInt8 := 0

def VGA_COLOR_LIGHT_GREY : UInt8 := 7

/-- `t_tty`. -/
structure Tty where
  ttyRow : Nat
  ttyColumn : Nat
  ttyColor : UInt8
  screen : Cells UInt16
  inputRaw : Nat → UInt8
  inputRawC : Nat
  input : Stream

/-- The terminals, the index of `current_tty`, the cells at `vga_buffer`, and the two registers that
hold the position of the hardware cursor. -/
structure Console where
  tty : Nat → Tty
  currentTty : Nat
  vgaBuffer : Cells UInt16
  cursorLow : UInt8
  cursorHigh : UInt8

/-! ## Characters: `lib/char` -/

/-- A `char` as an `int`. -/
def charToInt (c : UInt8) : Int := if c.toNat < 128 then c.toNat else c.toNat - 256

def isspace (c : Int) : Bool := c = 32

def isdigit (c : Int) : Bool := 48 ≤ c ∧ c ≤ 57

def isupper (c : Int) : Bool := 65 ≤ c ∧ c ≤ 90

def islower (c : Int) : Bool := 97 ≤ c ∧ c ≤ 122

def isalpha (c : Int) : Bool := isupper c || islower c

def isalnum (c : Int) : Bool := isdigit c || isalpha c

def ispunct (c : Int) : Bool :=
  (33 ≤ c ∧ c ≤ 47) ∨ (58 ≤ c ∧ c ≤ 64) ∨ (91 ≤ c ∧ c ≤ 96) ∨ (123 ≤ c ∧ c ≤ 126)

def isprint (c : Int) : Bool := isspace c || isalnum c || ispunct c

/-! ## Entries and the hardware cursor: `kernel/vga` -/

/-- `vga_entry`. -/
def vgaEntry (uc color : UInt8) : UInt16 := uc.toUInt16 ||| (color.toUInt16 <<< 8)

/-- `vga_entry_color`. -/
def vgaEntryColor (fg bg : UInt8) : UInt8 := fg ||| (bg <<< 4)

/-- `y * VGA_WIDTH + x` on 32-bit words. -/
def cellIndex (x y : Nat) : Nat := add32 (y * VGA_WIDTH) x

/-- `vga_move_cursor`. -/
def vgaMoveCursor (x y : Nat) (c : Console) : Console :=
  { c with
    cursorLow := UInt8.ofNat (cellIndex x y)
    cursorHigh := UInt8.ofNat (cellIndex x y >>> 8) }

/-! ## Screens -/

/-- `memmove` on entries. -/
def memmove (a : Cells UInt16) (dst src len : Nat) : Cells UInt16 :=
  if len = 0 then a
  else if dst ≤ src then Cells.copyForward dst src len a
  else Cells.copyBackward dst src len a

/-- The double loop over rows and columns, up to row `n`, that stores `v pos` at each `pos`. -/
def fillRows (v : Nat → UInt16) : Nat → Cells UInt16 → Cells UInt16
  | 0, a => a
  | y + 1, a => Cells.storeRange (y * VGA_WIDTH) v VGA_WIDTH (fillRows v y a)

/-- The terminal `term` is changed by `f`. -/
def Console.modify (c : Console) (term : Nat) (f : Tty → Tty) : Console :=
  { c with tty := Function.update c.tty term (f (c.tty term)) }

/-- `tty_render_vga`. -/
def ttyRenderVga (term : Nat) (c : Console) : Console :=
  { c with vgaBuffer := fillRows (c.tty term).screen.val VGA_HEIGHT c.vgaBuffer }

/-- `tty_scrollup`. -/
def Tty.scrollup (s : Tty) : Tty :=
  let screen := memmove s.screen 0 VGA_WIDTH (VGA_WIDTH * (VGA_HEIGHT - 1))
  let last := VGA_WIDTH * (VGA_HEIGHT - 1)
  { s with screen := Cells.storeRange last (fun _ => vgaEntry 32 s.ttyColor) VGA_WIDTH screen }

/-- `tty_putentryat` on the terminal. -/
def Tty.putentryat (ch color : UInt8) (x y : Nat) (s : Tty) : Tty :=
  { s with screen := s.screen.store (cellIndex x y) (vgaEntry ch color) }

/-- `tty_putentryat`. -/
def ttyPutentryat (term : Nat) (ch color : UInt8) (x y : Nat) (c : Console) : Console :=
  let c := c.modify term (Tty.putentryat ch color x y)
  if c.currentTty = term then
    { c with vgaBuffer := c.vgaBuffer.store (cellIndex x y) (vgaEntry ch color) }
  else c

/-- `tty_setcolor`. -/
def ttySetcolor (term : Nat) (color : UInt8) (c : Console) : Console :=
  c.modify term fun s => { s with ttyColor := color }

/-- `tty_clear_screen` on the terminal. -/
def Tty.clearScreen (s : Tty) : Tty :=
  { s with
    screen := fillRows (fun _ => vgaEntry 32 s.ttyColor) VGA_HEIGHT s.screen
    ttyRow := 0
    ttyColumn := 0 }

/-- `tty_clear_screen`. -/
def ttyClearScreen (term : Nat) (c : Console) : Console :=
  let c := c.modify term Tty.clearScreen
  if c.currentTty = term then vgaMoveCursor 0 0 (ttyRenderVga term c) else c

/-- `switch_tty`. -/
def switchTty (term : Nat) (c : Console) : Console :=
  let c := ttyRenderVga term { c with currentTty := term }
  vgaMoveCursor (c.tty term).ttyColumn (c.tty term).ttyRow c

/-! ## `tty_putchar` -/

/-- `if (term == current_tty) vga_move_cursor(…)`, the end of the functions below. -/
def ttyShowCursor (term : Nat) (c : Console) : Console :=
  if term = c.currentTty then vgaMoveCursor (c.tty term).ttyColumn (c.tty term).ttyRow c else c

/-- `if (term->tty_row != VGA_HEIGHT) ++term->tty_row;` -/
def Tty.nextRow (s : Tty) : Tty :=
  if s.ttyRow ≠ VGA_HEIGHT then { s with ttyRow := add32 s.ttyRow 1 } else s

/-- The block that `tty_printchar` and `tty_putendl` share: the next row, and below the last one the
screen scrolls. -/
def ttyLineFeed (term : Nat) (c : Console) : Console :=
  let c := c.modify term Tty.nextRow
  if (c.tty term).ttyRow = VGA_HEIGHT then
    let c := c.modify term Tty.scrollup
    let c := if term = c.currentTty then ttyRenderVga term c else c
    c.modify term fun s => { s with ttyRow := sub32 s.ttyRow 1 }
  else c

/-- `tty_printchar`. -/
def ttyPrintchar (term : Nat) (ch : UInt8) (c : Console) : Console :=
  let s := c.tty term
  let c := ttyPutentryat term ch s.ttyColor s.ttyColumn s.ttyRow c
  let c := c.modify term fun s => { s with ttyColumn := add32 s.ttyColumn 1 }
  let c := if (c.tty term).ttyColumn = VGA_WIDTH then
      ttyLineFeed term (c.modify term fun s => { s with ttyColumn := 0 })
    else c
  ttyShowCursor term c

/-- `tty_putendl`. -/
def ttyPutendl (term : Nat) (c : Console) : Console :=
  let c := ttyLineFeed term c
  let c := c.modify term fun s => { s with ttyColumn := 0 }
  ttyShowCursor term c

/-- The move of `tty_backspace`. -/
def Tty.stepBack (s : Tty) : Tty :=
  if s.ttyColumn = 0 ∧ s.ttyRow ≠ 0 then
    { s with ttyColumn := VGA_WIDTH - 1, ttyRow := sub32 s.ttyRow 1 }
  else { s with ttyColumn := sub32 s.ttyColumn 1 }

/-- `tty_backspace`. -/
def ttyBackspace (term : Nat) (c : Console) : Console :=
  let c := c.modify term Tty.stepBack
  let s := c.tty term
  let c := ttyPutentryat term 32 s.ttyColor s.ttyColumn s.ttyRow c
  ttyShowCursor term c

/-- `tty_putretchariot`. -/
def ttyPutretchariot (term : Nat) (c : Console) : Console :=
  c.modify term fun s => { s with ttyColumn := 0 }

/-- `tty_putchar`; 10, 13 and 8 are the newline, the carriage return and the backspace. -/
def ttyPutchar (term : Nat) (ch : UInt8) (c : Console) : Console :=
  if isprint (charToInt ch) then ttyPrintchar term ch c
  else if ch = 10 then ttyPutendl term c
  else if ch = 13 then ttyPutretchariot term c
  else if ch = 8 then ttyBackspace term c
  else c

/-- `tty_write`. -/
def ttyWrite (term : Nat) (data : List UInt8) (c : Console) : Console :=
  data.foldl (fun c ch => ttyPutchar term ch c) c

/-! ## `init_tty` and `init_vga` -/

/-- The body of the loop of `init_tty`. -/
def initOne (i : Nat) (c : Console) : Console :=
  let c := c.modify i fun s =>
    { s with ttyColor := vgaEntryColor VGA_COLOR_LIGHT_GREY (VGA_COLOR_BLACK + UInt8.ofNat i)
             inputRawC := 0 }
  ttyClearScreen i c

/-- The loop of `init_tty`, its first `n` iterations. -/
def initLoop : Nat → Console → Console
  | 0, c => c
  | n + 1, c => initOne n (initLoop n c)

/-- `init_tty`. -/
def initTty (c : Console) : Console := initLoop MAX_TTY { c with currentTty := 0 }

/-- `init_vga`: `vga_buffer` now points at the cells of the hardware. -/
def initVga (hardware : Nat → UInt16) (c : Console) : Console :=
  { c with vgaBuffer := ⟨hardware, []⟩ }

/-! ## What the functions do to the terminal itself -/

namespace Tty

def lineFeed (s : Tty) : Tty :=
  let s := s.nextRow
  if s.ttyRow = VGA_HEIGHT then { s.scrollup with ttyRow := sub32 s.ttyRow 1 } else s

def printchar (ch : UInt8) (s : Tty) : Tty :=
  let s := { s.putentryat ch s.ttyColor s.ttyColumn s.ttyRow with
    ttyColumn := add32 s.ttyColumn 1 }
  if s.ttyColumn = VGA_WIDTH then lineFeed { s with ttyColumn := 0 } else s

def putendl (s : Tty) : Tty := { s.lineFeed with ttyColumn := 0 }

def backspace (s : Tty) : Tty :=
  let s := s.stepBack
  s.putentryat 32 s.ttyColor s.ttyColumn s.ttyRow

def putchar (ch : UInt8) (s : Tty) : Tty :=
  if isprint (charToInt ch) then s.printchar ch
  else if ch = 10 then s.putendl
  else if ch = 13 then { s with ttyColumn := 0 }
  else if ch = 8 then s.backspace
  else s

def write (data : List UInt8) (s : Tty) : Tty := data.foldl (fun s ch => s.putchar ch) s

end Tty

/-- An operation on the terminal `term` does `f` to it and leaves the others and the choice of the
current terminal alone; the VGA buffer changes only when `term` is current. -/
structure ActsOn (term : Nat) (f : Tty → Tty) (c c' : Console) : Prop where
  tty : c'.tty = Function.update c.tty term (f (c.tty term))
  current : c'.currentTty = c.currentTty
  away : c.currentTty ≠ term → c'.vgaBuffer = c.vgaBuffer

namespace ActsOn

variable {term : Nat} {f g : Tty → Tty} {c c' c'' : Console}

theorem self (h : ActsOn term f c c') : c'.tty term = f (c.tty term) := by
  rw [h.tty, Function.update_self]

theorem other (h : ActsOn term f c c') {u : Nat} (hu : u ≠ term) : c'.tty u = c.tty u := by
  rw [h.tty, Function.update_of_ne hu]

theorem refl (term : Nat) (c : Console) : ActsOn term id c c :=
  ⟨(Function.update_eq_self term c.tty).symm, rfl, fun _ => rfl⟩

theorem trans (h : ActsOn term f c c') (h' : ActsOn term g c' c'') :
    ActsOn term (g ∘ f) c c'' where
  tty := by
    rw [h'.tty, h.self, h.tty, Function.update_idem]
    rfl
  current := h'.current.trans h.current
  away hne := (h'.away (h.current.symm ▸ hne)).trans (h.away hne)

/-- Only what `f` makes of this terminal counts. -/
theorem congr (h : ActsOn term f c c') (hfg : f (c.tty term) = g (c.tty term)) :
    ActsOn term g c c' :=
  ⟨hfg ▸ h.tty, h.current, h.away⟩

theorem modify (term : Nat) (f : Tty → Tty) (c : Console) :
    ActsOn term f c (c.modify term f) := ⟨rfl, rfl, fun _ => rfl⟩

theorem render (h : term = c.currentTty) : ActsOn term id c (ttyRenderVga term c) where
  tty := (Function.update_eq_self term c.tty).symm
  current := rfl
  away hne := absurd h.symm hne

theorem renderIf (term : Nat) (c : Console) :
    ActsOn term id c (if term = c.currentTty then ttyRenderVga term c else c) := by
  split
  · rename_i h
    exact render h
  · exact refl term c

theorem moveCursor (term x y : Nat) (c : Console) : ActsOn term id c (vgaMoveCursor x y c) :=
  ⟨(Function.update_eq_self term c.tty).symm, rfl, fun _ => rfl⟩

theorem showCursor (term : Nat) (c : Console) : ActsOn term id c (ttyShowCursor term c) := by
  unfold ttyShowCursor
  split
  · exact moveCursor ..
  · exact refl term c

theorem putentryat (term : Nat) (ch color : UInt8) (x y : Nat) (c : Console) :
    ActsOn term (Tty.putentryat ch color x y) c (ttyPutentryat term ch color x y c) := by
  unfold ttyPutentryat
  dsimp only
  split
  · rename_i h
    exact ⟨rfl, rfl, fun hne => absurd h hne⟩
  · exact modify ..

end ActsOn

@[simp] theorem modify_tty (c : Console) (term : Nat) (f : Tty → Tty) :
    (c.modify term f).tty term = f (c.tty term) := Function.update_self ..

@[simp] theorem modify_currentTty (c : Console) (term : Nat) (f : Tty → Tty) :
    (c.modify term f).currentTty = c.currentTty := rfl

theorem ttyLineFeed_acts (term : Nat) (c : Console) :
    ActsOn term Tty.lineFeed c (ttyLineFeed term c) := by
  unfold ttyLineFeed
  dsimp only
  rw [modify_tty]
  have hnext := ActsOn.modify term Tty.nextRow c
  split
  · rename_i hrow
    refine (((hnext.trans (.modify _ Tty.scrollup _)).trans (.renderIf term _)).trans
      (.modify _ _ _)).congr ?_
    simp only [Function.comp_apply, id_eq, Tty.lineFeed]
    rw [if_pos hrow]
    rfl
  · rename_i hrow
    refine hnext.congr ?_
    simp only [Tty.lineFeed]
    rw [if_neg hrow]

theorem ttyPrintchar_acts (term : Nat) (ch : UInt8) (c : Console) :
    ActsOn term (Tty.printchar ch) c (ttyPrintchar term ch c) := by
  unfold ttyPrintchar
  dsimp only
  have hput := ActsOn.putentryat term ch (c.tty term).ttyColor (c.tty term).ttyColumn
    (c.tty term).ttyRow c
  have hcol := hput.trans (.modify term (fun s => { s with ttyColumn := add32 s.ttyColumn 1 }) _)
  refine ActsOn.trans (f := Tty.printchar ch) (g := id) ?_ (.showCursor term _)
  rw [modify_tty, hput.self]
  split
  · rename_i hwrap
    refine ((hcol.trans (.modify _ (fun s => { s with ttyColumn := 0 }) _)).trans
      (ttyLineFeed_acts _ _)).congr ?_
    simp only [Function.comp_apply, Tty.printchar]
    exact (if_pos hwrap).symm
  · rename_i hwrap
    refine hcol.congr ?_
    simp only [Function.comp_apply, Tty.printchar]
    exact (if_neg hwrap).symm

theorem ttyPutendl_acts (term : Nat) (c : Console) :
    ActsOn term Tty.putendl c (ttyPutendl term c) :=
  (((ttyLineFeed_acts term c).trans (.modify _ _ _)).trans (.showCursor term _)).congr rfl

theorem ttyBackspace_acts (term : Nat) (c : Console) :
    ActsOn term Tty.backspace c (ttyBackspace term c) := by
  unfold ttyBackspace
  dsimp only
  rw [modify_tty]
  exact (((ActsOn.modify term Tty.stepBack c).trans (.putentryat ..)).trans
    (.showCursor term _)).congr rfl

/-- **`tty_putchar`** on the terminal. -/
theorem ttyPutchar_acts (term : Nat) (ch : UInt8) (c : Console) :
    ActsOn term (Tty.putchar ch) c (ttyPutchar term ch c) := by
  unfold ttyPutchar
  split
  · rename_i h
    exact (ttyPrintchar_acts term ch c).congr (if_pos h).symm
  · rename_i h
    split
    · rename_i hnl
      refine (ttyPutendl_acts term c).congr ?_
      rw [Tty.putchar, if_neg h, if_pos hnl]
    · rename_i hnl
      split
      · rename_i hcr
        refine (ActsOn.modify term _ c).congr ?_
        rw [Tty.putchar, if_neg h, if_neg hnl, if_pos hcr]
      · rename_i hcr
        split
        · rename_i hbs
          refine (ttyBackspace_acts term c).congr ?_
          rw [Tty.putchar, if_neg h, if_neg hnl, if_neg hcr, if_pos hbs]
        · rename_i hbs
          refine (ActsOn.refl term c).congr ?_
          rw [Tty.putchar, if_neg h, if_neg hnl, if_neg hcr, if_neg hbs, id_eq]

theorem ttySetcolor_acts (term : Nat) (color : UInt8) (c : Console) :
    ActsOn term (fun s => { s with ttyColor := color }) c (ttySetcolor term color c) :=
  .modify ..

/-- **`tty_clear_screen`** on the terminal. -/
theorem ttyClearScreen_acts (term : Nat) (c : Console) :
    ActsOn term Tty.clearScreen c (ttyClearScreen term c) := by
  unfold ttyClearScreen
  dsimp only
  have hclear := ActsOn.modify term Tty.clearScreen c
  split
  · rename_i h
    exact (hclear.trans (.render h.symm)).trans (.moveCursor ..)
  · exact hclear

/-- **`tty_write`** on the terminal. -/
theorem ttyWrite_acts (term : Nat) (data : List UInt8) (c : Console) :
    ActsOn term (Tty.write data) c (ttyWrite term data c) := by
  induction data generalizing c with
  | nil => exact .refl term c
  | cons ch data ih => exact (ttyPutchar_acts term ch c).trans (ih _)

end Moonlight
