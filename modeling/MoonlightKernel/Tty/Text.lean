import MoonlightKernel.Lib.Layout
import MoonlightKernel.Tty.Grid

/-!
# The screen shows the end of the text

* `Tty.Draws` — the screen shows the last rows of a list of lines, with the cursor in its last line;
* `Draws.putentryat`, `Draws.lineFeed` — a character at the end of the last line, a line more;
* `putchar_shows` — what one character does to a screen that shows a page;
* `screen_shows_text` — after `tty_clear_screen`, `tty_write` shows the layout of the text.
-/

set_option autoImplicit false

namespace Moonlight

open Sys

namespace Tty

/-- The screen shows the end of `lines`, and the cursor is in the row of the last one. -/
structure Draws (lines : List (List UInt8)) (s : Tty) : Prop where
  row : s.ttyRow + 1 = min lines.length VGA_HEIGHT
  cells : ∀ y < VGA_HEIGHT, ∀ x < VGA_WIDTH, s.screen.val (y * VGA_WIDTH + x) =
    vgaEntry (Layout.glyph VGA_HEIGHT 32 lines y x) s.ttyColor

/-- The screen shows the page, and the cursor is at its end. -/
structure Shows (p : Layout.Page UInt8) (s : Tty) : Prop where
  draws : s.Draws p.lines
  column : s.ttyColumn = p.last.length
  width : p.last.length < VGA_WIDTH

namespace Draws

variable {lines : List (List UInt8)} {s : Tty}

theorem of_column (h : s.Draws lines) (column : Nat) : Draws lines { s with ttyColumn := column } :=
  ⟨h.row, h.cells⟩

theorem row_lt (h : s.Draws lines) : s.ttyRow < VGA_HEIGHT := by
  have := h.row
  omega

/-- A character at the end of the last line. -/
theorem putentryat {done : List (List UInt8)} {last : List UInt8} (h : s.Draws (done ++ [last]))
    (hcol : s.ttyColumn = last.length) (hwidth : last.length < VGA_WIDTH) (ch : UInt8) :
    (s.putentryat ch s.ttyColor s.ttyColumn s.ttyRow).Draws (done ++ [last ++ [ch]]) where
  row := by
    have hrow := h.row
    rw [List.length_append, List.length_singleton] at hrow ⊢
    exact hrow
  cells y hy x hx := by
    have hrow := h.row
    rw [List.length_append, List.length_singleton] at hrow
    show (s.screen.store _ _).val _ = vgaEntry _ s.ttyColor
    rw [cellIndex_eq (hcol ▸ hwidth) h.row_lt, Cells.store_val, Layout.glyph_put done last ch hrow,
      h.cells y hy x hx]
    -- two cells of the grid with the same index are the same
    have hcell : y * VGA_WIDTH + x = s.ttyRow * VGA_WIDTH + s.ttyColumn ↔
        y = s.ttyRow ∧ x = last.length := by
      unfold VGA_WIDTH at *
      omega
    by_cases hat : y = s.ttyRow ∧ x = last.length
    · rw [if_pos (hcell.mpr hat), if_pos hat]
    · rw [if_neg (fun he => hat (hcell.mp he)), if_neg hat]

/-- A line more: on a full screen the rows scroll. -/
theorem lineFeed (h : s.Draws lines) : s.lineFeed.Draws (lines ++ [[]]) := by
  have hrow := h.row
  by_cases hroom : s.ttyRow + 1 < VGA_HEIGHT
  · rw [lineFeed_of_lt hroom]
    refine ⟨?_, fun y hy x hx => ?_⟩
    · rw [List.length_append, List.length_singleton]
      show s.ttyRow + 1 + 1 = _
      omega
    · rw [Layout.glyph_feed (by omega)]
      exact h.cells y hy x hx
  · have hlast : s.ttyRow + 1 = VGA_HEIGHT := by omega
    rw [lineFeed_of_last hlast]
    refine ⟨?_, fun y hy x hx => ?_⟩
    · rw [List.length_append, List.length_singleton]
      show s.ttyRow + 1 = _
      omega
    · show s.scrollup.screen.val _ = vgaEntry _ s.ttyColor
      rw [scrollup_val, Layout.glyph_scroll (by omega) hy]
      by_cases hbottom : y + 1 = VGA_HEIGHT
      · rw [if_pos hbottom]
        unfold CELLS VGA_HEIGHT VGA_WIDTH at *
        rw [if_neg (by omega), if_pos (by omega)]
      · have hup : y * VGA_WIDTH + x < VGA_WIDTH * (VGA_HEIGHT - 1) := by
          unfold VGA_HEIGHT VGA_WIDTH at *
          omega
        have hnext : VGA_WIDTH + (y * VGA_WIDTH + x) = (y + 1) * VGA_WIDTH + x := by
          rw [Nat.succ_mul]
          omega
        rw [if_pos hup, if_neg hbottom, hnext]
        refine h.cells (y + 1) ?_ x hx
        unfold VGA_HEIGHT at *
        omega

end Draws

/-- A cleared screen shows the empty text. -/
theorem clearScreen_shows (s : Tty) : s.clearScreen.Shows ⟨[], []⟩ where
  draws := by
    refine ⟨rfl, fun y hy x hx => ?_⟩
    show (fillRows (fun _ => vgaEntry 32 s.ttyColor) VGA_HEIGHT s.screen).val _ = _
    have hcell : y * VGA_WIDTH + x < VGA_HEIGHT * VGA_WIDTH := by
      unfold VGA_HEIGHT VGA_WIDTH at *
      omega
    rw [fillRows_val, if_pos hcell, Layout.glyph_eq]
    cases y <;> rfl
  column := rfl
  width := width_pos

theorem Shows.putendl {p : Layout.Page UInt8} {s : Tty} (h : s.Shows p) :
    s.putendl.Shows ⟨p.lines, []⟩ where
  draws := h.draws.lineFeed.of_column 0
  column := rfl
  width := width_pos

theorem Shows.printchar {p : Layout.Page UInt8} {s : Tty} (h : s.Shows p) (ch : UInt8) :
    (s.printchar ch).Shows (if p.last.length + 1 = VGA_WIDTH
      then ⟨p.done ++ [p.last ++ [ch]], []⟩ else ⟨p.done, p.last ++ [ch]⟩) := by
  have hput := h.draws.putentryat h.column h.width ch
  have hwidth := h.width
  rw [printchar_eq (h.column ▸ hwidth), h.column]
  rw [h.column] at hput
  split
  · exact ⟨(hput.of_column 0).lineFeed, lineFeed_ttyColumn _, width_pos⟩
  · rename_i hin
    refine ⟨hput.of_column _, ?_, ?_⟩
    · rw [List.length_append]
      rfl
    · rw [List.length_append, List.length_singleton]
      omega

/-- **One character** of the text. -/
theorem putchar_shows {p : Layout.Page UInt8} {s : Tty} (h : s.Shows p) {ch : UInt8}
    (hch : isprint (charToInt ch) = true ∨ ch = 10) :
    (s.putchar ch).Shows (p.push VGA_WIDTH 10 ch) := by
  unfold putchar Layout.Page.push
  by_cases hnl : ch = 10
  · rw [if_pos hnl, if_pos hnl, hnl, if_neg (by decide)]
    exact h.putendl
  · rw [if_pos (hch.resolve_right hnl), if_neg hnl]
    exact h.printchar ch

theorem write_shows {text : List UInt8}
    (htext : ∀ ch ∈ text, isprint (charToInt ch) = true ∨ ch = 10) {p : Layout.Page UInt8} {s : Tty}
    (h : s.Shows p) : (s.write text).Shows (text.foldl (Layout.Page.push VGA_WIDTH 10) p) := by
  induction text generalizing p s with
  | nil => exact h
  | cons ch text ih =>
    exact ih (fun c hc => htext c (List.mem_cons_of_mem _ hc))
      (putchar_shows h (htext ch List.mem_cons_self))

/-- The colour only changes by `tty_setcolor`. -/
theorem putchar_ttyColor (ch : UInt8) (s : Tty) : (s.putchar ch).ttyColor = s.ttyColor := by
  have hprint : (s.printchar ch).ttyColor = s.ttyColor := by
    unfold printchar
    dsimp only
    split
    · exact lineFeed_ttyColor _
    · rfl
  have hback : s.backspace.ttyColor = s.ttyColor := by
    unfold backspace stepBack
    dsimp only [putentryat]
    split <;> rfl
  unfold putchar
  split
  · exact hprint
  split
  · exact lineFeed_ttyColor s
  split
  · rfl
  split
  · exact hback
  · rfl

theorem write_ttyColor (text : List UInt8) (s : Tty) : (s.write text).ttyColor = s.ttyColor := by
  induction text generalizing s with
  | nil => rfl
  | cons ch text ih => exact (ih _).trans (putchar_ttyColor ch s)

end Tty

/-- **The screen shows the end of the text.**  After `tty_clear_screen` and the `tty_write` of
printable characters and newlines, the rows hold the last lines of the layout, blanks around them,
and the cursor is at the end of the last line. -/
theorem screen_shows_text (c : Console) (term : Nat) {text : List UInt8}
    (htext : ∀ ch ∈ text, isprint (charToInt ch) = true ∨ ch = 10) :
    let s := (ttyWrite term text (ttyClearScreen term c)).tty term
    let lines := Layout.layout VGA_WIDTH 10 text
    let shown := lines.drop (lines.length - VGA_HEIGHT)
    (∀ y < VGA_HEIGHT, ∀ x < VGA_WIDTH, s.screen.val (y * VGA_WIDTH + x) =
        vgaEntry ((shown.getD y []).getD x 32) (c.tty term).ttyColor) ∧
      s.ttyRow + 1 = min lines.length VGA_HEIGHT ∧
      s.ttyColumn = (lines.getLastD []).length := by
  have htty : (ttyWrite term text (ttyClearScreen term c)).tty term =
      (c.tty term).clearScreen.write text := by
    rw [(ttyWrite_acts term text _).self, (ttyClearScreen_acts term c).self]
  have hshows := Tty.write_shows htext (Tty.clearScreen_shows (c.tty term))
  have hlines := Layout.lines_foldl_push VGA_WIDTH 10 text
  intro s lines shown
  have hs : s = (c.tty term).clearScreen.write text := htty
  have hcolor : s.ttyColor = (c.tty term).ttyColor := by
    rw [hs, Tty.write_ttyColor]
    rfl
  rw [← hs] at hshows
  refine ⟨fun y hy x hx => ?_, ?_, ?_⟩
  · rw [hshows.draws.cells y hy x hx, hcolor, hlines]
    rfl
  · rw [hshows.draws.row, hlines]
  · rw [hshows.column]
    show _ = (List.getLastD (Layout.layout VGA_WIDTH 10 text) []).length
    rw [← hlines, Layout.Page.lines, List.getLastD_concat]

/-- Two lines. -/
theorem screen_shows_two_lines :
    ((ttyWrite 0 [72, 105, 10, 33] (ttyClearScreen 0 Console.zeroed)).tty 0).ttyRow = 1 ∧
      ((ttyWrite 0 [72, 105, 10, 33] (ttyClearScreen 0 Console.zeroed)).tty 0).ttyColumn = 1 := by
  obtain ⟨-, hrow, hcol⟩ :=
    @screen_shows_text Console.zeroed 0 [72, 105, 10, 33] (by decide +kernel)
  have hlines : Layout.layout VGA_WIDTH 10 [(72 : UInt8), 105, 10, 33] = [[72, 105], [33]] := by
    decide +kernel
  rw [hlines] at hrow hcol
  exact ⟨Nat.succ.inj hrow, hcol⟩

end Moonlight
