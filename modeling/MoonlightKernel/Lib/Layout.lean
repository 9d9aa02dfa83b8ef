import Mathlib.Data.List.Basic

/-!
# Laying a text out into lines

A text is laid out into lines of at most `w` characters: a new line starts after each newline, and
immediately after the `w`-th character of a line.  A window of height `h` shows the last `h` lines.

* `layout` — the lines of a text;
* `Page.push` — the lines after one more character;
* `lines_foldl_push` — pushing the characters one by one gives the layout;
* `glyph_put`, `glyph_feed`, `glyph_scroll` — what the window shows after a character is put at the
  end of the last line, and after a line is added.
-/

set_option autoImplicit false

namespace Sys.Layout

variable {α : Type*} [DecidableEq α]

/-- The lines of a text of which the current line begins with `cur`. -/
def layoutFrom (w : Nat) (nl : α) (cur : List α) : List α → List (List α)
  | [] => [cur]
  | c :: cs =>
    if c = nl then cur :: layoutFrom w nl [] cs
    else if cur.length + 1 = w then (cur ++ [c]) :: layoutFrom w nl [] cs
    else layoutFrom w nl (cur ++ [c]) cs

/-- The lines of a text. -/
def layout (w : Nat) (nl : α) (text : List α) : List (List α) := layoutFrom w nl [] text

/-- The lines that are complete, and the one that is being written. -/
structure Page (α : Type*) where
  done : List (List α)
  last : List α

def Page.lines (p : Page α) : List (List α) := p.done ++ [p.last]

/-- One more character. -/
def Page.push (w : Nat) (nl : α) (p : Page α) (c : α) : Page α :=
  if c = nl then ⟨p.lines, []⟩
  else if p.last.length + 1 = w then ⟨p.done ++ [p.last ++ [c]], []⟩
  else ⟨p.done, p.last ++ [c]⟩

omit [DecidableEq α] in
@[simp] theorem length_lines (p : Page α) : p.lines.length = p.done.length + 1 := by
  simp [Page.lines]

theorem foldl_push_lines (w : Nat) (nl : α) (cs : List α) (p : Page α) :
    (cs.foldl (Page.push w nl) p).lines = p.done ++ layoutFrom w nl p.last cs := by
  induction cs generalizing p with
  | nil => rfl
  | cons c cs ih =>
    rw [List.foldl_cons, ih, Page.push, layoutFrom]
    split
    · simp [Page.lines]
    split
    · simp
    · rfl

/-- **Pushing the characters one by one** gives the layout. -/
theorem lines_foldl_push (w : Nat) (nl : α) (cs : List α) :
    (cs.foldl (Page.push w nl) ⟨[], []⟩).lines = layout w nl cs :=
  foldl_push_lines w nl cs ⟨[], []⟩

/-! ## The window -/

omit [DecidableEq α]

/-- The last `h` lines. -/
def window (h : Nat) (lines : List (List α)) : List (List α) := lines.drop (lines.length - h)

/-- The character in row `y` and column `x` of the window. -/
def glyph (h : Nat) (blank : α) (lines : List (List α)) (y x : Nat) : α :=
  ((window h lines).getD y []).getD x blank

variable {h : Nat} {blank : α}

theorem glyph_eq (lines : List (List α)) (y x : Nat) :
    glyph h blank lines y x = (lines.getD (lines.length - h + y) []).getD x blank := by
  simp [glyph, window, List.getD_eq_getElem?_getD]

/-- Putting a character at the end of the last line changes one cell. -/
theorem glyph_put (done : List (List α)) (last : List α) (c : α) {row : Nat}
    (hrow : row + 1 = min (done.length + 1) h) (y x : Nat) :
    glyph h blank (done ++ [last ++ [c]]) y x =
      if y = row ∧ x = last.length then c else glyph h blank (done ++ [last]) y x := by
  simp only [glyph_eq, List.length_append, List.length_singleton, List.getD_eq_getElem?_getD]
  by_cases hy : y = row
  · -- the row of the last line
    have hlast : done.length + 1 - h + y = done.length := by omega
    rw [hlast, List.getElem?_append_right (Nat.le_refl _), List.getElem?_append_right (Nat.le_refl _),
      Nat.sub_self, List.getElem?_cons_zero, List.getElem?_cons_zero, Option.getD_some,
      Option.getD_some, List.getElem?_append]
    by_cases hlt : x < last.length
    · rw [if_pos hlt, if_neg (by omega)]
    · rw [if_neg hlt]
      by_cases hx : x = last.length
      · rw [if_pos ⟨hy, hx⟩, hx, Nat.sub_self]
        rfl
      · rw [if_neg (fun hc => hx hc.2), List.getElem?_eq_none (by simp; omega),
          List.getElem?_eq_none (by omega)]
  · rw [if_neg (fun hc => hy hc.1)]
    have hother : done.length + 1 - h + y ≠ done.length := by omega
    by_cases hlt : done.length + 1 - h + y < done.length
    · rw [List.getElem?_append_left hlt, List.getElem?_append_left hlt]
    · have hout (l : List α) : (done ++ [l])[done.length + 1 - h + y]? = none := by
        apply List.getElem?_eq_none
        rw [List.length_append, List.length_singleton]
        omega
      rw [hout, hout]

/-- An empty line below the others does not show while there is room. -/
theorem glyph_feed {lines : List (List α)} (hroom : lines.length < h) (y x : Nat) :
    glyph h blank (lines ++ [[]]) y x = glyph h blank lines y x := by
  simp only [glyph_eq, List.length_append, List.length_singleton, List.getD_eq_getElem?_getD]
  rw [Nat.sub_eq_zero_of_le (by omega), Nat.sub_eq_zero_of_le (by omega), Nat.zero_add]
  by_cases hlt : y < lines.length
  · rw [List.getElem?_append_left hlt]
  · have hnone : lines[y]? = none := List.getElem?_eq_none (by omega)
    rw [List.getElem?_append_right (by omega), hnone]
    by_cases hy : y - lines.length = 0
    · rw [hy]
      rfl
    · have hout : [([] : List α)][y - lines.length]? = none := by
        apply List.getElem?_eq_none
        rw [List.length_singleton]
        omega
      rw [hout]

/-- When there is none, the window moves down by a line. -/
theorem glyph_scroll {lines : List (List α)} (hfull : h ≤ lines.length) {y : Nat} (hy : y < h)
    (x : Nat) : glyph h blank (lines ++ [[]]) y x =
      if y + 1 = h then blank else glyph h blank lines (y + 1) x := by
  simp only [glyph_eq, List.length_append, List.length_singleton, List.getD_eq_getElem?_getD]
  have hnext : lines.length + 1 - h + y = lines.length - h + (y + 1) := by omega
  rw [hnext]
  split
  · have hlast : lines.length - h + (y + 1) = lines.length := by omega
    rw [hlast, List.getElem?_append_right (Nat.le_refl _), Nat.sub_self]
    rfl
  · rw [List.getElem?_append_left (by omega)]

end Sys.Layout
