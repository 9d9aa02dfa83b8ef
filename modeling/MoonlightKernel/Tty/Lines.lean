import Mathlib.Data.List.Induction
import MoonlightKernel.Io.Pipe
import MoonlightKernel.Tty.Grid

/-!
# Typed lines: `kernel/tty/tty_input.c`

The keyboard interrupt feeds `tty_input_char`, which edits a line of at most 126 bytes and hands it
to the input stream of the terminal with its newline.  `getc` and other `stream_read` calls take the
bytes out again.

* `Edit.key` — the line editor: a backspace drops the last byte, a newline ends the line;
* `ttyInputChar_spec` — `tty_input_char` is that editor, and writes a line when it ends;
* `lineStep` — the keys and the steps of the reader, interleaved freely;
* `typed_lines_whole` — while every line finds room for all of it or for none, what was placed in the
  stream is a concatenation of edited lines;
* `partial_line_joined` — a line that finds room for a part loses its end.
-/

set_option autoImplicit false

namespace Moonlight

open Sys

/-! ## `tty_input_char` -/

/-- `input_raw_c--`. -/
def Tty.dropRaw (s : Tty) : Tty := { s with inputRawC := s.inputRawC - 1 }

/-- The key is stored in `input_raw`. -/
def Tty.pushRaw (key : UInt8) (s : Tty) : Tty :=
  { s with inputRaw := Function.update s.inputRaw s.inputRawC key, inputRawC := s.inputRawC + 1 }

/-- `tty_input_char`.  Besides the terminals, it gives the bytes that its `stream_write` stored with
the result, which the source ignores. -/
def ttyInputChar (term : Nat) (key : UInt8) (c : Console) : Console × List (List UInt8 × Int) :=
  if key = 0 then (c, [])
  else if key = 8 then
    if 0 < (c.tty term).inputRawC then (ttyPutchar term key (c.modify term Tty.dropRaw), [])
    else (c, [])
  else if (c.tty term).inputRawC < STREAM_BUFF - 2 ∨
      ((c.tty term).inputRawC < STREAM_BUFF - 1 ∧ key = 10) then
    let c := ttyPutchar term key (c.modify term (Tty.pushRaw key))
    if key = 10 then
      let s := c.tty term
      let r := streamWrite s.input s.inputRaw s.inputRawC
      (c.modify term fun s => { s with input := r.2, inputRawC := 0 },
        [(bytesFrom s.inputRaw 0 r.1.toNat, r.1)])
    else (c, [])
  else (c, [])

/-! ## The line editor -/

/-- The lines that were ended, and the one that is being edited. -/
structure Edit where
  lines : List (List UInt8)
  cur : List UInt8

/-- One key. -/
def Edit.key (e : Edit) (key : UInt8) : Edit :=
  if key = 0 then e
  else if key = 8 then { e with cur := e.cur.dropLast }
  else if key = 10 then ⟨e.lines ++ [e.cur ++ [10]], []⟩
  else if e.cur.length < STREAM_BUFF - 2 then { e with cur := e.cur ++ [key] }
  else e

/-- The edited lines of a sequence of keys, each with its newline. -/
def edited (keys : List UInt8) : Edit := keys.foldl Edit.key ⟨[], []⟩

/-- Each line ends in a newline and has no other. -/
structure Edit.Ok (e : Edit) : Prop where
  lines : ∀ l ∈ e.lines, ∃ body, l = body ++ [10] ∧ (10 : UInt8) ∉ body
  cur : (10 : UInt8) ∉ e.cur
  le : e.cur.length ≤ STREAM_BUFF - 2

theorem Edit.Ok.key {e : Edit} (h : e.Ok) (key : UInt8) : (e.key key).Ok := by
  unfold Edit.key
  split
  · exact h
  split
  · refine ⟨h.lines, fun hmem => h.cur (List.dropLast_subset _ hmem), ?_⟩
    rw [List.length_dropLast]
    exact Nat.le_trans (Nat.sub_le _ _) h.le
  split
  · refine ⟨fun l hl => ?_, List.not_mem_nil, Nat.zero_le _⟩
    rw [List.mem_append, List.mem_singleton] at hl
    rcases hl with hl | rfl
    · exact h.lines l hl
    · exact ⟨e.cur, rfl, h.cur⟩
  split
  · rename_i hnl hroom
    refine ⟨h.lines, fun hmem => ?_, ?_⟩
    · rw [List.mem_append, List.mem_singleton] at hmem
      exact hmem.elim h.cur fun he => hnl he.symm
    · rw [List.length_append, List.length_singleton]
      exact hroom
  · exact h

theorem Edit.key_lines {key : UInt8} (hkey : key ≠ 10) (e : Edit) : (e.key key).lines = e.lines := by
  unfold Edit.key
  rw [if_neg hkey]
  split
  · rfl
  split
  · rfl
  split <;> rfl

theorem Edit.key_newline (e : Edit) : e.key 10 = ⟨e.lines ++ [e.cur ++ [10]], []⟩ := rfl

theorem edited_concat (keys : List UInt8) (key : UInt8) :
    edited (keys ++ [key]) = (edited keys).key key := List.foldl_concat ..

theorem edited_ok (keys : List UInt8) : (edited keys).Ok := by
  induction keys using List.reverseRecOn with
  | nil =>
    refine ⟨fun l hl => ?_, List.not_mem_nil, Nat.zero_le _⟩
    cases hl
  | append_singleton keys key ih =>
    rw [edited_concat]
    exact ih.key key

/-! ## The raw line of the terminal -/

namespace Tty

/-- The line in `input_raw`. -/
structure Raw (cur : List UInt8) (s : Tty) : Prop where
  count : s.inputRawC = cur.length
  bytes : bytesFrom s.inputRaw 0 cur.length = cur

/-- What the keyboard uses of a terminal. -/
def keyboard (s : Tty) : (Nat → UInt8) × Nat × Stream := (s.inputRaw, s.inputRawC, s.input)

theorem lineFeed_keyboard (s : Tty) : s.lineFeed.keyboard = s.keyboard := by
  have hnext : s.nextRow.keyboard = s.keyboard := by
    unfold nextRow
    split <;> simp only [keyboard]
  unfold lineFeed
  dsimp only
  split
  · refine Eq.trans ?_ hnext
    simp only [keyboard, scrollup]
  · exact hnext

theorem printchar_keyboard (ch : UInt8) (s : Tty) : (s.printchar ch).keyboard = s.keyboard := by
  unfold printchar
  dsimp only
  split
  · refine Eq.trans (lineFeed_keyboard _) ?_
    simp only [keyboard, putentryat]
  · simp only [keyboard, putentryat]

theorem putendl_keyboard (s : Tty) : s.putendl.keyboard = s.keyboard := by
  refine Eq.trans ?_ (lineFeed_keyboard s)
  simp only [keyboard, putendl]

theorem backspace_keyboard (s : Tty) : s.backspace.keyboard = s.keyboard := by
  have hback : s.stepBack.keyboard = s.keyboard := by
    unfold stepBack
    split <;> simp only [keyboard]
  refine Eq.trans ?_ hback
  simp only [keyboard, backspace, putentryat]

/-- `tty_putchar` does not touch the input. -/
theorem putchar_keyboard (ch : UInt8) (s : Tty) : (s.putchar ch).keyboard = s.keyboard := by
  unfold putchar
  split
  · exact printchar_keyboard ch s
  split
  · exact putendl_keyboard s
  split
  · simp only [keyboard]
  split
  · exact backspace_keyboard s
  · rfl

theorem Raw.of_keyboard {cur : List UInt8} {s s' : Tty} (h : s.Raw cur)
    (he : s'.keyboard = s.keyboard) : s'.Raw cur ∧ s'.input = s.input := by
  obtain ⟨hraw, hcount, hinput⟩ := Prod.mk.inj he |>.imp_right Prod.mk.inj
  exact ⟨⟨hcount.trans h.count, hraw ▸ h.bytes⟩, hinput⟩

theorem Raw.drop {cur : List UInt8} {s : Tty} (h : s.Raw cur) : s.dropRaw.Raw cur.dropLast where
  count := by
    rw [List.length_dropLast]
    exact congrArg (· - 1) h.count
  bytes := by
    have htake := bytesFrom_take s.inputRaw 0 (Nat.sub_le cur.length 1)
    rw [h.bytes, ← List.dropLast_eq_take] at htake
    rw [List.length_dropLast]
    exact htake.symm

theorem Raw.push {cur : List UInt8} {s : Tty} (h : s.Raw cur) (key : UInt8) :
    (s.pushRaw key).Raw (cur ++ [key]) where
  count := by
    rw [List.length_append, List.length_singleton]
    exact congrArg (· + 1) h.count
  bytes := by
    have hold : bytesFrom (Function.update s.inputRaw s.inputRawC key) 0 cur.length = cur := by
      refine Eq.trans (bytesFrom_congr fun i hi => ?_) h.bytes
      exact Function.update_of_ne (by rw [h.count]; omega) ..
    rw [List.length_append, List.length_singleton, bytesFrom_concat]
    show bytesFrom (Function.update s.inputRaw s.inputRawC key) 0 cur.length ++ _ = _
    rw [hold, Nat.zero_add, ← h.count]
    exact congrArg (cur ++ [·]) (Function.update_self ..)

theorem Raw.empty {s : Tty} (h : s.inputRawC = 0) : s.Raw [] := ⟨h, rfl⟩

end Tty

/-! ## What `tty_input_char` does -/

theorem ttyPutchar_keyboard (term : Nat) (ch : UInt8) (f : Tty → Tty) (c : Console) :
    ((ttyPutchar term ch (c.modify term f)).tty term).keyboard = (f (c.tty term)).keyboard := by
  rw [(ttyPutchar_acts term ch _).self, modify_tty, Tty.putchar_keyboard]

/-- **A key that is no newline** edits the line and leaves the stream alone. -/
theorem ttyInputChar_of_ne {term : Nat} {key : UInt8} (hkey : key ≠ 10) {c : Console} {e : Edit}
    (h : (c.tty term).Raw e.cur) :
    (ttyInputChar term key c).2 = [] ∧
      ((ttyInputChar term key c).1.tty term).Raw (e.key key).cur ∧
      ((ttyInputChar term key c).1.tty term).input = (c.tty term).input := by
  unfold ttyInputChar Edit.key
  by_cases h0 : key = 0
  · rw [if_pos h0, if_pos h0]
    exact ⟨rfl, h, rfl⟩
  rw [if_neg h0, if_neg h0]
  by_cases h8 : key = 8
  · rw [if_pos h8, if_pos h8, h.count]
    split
    · exact ⟨rfl, h.drop.of_keyboard (ttyPutchar_keyboard ..)⟩
    · rename_i hempty
      have hnil : e.cur = [] := List.eq_nil_of_length_eq_zero (by omega)
      refine ⟨rfl, ?_, rfl⟩
      dsimp only
      rw [hnil] at h ⊢
      exact h
  rw [if_neg h8, if_neg h8, h.count]
  by_cases hroom : e.cur.length < STREAM_BUFF - 2
  · rw [if_pos (.inl hroom), if_neg hkey, if_neg hkey, if_pos hroom]
    exact ⟨rfl, (h.push key).of_keyboard (ttyPutchar_keyboard ..)⟩
  · rw [if_neg (fun hor => hor.elim hroom fun hnl => hkey hnl.2), if_neg hkey, if_neg hroom]
    exact ⟨rfl, h, rfl⟩

/-- **A newline** ends the line and writes it to the stream, as far as there is room. -/
theorem ttyInputChar_newline {term : Nat} {c : Console} {e : Edit} (he : e.Ok)
    (h : (c.tty term).Raw e.cur) (hok : (c.tty term).input.Ok) :
    ∃ data, bytesFrom data 0 (e.cur.length + 1) = e.cur ++ [10] ∧
      (ttyInputChar term 10 c).2 =
        [(bytesFrom data 0 (min (e.cur.length + 1)
            (STREAM_BUFF - 1 - (c.tty term).input.contents.length)),
          (streamWrite (c.tty term).input data (e.cur.length + 1)).1)] ∧
      ((ttyInputChar term 10 c).1.tty term).Raw [] ∧
      ((ttyInputChar term 10 c).1.tty term).input =
        (streamWrite (c.tty term).input data (e.cur.length + 1)).2 := by
  have hle := he.le
  obtain ⟨hraw, hinput⟩ := (h.push 10).of_keyboard (ttyPutchar_keyboard term 10 (Tty.pushRaw 10) c)
  have hcount := hraw.count
  have hbytes := hraw.bytes
  rw [List.length_append, List.length_singleton] at hcount hbytes
  refine ⟨_, hbytes, ?_⟩
  have hroom : (c.tty term).inputRawC < STREAM_BUFF - 2 ∨
      ((c.tty term).inputRawC < STREAM_BUFF - 1 ∧ (10 : UInt8) = 10) := by
    rw [h.count]
    unfold STREAM_BUFF at hle ⊢
    exact .inr ⟨by omega, rfl⟩
  have hdef : ttyInputChar term 10 c = _ :=
    (if_neg (by decide)).trans ((if_neg (by decide)).trans ((if_pos hroom).trans (if_pos rfl)))
  obtain ⟨s', -, hwrite, -⟩ := streamWrite_spec hok
    ((ttyPutchar term 10 (c.modify term (Tty.pushRaw 10))).tty term).inputRaw
    (show e.cur.length + 1 < 2 ^ 32 by unfold STREAM_BUFF at hle; omega)
  have hpushed : (Tty.pushRaw 10 (c.tty term)).input = (c.tty term).input := rfl
  rw [hdef]
  dsimp only
  rw [hinput, hcount, hpushed, hwrite, modify_tty]
  refine ⟨?_, Tty.Raw.empty rfl, rfl⟩
  have hsmall : min (e.cur.length + 1) (STREAM_BUFF - 1 - (c.tty term).input.contents.length) < 2 ^ 31 := by
    unfold STREAM_BUFF at hle ⊢
    omega
  rw [toLong_of_lt hsmall, Int.toNat_natCast]

/-! ## The keys and the reader -/

/-- The terminals, the `stream_read` call under way on the input of one of them, the calls that
returned, the `stream_write` calls of the keyboard, and the keys typed so far. -/
structure Typing where
  console : Console
  reader : Option Reader
  reads : List (List UInt8 × Int)
  writes : List (List UInt8 × Int)
  keys : List UInt8

/-- Nothing was typed or read yet. -/
def Typing.start (c : Console) : Typing := ⟨c, none, [], [], []⟩

/-- The input stream with its reader and its writer, the keyboard. -/
def Typing.pipe (term : Nat) (s : Typing) : Pipe :=
  ⟨(s.console.tty term).input, s.reader, none, s.reads, s.writes⟩

/-- The bytes ever placed in the stream. -/
def Typing.placed (s : Typing) : List UInt8 := s.writes.flatMap Prod.fst

/-- The steps of a reader; `getc` is a call of size 1. -/
def PipeOp.IsRead : PipeOp → Prop
  | .readCall _ | .readByte | .readNext | .readReturn _ => True
  | _ => False

inductive LineOp where
  | key (key : UInt8)
  | read (op : PipeOp)

/-- A key, or a step of the reader. -/
def lineStep (term : Nat) (s : Typing) : LineOp → Typing → Prop
  | .key key, s' =>
      let r := ttyInputChar term key s.console
      s' = { s with console := r.1, writes := s.writes ++ r.2, keys := s.keys ++ [key] }
  | .read op, s' => op.IsRead ∧ ∃ p, pipeStep (s.pipe term) op p ∧
      s' = { s with
        console := s.console.modify term fun t => { t with input := p.stream }
        reader := p.reader
        reads := p.reads }

/-- A newline finds room in the stream for the whole line, or for none of it. -/
def LineOp.Fits (term : Nat) (s : Typing) : LineOp → Prop
  | .key k => k = 10 →
      (s.console.tty term).inputRawC + 1 ≤ 127 - streamToread (s.console.tty term).input ∨
        streamToread (s.console.tty term).input = 127
  | .read _ => True

/-- A step of the reader moves the input stream alone. -/
theorem PipeOp.IsRead.writes {op : PipeOp} (hread : op.IsRead) {p p' : Pipe}
    (h : pipeStep p op p') : p'.writer = p.writer ∧ p'.writes = p.writes := by
  cases op with
  | readCall size =>
    obtain ⟨-, -, rfl⟩ := h
    exact ⟨rfl, rfl⟩
  | readByte =>
    obtain ⟨r, -, -, -, rfl⟩ := h
    exact ⟨rfl, rfl⟩
  | readNext =>
    obtain ⟨r, -, -, rfl⟩ := h
    exact ⟨rfl, rfl⟩
  | readReturn ret =>
    obtain ⟨r, -, -, -, -, rfl⟩ := h
    exact ⟨rfl, rfl⟩
  | writeCall => exact hread.elim
  | writeByte => exact hread.elim
  | writeNext => exact hread.elim
  | writeReturn => exact hread.elim

/-! ## The invariant -/

/-- The terminal holds the line being edited, and its stream is a pipe that holds the ends of what
was placed in it. -/
structure Typing.Ok (term : Nat) (first : List UInt8) (s : Typing) : Prop where
  raw : (s.console.tty term).Raw (edited s.keys).cur
  pipe : (s.pipe term).Inv first

/-- What was placed is made of edited lines, each whole, in order. -/
def Typing.Whole (s : Typing) : Prop :=
  ∃ lines : List (List UInt8), lines.Sublist (edited s.keys).lines ∧ s.placed = lines.flatten

theorem lineStep_read {term : Nat} {first : List UInt8} {s s' : Typing} {op : PipeOp}
    (h : s.Ok term first) (hstep : lineStep term s (.read op) s') :
    s'.Ok term first ∧ s'.writes = s.writes ∧ s'.keys = s.keys := by
  obtain ⟨hread, p, hp, rfl⟩ := hstep
  obtain ⟨hwriter, hwrites⟩ := hread.writes hp
  have hpipe : Typing.pipe term { s with
      console := s.console.modify term fun t => { t with input := p.stream }
      reader := p.reader
      reads := p.reads } = p := by
    obtain ⟨stream, reader, writer, reads, writes⟩ := p
    dsimp only at hwriter hwrites
    rw [hwriter, hwrites]
    simp [Typing.pipe]
  refine ⟨⟨?_, ?_⟩, rfl, rfl⟩
  · dsimp only
    rw [modify_tty]
    exact ⟨h.raw.count, h.raw.bytes⟩
  · rw [hpipe]
    exact pipeStep_inv _ op p h.pipe hp

/-- A key that is no newline goes to the raw line. -/
theorem lineStep_key_of_ne {term : Nat} {first : List UInt8} {s s' : Typing} {key : UInt8}
    (hkey : key ≠ 10) (h : s.Ok term first) (hstep : lineStep term s (.key key) s') :
    s'.Ok term first ∧ s'.pipe term = s.pipe term ∧ s'.writes = s.writes ∧
      s'.keys = s.keys ++ [key] := by
  obtain ⟨hwrites, hraw, hinput⟩ := ttyInputChar_of_ne hkey h.raw
  have hs' : s' = { s with
      console := (ttyInputChar term key s.console).1
      writes := s.writes ++ (ttyInputChar term key s.console).2
      keys := s.keys ++ [key] } := hstep
  rw [hwrites, List.append_nil] at hs'
  rw [hs']
  have hpipe : Typing.pipe term { s with
      console := (ttyInputChar term key s.console).1
      keys := s.keys ++ [key] } = s.pipe term := by
    unfold Typing.pipe
    dsimp only
    rw [hinput]
  refine ⟨⟨?_, ?_⟩, hpipe, rfl, rfl⟩
  · rw [edited_concat]
    exact hraw
  · rw [hpipe]
    exact h.pipe

/-- A newline hands the line to the stream, which takes what it has room for. -/
theorem lineStep_newline {term : Nat} {first : List UInt8} {s s' : Typing} (h : s.Ok term first)
    (hstep : lineStep term s (.key 10) s') :
    s'.Ok term first ∧ s'.keys = s.keys ++ [10] ∧ s'.reader = s.reader ∧ s'.reads = s.reads ∧
      s'.placed = s.placed ++ ((edited s.keys).cur ++ [10]).take
        (127 - streamToread (s.console.tty term).input) := by
  have hok : (s.console.tty term).input.Ok := h.pipe.ok
  have he := edited_ok s.keys
  obtain ⟨data, hbytes, hwrites, hraw, hinput⟩ := ttyInputChar_newline he h.raw hok
  have hsize : (edited s.keys).cur.length + 1 < 2 ^ 32 := by
    have := he.le
    unfold STREAM_BUFF at this
    omega
  obtain ⟨ops, hrun⟩ := streamWrite_run (p := s.pipe term) hok rfl data hsize
  have hs' : s' = { s with
      console := (ttyInputChar term 10 s.console).1
      writes := s.writes ++ (ttyInputChar term 10 s.console).2
      keys := s.keys ++ [10] } := hstep
  rw [hs']
  refine ⟨⟨?_, ?_⟩, rfl, rfl, rfl, ?_⟩
  · rw [edited_concat, Edit.key_newline]
    exact hraw
  · -- the write is a run of the writer of the pipe
    have hinv := hrun.invariant (Pipe.Inv first) pipeStep_inv h.pipe
    unfold Typing.pipe at hinv ⊢
    dsimp only at hinv ⊢
    rw [hinput, hwrites]
    exact hinv
  · unfold Typing.placed
    dsimp only
    rw [hwrites, List.flatMap_append, List.flatMap_singleton, hok.toread, ← hbytes]
    refine congrArg _ ?_
    have hmin : min ((edited s.keys).cur.length + 1)
        (STREAM_BUFF - 1 - (s.console.tty term).input.contents.length) ≤
        (edited s.keys).cur.length + 1 := Nat.min_le_left _ _
    rw [← bytesFrom_take data 0 hmin]
    -- taking more than there is takes everything
    rw [List.take_eq_take_iff, length_bytesFrom]
    unfold STREAM_BUFF
    omega

/-! ## Runs -/

/-- A step at which a line finds room for all of it or for none. -/
def lineStepIn (term : Nat) (s : Typing) (op : LineOp) (s' : Typing) : Prop :=
  lineStep term s op s' ∧ op.Fits term s

/-- **One step** keeps the lines whole. -/
theorem lineStep_whole {term : Nat} {first : List UInt8} (s : Typing) (op : LineOp) (s' : Typing)
    (h : s.Ok term first ∧ s.Whole) (hstep : lineStepIn term s op s') :
    s'.Ok term first ∧ s'.Whole := by
  obtain ⟨hok, lines, hsub, hplaced⟩ := h
  obtain ⟨hstep, hfits⟩ := hstep
  cases op with
  | read op =>
    obtain ⟨hok', hwrites, hkeys⟩ := lineStep_read hok hstep
    refine ⟨hok', lines, hkeys ▸ hsub, ?_⟩
    rw [Typing.placed, hwrites]
    exact hplaced
  | key k =>
    by_cases hk : k = 10
    · subst hk
      obtain ⟨hok', hkeys, -, -, hplaced'⟩ := lineStep_newline hok hstep
      refine ⟨hok', ?_⟩
      unfold Typing.Whole
      rw [hkeys, edited_concat, Edit.key_newline, hplaced', hplaced]
      rcases hfits rfl with hroom | hfull
      · refine ⟨lines ++ [(edited s.keys).cur ++ [10]], hsub.append (List.Sublist.refl _), ?_⟩
        have hlen : ((edited s.keys).cur ++ [10]).length ≤
            127 - streamToread (s.console.tty term).input := by
          rw [List.length_append, List.length_singleton, ← hok.raw.count]
          exact hroom
        rw [List.take_of_length_le hlen, List.flatten_append, List.flatten_singleton]
      · refine ⟨lines, List.sublist_append_of_sublist_left hsub, ?_⟩
        rw [hfull, Nat.sub_self, List.take_zero, List.append_nil]
    · obtain ⟨hok', -, hwrites, hkeys⟩ := lineStep_key_of_ne hk hok hstep
      refine ⟨hok', lines, ?_, ?_⟩
      · rw [hkeys, edited_concat, Edit.key_lines hk]
        exact hsub
      · rw [Typing.placed, hwrites]
        exact hplaced

theorem Typing.start_ok {term : Nat} {c : Console} (hraw : (c.tty term).inputRawC = 0)
    (hin : (c.tty term).input.Ok) :
    (Typing.start c).Ok term (c.tty term).input.contents ∧ (Typing.start c).Whole :=
  ⟨⟨Tty.Raw.empty hraw, Pipe.Inv.init hin⟩, [], List.Sublist.refl _, rfl⟩

/-- **Typed lines arrive whole.**  In every run of keys and reads in which each line finds room for
all of it or for none, the bytes placed in the stream are edited lines one after the other, each
with its newline at the end and no other. -/
theorem typed_lines_whole {term : Nat} {c : Console} (hraw : (c.tty term).inputRawC = 0)
    (hin : (c.tty term).input.Ok) {ops : List LineOp} {s : Typing}
    (run : Run (lineStepIn term) (Typing.start c) ops s) :
    (∃ lines : List (List UInt8), lines.Sublist (edited s.keys).lines ∧ s.placed = lines.flatten ∧
        ∀ l ∈ lines, ∃ body, l = body ++ [10] ∧ (10 : UInt8) ∉ body) ∧
      (s.pipe term).got <+: (c.tty term).input.contents ++ s.placed := by
  obtain ⟨hok, lines, hsub, hplaced⟩ :=
    run.invariant (fun s => s.Ok term (c.tty term).input.contents ∧ s.Whole) lineStep_whole
      (Typing.start_ok hraw hin)
  refine ⟨⟨lines, hsub, hplaced, fun l hl => (edited_ok s.keys).lines l (hsub.subset hl)⟩, ?_⟩
  have hpre := hok.pipe.prefix_le.1
  rw [Pipe.accepted_idle rfl] at hpre
  exact hpre

/-! ## A line that finds room for a part -/

theorem Edit.key_plain {e : Edit} {key : UInt8} (h0 : key ≠ 0) (h8 : key ≠ 8) (h10 : key ≠ 10)
    (hroom : e.cur.length < 126) : e.key key = { e with cur := e.cur ++ [key] } := by
  rw [Edit.key, if_neg h0, if_neg h8, if_neg h10]
  exact if_pos hroom

/-- Plain keys are added to the line. -/
theorem Typing.Ok.type {term : Nat} {first : List UInt8} {key : UInt8} (h0 : key ≠ 0) (h8 : key ≠ 8)
    (h10 : key ≠ 10) (n : Nat) {s : Typing} (h : s.Ok term first)
    (hroom : (edited s.keys).cur.length + n ≤ 126) :
    ∃ s', Run (lineStepIn term) s (List.replicate n (.key key)) s' ∧ s'.Ok term first ∧
      s'.pipe term = s.pipe term ∧
      edited s'.keys = ⟨(edited s.keys).lines, (edited s.keys).cur ++ List.replicate n key⟩ := by
  induction n generalizing s with
  | zero =>
    refine ⟨s, .nil s, h, rfl, ?_⟩
    rw [List.replicate_zero, List.append_nil]
  | succ n ih =>
    obtain ⟨s₁, hstep⟩ : ∃ s₁, lineStep term s (.key key) s₁ := ⟨_, rfl⟩
    obtain ⟨hok, hpipe, -, hkeys⟩ := lineStep_key_of_ne h10 h hstep
    have hedit : edited s₁.keys = ⟨(edited s.keys).lines, (edited s.keys).cur ++ [key]⟩ := by
      rw [hkeys, edited_concat, Edit.key_plain h0 h8 h10 (by omega)]
    obtain ⟨s₂, hrun, hok₂, hpipe₂, hedit₂⟩ := ih hok (by
      rw [hedit, List.length_append, List.length_singleton]
      omega)
    refine ⟨s₂, .cons ⟨hstep, fun hnl => absurd hnl h10⟩ hrun, hok₂, hpipe₂.trans hpipe, ?_⟩
    rw [hedit₂, hedit, List.append_assoc, List.replicate_succ, List.singleton_append]

/-- Nobody reads, and no line is begun. -/
structure Typing.Idle (s : Typing) : Prop where
  reader : s.reader = none
  reads : s.reads = []
  cur : (edited s.keys).cur = []

/-- While nobody reads, the stream holds all that was placed. -/
theorem Typing.Ok.toread {term : Nat} {first : List UInt8} {s : Typing} (h : s.Ok term first)
    (hreader : s.reader = none) (hreads : s.reads = []) :
    streamToread (s.console.tty term).input = (first ++ s.placed).length := by
  have hrest : (s.pipe term).AtRest := by
    refine ⟨fun r hr => ?_, fun w hw => nomatch hw⟩
    rw [Typing.pipe, hreader] at hr
    cases hr
  have hflow := h.pipe.flow_at_rest hrest
  rw [Pipe.accepted_idle rfl, Pipe.got_idle hreader] at hflow
  have hok : (s.console.tty term).input.Ok := h.pipe.ok
  rw [hok.toread]
  unfold Typing.pipe at hflow
  dsimp only at hflow
  rw [hreads, List.flatMap_nil, List.nil_append] at hflow
  exact congrArg List.length hflow.symm

/-- A line of `n` equal keys, with its newline. -/
theorem Typing.Ok.typeLine {term : Nat} {first : List UInt8} {key : UInt8} (h0 : key ≠ 0)
    (h8 : key ≠ 8) (h10 : key ≠ 10) {n : Nat} (hn : n ≤ 126) {s : Typing} (h : s.Ok term first)
    (hidle : s.Idle) :
    ∃ s', Run (lineStep term) s (List.replicate n (.key key) ++ [.key 10]) s' ∧
      (n + 1 ≤ 127 - (first ++ s.placed).length →
        Run (lineStepIn term) s (List.replicate n (.key key) ++ [.key 10]) s') ∧
      s'.Ok term first ∧ s'.Idle ∧
      s'.placed = s.placed ++ (List.replicate n key ++ [10]).take (127 - (first ++ s.placed).length) := by
  obtain ⟨s₁, hrun, hok, hpipe, hedit⟩ := h.type h0 h8 h10 n (by
    rw [hidle.cur, List.length_nil]
    omega)
  obtain ⟨s₂, hstep⟩ : ∃ s₂, lineStep term s₁ (.key 10) s₂ := ⟨_, rfl⟩
  obtain ⟨hok₂, hkeys, hreader, hreads, hplaced⟩ := lineStep_newline hok hstep
  have hreader₁ : s₁.reader = none := (congrArg Pipe.reader hpipe).trans hidle.reader
  have hreads₁ : s₁.reads = [] := (congrArg Pipe.reads hpipe).trans hidle.reads
  have hwrites : s₁.placed = s.placed := congrArg (fun p => p.writes.flatMap Prod.fst) hpipe
  have hread := hok.toread hreader₁ hreads₁
  rw [hread, hwrites, hedit, hidle.cur, List.nil_append] at hplaced
  refine ⟨s₂, ?_, fun hfits => ?_, hok₂, ⟨hreader.trans hreader₁, hreads.trans hreads₁, ?_⟩, hplaced⟩
  · exact (hrun.imp fun _ _ _ => And.left).append (.single hstep)
  · refine hrun.append (.single ⟨hstep, fun _ => .inl ?_⟩)
    rw [hok.raw.count, hedit, hread, hwrites, hidle.cur]
    simpa using hfits
  · rw [hkeys, edited_concat, Edit.key_newline]

/-- The terminals at boot. -/
theorem initTty_input : ((initTty Console.zeroed).tty 0).inputRawC = 0 ∧
    ((initTty Console.zeroed).tty 0).input.Ok ∧
    ((initTty Console.zeroed).tty 0).input.contents = [] := by
  rw [initTty, initLoop_tty, if_pos (by decide)]
  exact ⟨rfl, ⟨by decide, by decide⟩, rfl⟩

theorem Typing.start_idle (c : Console) : (Typing.start c).Idle := ⟨rfl, rfl, rfl⟩

/-- A line of one letter finds room in an empty stream. -/
theorem typed_lines_whole_one : ∃ ops s,
    Run (lineStepIn 0) (Typing.start (initTty Console.zeroed)) ops s ∧ s.placed = [97, 10] ∧
      ∃ lines : List (List UInt8), lines.Sublist (edited s.keys).lines ∧ s.placed = lines.flatten := by
  obtain ⟨hraw, hin, hempty⟩ := initTty_input
  have hok := (Typing.start_ok hraw hin).1
  rw [hempty] at hok
  obtain ⟨s, -, hrun, -, -, hplaced⟩ := hok.typeLine (show 97 ≠ 0 by decide) (by decide) (by decide)
    (n := 1) (by decide) (Typing.start_idle _)
  have hrun := hrun (by decide)
  obtain ⟨⟨lines, hsub, hflat, -⟩, -⟩ := typed_lines_whole hraw hin hrun
  exact ⟨_, s, hrun, hplaced, lines, hsub, hflat⟩

/-- Lines that end in newlines end in one. -/
theorem getLast?_flatten_lines {lines : List (List UInt8)}
    (h : ∀ l ∈ lines, ∃ body, l = body ++ [10]) (hne : lines ≠ []) :
    lines.flatten.getLast? = some 10 := by
  obtain ⟨init, l, rfl⟩ := (List.eq_nil_or_concat lines).resolve_left hne
  rw [List.concat_eq_append] at h ⊢
  obtain ⟨body, rfl⟩ := h l (List.mem_append_right _ (List.mem_singleton_self l))
  simp

/-- A line of 125 letters leaves room for one byte; the next line loses its newline. -/
theorem partial_line_joined : ∃ ops s,
    Run (lineStep 0) (Typing.start (initTty Console.zeroed)) ops s ∧
      s.placed = List.replicate 125 97 ++ [10] ++ [98] ∧
      ¬ ∃ lines : List (List UInt8), s.placed = lines.flatten ∧
        ∀ l ∈ lines, ∃ body, l = body ++ [10] := by
  obtain ⟨hraw, hin, hempty⟩ := initTty_input
  have hok := (Typing.start_ok hraw hin).1
  rw [hempty] at hok
  obtain ⟨s₁, hrun₁, -, hok₁, hidle₁, hplaced₁⟩ := hok.typeLine (show 97 ≠ 0 by decide) (by decide)
    (by decide) (n := 125) (by decide) (Typing.start_idle _)
  obtain ⟨s₂, hrun₂, -, -, -, hplaced₂⟩ := hok₁.typeLine (show 98 ≠ 0 by decide) (by decide)
    (by decide) (n := 1) (by decide) hidle₁
  have hfirst : s₁.placed = List.replicate 125 97 ++ [10] := hplaced₁
  have hroom : 127 - ([] ++ s₁.placed).length = 1 := by
    rw [hfirst]
    simp
  have hplaced : s₂.placed = List.replicate 125 97 ++ [10] ++ [98] := by
    rw [hplaced₂, hroom, hfirst]
    rfl
  refine ⟨_, s₂, hrun₁.append hrun₂, hplaced, ?_⟩
  rintro ⟨lines, hflat, hlines⟩
  have hne : lines ≠ [] := by
    rintro rfl
    rw [hplaced] at hflat
    cases hflat
  have hlast := getLast?_flatten_lines hlines hne
  rw [← hflat, hplaced, List.getLast?_concat] at hlast
  revert hlast
  decide

end Moonlight
