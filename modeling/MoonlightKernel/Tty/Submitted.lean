import Mathlib.Data.List.DropRight
import MoonlightKernel.Tty.Lines

/-!
# The line that is submitted: `kernel/tty/tty_input.c`

What a typist sees of `tty_input_char`: the keys since the last newline make a line, and the next
newline hands this line to `stream_write`, however much of it the stream then takes.

* `keep`, `lastLine` — the line, folded from the keys;
* `rawIndex`, `handed` — where `tty_input_char` stores into `input_raw`, and what it hands to
  `stream_write`; `ttyInputChar_inputRaw`, `ttyInputChar_handed` — that it does so;
* `typeStep` — keys, and whatever else happens to the terminals between them;
* `edited_line_submitted` — what is handed over is the line.
-/

set_option autoImplicit false

namespace Moonlight

open Sys

/-! ## The line -/

/-- One key: a null character is ignored, a backspace drops the last character, any other key is
kept while there are less than 126. -/
def keep (line : List UInt8) (key : UInt8) : List UInt8 :=
  if key = 0 then line
  else if key = 8 then line.dropLast
  else if line.length < 126 then line ++ [key]
  else line

/-- The line of the keys since the last newline. -/
def lastLine (keys : List UInt8) : List UInt8 := (keys.rtakeWhile fun k => k ≠ 10).foldl keep []

@[simp] theorem lastLine_newline (keys : List UInt8) : lastLine (keys ++ [10]) = [] := by
  unfold lastLine
  rw [List.rtakeWhile_concat, if_neg (by decide)]
  rfl

theorem lastLine_concat {key : UInt8} (h : key ≠ 10) (keys : List UInt8) :
    lastLine (keys ++ [key]) = keep (lastLine keys) key := by
  unfold lastLine
  rw [List.rtakeWhile_concat, if_pos (decide_eq_true h), List.foldl_concat]

/-- The editor of `Edit` edits this line. -/
theorem edited_cur (keys : List UInt8) : (edited keys).cur = lastLine keys := by
  induction keys using List.reverseRecOn with
  | nil => rfl
  | append_singleton keys key ih =>
    rw [edited_concat]
    by_cases h : key = 10
    · rw [h, Edit.key_newline, lastLine_newline]
    · rw [lastLine_concat h, ← ih]
      unfold Edit.key keep
      rw [if_neg h]
      split
      · rfl
      split
      · rfl
      · exact apply_ite Edit.cur _ _ _

/-! ## What `tty_input_char` stores and hands over -/

/-- The key gets to `input_raw`. -/
def KeyAccepted (key : UInt8) (s : Tty) : Prop :=
  key ≠ 0 ∧ key ≠ 8 ∧
    (s.inputRawC < STREAM_BUFF - 2 ∨ (s.inputRawC < STREAM_BUFF - 1 ∧ key = 10))

instance (key : UInt8) (s : Tty) : Decidable (KeyAccepted key s) := inferInstanceAs (Decidable (_ ∧ _))

/-- The index of `input_raw` that is stored into. -/
def rawIndex (key : UInt8) (s : Tty) : Option Nat :=
  if KeyAccepted key s then some s.inputRawC else none

/-- The bytes that are handed to `stream_write`: those of `input_raw` below `input_raw_c`, when it is
called. -/
def handed (term : Nat) (key : UInt8) (c : Console) : Option (List UInt8) :=
  if KeyAccepted key (c.tty term) ∧ key = 10 then
    let s := (ttyPutchar term key (c.modify term (Tty.pushRaw key))).tty term
    some (bytesFrom s.inputRaw 0 s.inputRawC)
  else none

section store

variable {term : Nat} {key : UInt8} {c : Console}

/-- The three ways through `tty_input_char` that do not store. -/
theorem ttyInputChar_of_not (h : ¬ KeyAccepted key (c.tty term)) :
    ttyInputChar term key c = (c, []) ∨
      ttyInputChar term key c = (ttyPutchar term key (c.modify term Tty.dropRaw), []) := by
  unfold ttyInputChar
  split
  · exact .inl rfl
  split
  · split
    · exact .inr rfl
    · exact .inl rfl
  · rename_i h0 h8
    rw [if_neg fun hroom => h ⟨h0, h8, hroom⟩]
    exact .inl rfl

/-- The way that does. -/
theorem ttyInputChar_of_accepted (h : KeyAccepted key (c.tty term)) :
    ttyInputChar term key c =
      let c := ttyPutchar term key (c.modify term (Tty.pushRaw key))
      if key = 10 then
        let s := c.tty term
        let r := streamWrite s.input s.inputRaw s.inputRawC
        (c.modify term fun s => { s with input := r.2, inputRawC := 0 },
          [(bytesFrom s.inputRaw 0 r.1.toNat, r.1)])
      else (c, []) :=
  (if_neg h.1).trans ((if_neg h.2.1).trans (if_pos h.2.2))

/-- `tty_input_char` stores at that index and nowhere else in `input_raw`. -/
theorem ttyInputChar_inputRaw (term : Nat) (key : UInt8) (c : Console) :
    ((ttyInputChar term key c).1.tty term).inputRaw =
      match rawIndex key (c.tty term) with
      | none => (c.tty term).inputRaw
      | some i => Function.update (c.tty term).inputRaw i key := by
  have hput := fun f => congrArg Prod.fst (ttyPutchar_keyboard term key f c)
  unfold rawIndex
  by_cases h : KeyAccepted key (c.tty term)
  · rw [if_pos h, ttyInputChar_of_accepted h]
    dsimp only
    split
    · rw [modify_tty]
      exact hput (Tty.pushRaw key)
    · exact hput (Tty.pushRaw key)
  · rw [if_neg h]
    rcases ttyInputChar_of_not h with he | he
    · rw [he]
    · rw [he]
      exact hput Tty.dropRaw

/-- `tty_input_char` calls `stream_write` with these bytes, and not otherwise. -/
theorem ttyInputChar_handed (term : Nat) (key : UInt8) (c : Console) :
    match handed term key c with
    | none => (ttyInputChar term key c).2 = []
    | some line => ∃ raw, bytesFrom raw 0 line.length = line ∧
        let r := streamWrite (c.tty term).input raw line.length
        (ttyInputChar term key c).2 = [(bytesFrom raw 0 r.1.toNat, r.1)] ∧
          ((ttyInputChar term key c).1.tty term).input = r.2 := by
  unfold handed
  by_cases h : KeyAccepted key (c.tty term)
  · by_cases hnl : key = 10
    · have hinput : ((ttyPutchar term key (c.modify term (Tty.pushRaw key))).tty term).input =
          (c.tty term).input := congrArg (fun x => x.2.2) (ttyPutchar_keyboard term key _ c)
      rw [if_pos ⟨h, hnl⟩, ttyInputChar_of_accepted h]
      dsimp only
      rw [length_bytesFrom]
      refine ⟨_, rfl, ?_⟩
      rw [if_pos hnl, hinput, modify_tty]
      exact ⟨rfl, rfl⟩
    · rw [if_neg fun hc => hnl hc.2, ttyInputChar_of_accepted h]
      dsimp only
      rw [if_neg hnl]
  · rw [if_neg fun hc => h hc.1]
    rcases ttyInputChar_of_not h with he | he
    · rw [he]
    · rw [he]

end store

/-! ## Runs -/

/-- The terminals, and the keys typed on one of them so far. -/
structure Typist where
  console : Console
  keys : List UInt8

/-- A key on the terminal `term`. -/
def Typist.type (term : Nat) (s : Typist) (key : UInt8) : Typist :=
  ⟨(ttyInputChar term key s.console).1, s.keys ++ [key]⟩

inductive TypistOp where
  | key (key : UInt8)
  | other

/-- A key on the terminal, or anything else that leaves its `input_raw` and `input_raw_c` alone:
output, reads of its stream, keys on other terminals. -/
def typeStep (term : Nat) (s : Typist) : TypistOp → Typist → Prop
  | .key key, s' => s' = s.type term key
  | .other, s' => s'.keys = s.keys ∧
      (s'.console.tty term).inputRaw = (s.console.tty term).inputRaw ∧
      (s'.console.tty term).inputRawC = (s.console.tty term).inputRawC

/-- The terminal holds the line of the keys. -/
def Typist.Ok (term : Nat) (s : Typist) : Prop := (s.console.tty term).Raw (lastLine s.keys)

/-- A line leaves room for its newline. -/
theorem lastLine_length_le (keys : List UInt8) : (lastLine keys).length ≤ 126 := by
  rw [← edited_cur]
  exact (edited_ok keys).le

/-- A newline empties the line. -/
theorem ttyInputChar_newline_raw {term : Nat} {c : Console} (h : KeyAccepted 10 (c.tty term)) :
    ((ttyInputChar term 10 c).1.tty term).Raw [] := by
  rw [ttyInputChar_of_accepted h]
  dsimp only
  rw [if_pos rfl, modify_tty]
  exact Tty.Raw.empty rfl

theorem Typist.Ok.accepted {term : Nat} {s : Typist} (h : s.Ok term) :
    KeyAccepted 10 (s.console.tty term) := by
  have hle := lastLine_length_le s.keys
  refine ⟨by decide, by decide, .inr ⟨?_, rfl⟩⟩
  rw [h.count]
  unfold STREAM_BUFF
  omega

/-- **One step** keeps the line. -/
theorem typeStep_ok {term : Nat} (s : Typist) (op : TypistOp) (s' : Typist) (h : s.Ok term)
    (hstep : typeStep term s op s') : s'.Ok term := by
  cases op with
  | key key =>
    have hs' : s' = s.type term key := hstep
    rw [hs']
    unfold Typist.Ok Typist.type at *
    by_cases hkey : key = 10
    · subst hkey
      rw [lastLine_newline]
      exact ttyInputChar_newline_raw (Typist.Ok.accepted h)
    · rw [← edited_cur] at h
      rw [← edited_cur, edited_concat]
      exact (ttyInputChar_of_ne hkey h).2.1
  | other =>
    obtain ⟨hkeys, hraw, hcount⟩ := hstep
    unfold Typist.Ok
    rw [hkeys]
    exact ⟨hcount.trans h.count, hraw ▸ h.bytes⟩

/-- What a terminal hands over that holds a line. -/
theorem Typist.Ok.handed {term : Nat} {s : Typist} (h : s.Ok term) (key : UInt8) :
    Moonlight.handed term key s.console =
      if key = 10 then some (lastLine s.keys ++ [10]) else none := by
  unfold Moonlight.handed
  by_cases hkey : key = 10
  · subst hkey
    have hraw := ((Tty.Raw.push h 10).of_keyboard (ttyPutchar_keyboard term 10 _ s.console)).1
    rw [if_pos ⟨h.accepted, rfl⟩, if_pos rfl]
    dsimp only
    rw [hraw.count, hraw.bytes]
  · rw [if_neg fun hc => hkey hc.2, if_neg hkey]

/-- **The edited line is what is submitted.**  After any sequence of keys `input_raw_c` is at most
126, the next store into `input_raw` is inside it, and the next newline hands over the line of the
keys since the last one, and the newline. -/
theorem edited_line_submitted {term : Nat} {c : Console} (hempty : (c.tty term).inputRawC = 0)
    {ops : List TypistOp} {s : Typist} (run : Run (typeStep term) ⟨c, []⟩ ops s) :
    (s.console.tty term).inputRawC ≤ 126 ∧
      ∀ key, (∀ i, rawIndex key (s.console.tty term) = some i → i < STREAM_BUFF) ∧
        handed term key s.console = (if key = 10 then some (lastLine s.keys ++ [10]) else none) ∧
        (lastLine s.keys ++ [10]).length ≤ 127 := by
  have hok : s.Ok term := run.invariant (Typist.Ok term) typeStep_ok (Tty.Raw.empty hempty)
  have hle := lastLine_length_le s.keys
  have hcount : (s.console.tty term).inputRawC ≤ 126 := hok.count ▸ hle
  refine ⟨hcount, fun key => ⟨fun i hi => ?_, hok.handed key, ?_⟩⟩
  · unfold rawIndex at hi
    split at hi
    · rw [← Option.some.inj hi]
      exact Nat.lt_of_le_of_lt hcount (by decide)
    · cases hi
  · rw [List.length_append, List.length_singleton]
    omega

/-- A sequence of keys is a run. -/
theorem type_run (term : Nat) (keys : List UInt8) (s : Typist) :
    Run (typeStep term) s (keys.map .key) (keys.foldl (Typist.type term) s) := by
  induction keys generalizing s with
  | nil => exact .nil s
  | cons key keys ih => exact .cons rfl (ih (s.type term key))

/-- The keys `a`, backspace and `b` make a line of one character. -/
theorem corrected_line_submitted :
    handed 0 10 ([97, 8, 98].foldl (Typist.type 0) ⟨initTty Console.zeroed, []⟩).console =
      some [98, 10] :=
  ((edited_line_submitted initTty_input.1 (type_run 0 [97, 8, 98] _)).2 10).2.1.trans (by decide)

end Moonlight
