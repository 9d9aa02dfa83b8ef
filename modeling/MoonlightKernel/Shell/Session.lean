import MoonlightKernel.Lib.Run
import MoonlightKernel.Shell.Exec

/-!
# From the keyboard to the commands

The keyboard interrupt translates a scan code, edits the line of the current terminal and hands whole
lines to its input stream.  The shell takes characters out of the stream of whatever terminal is
current, collects them in `cmd`, and calls `exec_cmd` at a newline, which may change the terminal
and the keyboard.

* `irqKeybord`, `getc`, `sessionStep` — the source, with interrupts between any two steps of the shell;
* `Desk`, `deskStep` — what this is for: a line editor for each terminal, and commands that are run
  line by line;
* `Session.At` — the relation of the two, `sessionStep_simulates` — one step keeps it;
* `session_refines_desk` — every run in which the lines find room in the streams.
-/

set_option autoImplicit false

namespace Moonlight

open Sys

/-! ## The source -/

/-- `irq_keybord`: `status` and `code` are what the ports 0x64 and 0x60 give. -/
def irqKeybord (status code : Nat) (s : Session) : Option Session :=
  if status &&& 1 ≠ 0 then
    let r := keyLayout code s.keyboard
    r.1.map fun key =>
      { s with keyboard := r.2, console := (ttyInputChar s.console.currentTty key s.console).1 }
  else some s

/-- `getc`. -/
def getc (c : Console) : UInt8 × Console :=
  let r := streamRead (c.tty c.currentTty).input 1
  (if r.2.1 = 1 then r.1.headD 0 else 0, c.modify c.currentTty fun s => { s with input := r.2.2 })

/-- A step of the system. -/
inductive SessionOp where
  | irq (status code : Nat)
  | printk (out : List UInt8)
  | getc
  | push
  | exec (cmd : List UInt8)

/-- An interrupt of the keyboard, a message of the kernel, or a step of the loop of `launchshell`: it
gets a character, or it uses the one that it has got.  `cmd` is the string that `exec_cmd` reads. -/
def sessionStep (o : Surroundings) (s : Session) : SessionOp → Session → Prop
  | .irq status code, s' => irqKeybord status code s = some s'
  | .printk out, s' => s' = s.print out
  | .getc, s' => s.c = 0 ∧
      s' = { s with c := (Moonlight.getc s.console).1, console := (Moonlight.getc s.console).2 }
  | .push, s' => s.c ≠ 0 ∧ s.c ≠ 10 ∧ ∃ shell, pushbackChar s.shell s.c = some shell ∧
      s' = { s with shell, c := 0 }
  | .exec cmd, s' => s.c = 10 ∧ cString s.shell.cmd = some cmd ∧
      ∃ t shell, execCmd o s = some (some t) ∧ clearCmd t.shell = some shell ∧
        s' = Session.print (ascii "\n$> ") { t with shell, c := 0 }

/-- The loop can go on: it has no character, or it uses the one that it has; only a command can stop
the machine. -/
structure Session.Ready (o : Surroundings) (s : Session) : Prop where
  push : s.c ≠ 0 → s.c ≠ 10 → ∃ s', sessionStep o s .push s'
  exec : s.c = 10 → execCmd o s = some none ∨ ∃ cmd s', sessionStep o s (.exec cmd) s'

/-- The kernel starts the loop: its tables are what they were compiled to be. -/
def Session.boot : Session := ⟨Keyboard.boot, initTty Console.zeroed, Shell.boot, 0⟩

/-- A newline finds room in the stream for the whole line. -/
def LineFits (s : Session) : SessionOp → Prop
  | .irq status code => status &&& 1 ≠ 0 → (keyLayout code s.keyboard).1 = some 10 →
      (s.console.tty s.console.currentTty).inputRawC + 1 ≤
        127 - streamToread (s.console.tty s.console.currentTty).input
  | _ => True

/-! ## What it is for -/

/-- The keyboard, the current terminal, and for each terminal its editor and how many of its lines
have been run. -/
structure Desk where
  keyboard : Keyboard
  term : Nat
  edits : Nat → Edit
  ran : Nat → Nat

def Desk.boot : Desk := ⟨Keyboard.boot, 0, fun _ => ⟨[], []⟩, fun _ => 0⟩

inductive DeskOp where
  | key (code : Nat)
  | run (line : List UInt8)

/-- A key edits the line of the current terminal; the next line of the current terminal is run. -/
def deskStep (o : Surroundings) (d : Desk) : DeskOp → Desk → Prop
  | .key code, d' => ∃ key, (keyLayout code d.keyboard).1 = some key ∧
      d' = { d with
        keyboard := (keyLayout code d.keyboard).2
        edits := Function.update d.edits d.term ((d.edits d.term).key key) }
  | .run line, d' => (d.edits d.term).lines[d.ran d.term]? = some (line ++ [10]) ∧
      ∃ keyboard term, lineEffect o line d.keyboard d.term = some (keyboard, term) ∧
        d' = { d with
          keyboard := keyboard
          term := term
          ran := Function.update d.ran d.term (d.ran d.term + 1) }

/-- What can be seen of a run: the scan codes, and the lines that are run. -/
inductive Shown where
  | code (code : Nat)
  | line (line : List UInt8)

def SessionOp.shown : SessionOp → List Shown
  | .irq status code => if status &&& 1 ≠ 0 then [.code code] else []
  | .exec cmd => [.line cmd]
  | _ => []

def DeskOp.shown : DeskOp → List Shown
  | .key code => [.code code]
  | .run line => [.line line]

/-! ## The lines of an editor -/

/-- A character that stays in a line. -/
def PlainChar (c : UInt8) : Prop := c ≠ 0 ∧ c ≠ 8 ∧ c ≠ 10

/-- The lines are short and made of plain characters, each with its newline. -/
structure Edit.Plain (e : Edit) : Prop where
  lines : ∀ l ∈ e.lines, ∃ body, l = body ++ [10] ∧ body.length ≤ STREAM_BUFF - 2 ∧
    ∀ c ∈ body, PlainChar c
  cur : ∀ c ∈ e.cur, PlainChar c
  ok : e.Ok

theorem Edit.Plain.key {e : Edit} (h : e.Plain) (key : UInt8) : (e.key key).Plain := by
  refine ⟨?_, ?_, h.ok.key key⟩
  · by_cases hnl : key = 10
    · rw [hnl, Edit.key_newline]
      intro l hl
      rcases List.mem_append.mp hl with hl | hl
      · exact h.lines l hl
      · rw [List.mem_singleton] at hl
        exact ⟨e.cur, hl, h.ok.le, h.cur⟩
    · rw [Edit.key_lines hnl]
      exact h.lines
  · unfold Edit.key
    split
    · exact h.cur
    rename_i h0
    split
    · exact fun c hc => h.cur c (List.dropLast_subset _ hc)
    rename_i h8
    split
    · exact fun c hc => absurd hc List.not_mem_nil
    rename_i h10
    split
    · intro c hc
      rcases List.mem_append.mp hc with hc | hc
      · exact h.cur c hc
      · rw [List.mem_singleton.mp hc]
        exact ⟨h0, h8, h10⟩
    · exact h.cur

/-- What has been taken from a stream of lines, without a newline yet, is the front of its first
line. -/
theorem front_of_lines {lines : List (List UInt8)} {front rest : List UInt8} {c : UInt8}
    (hlines : ∀ l ∈ lines, ∃ body, l = body ++ [10] ∧ body.length ≤ STREAM_BUFF - 2 ∧
      ∀ c ∈ body, PlainChar c)
    (hfront : (10 : UInt8) ∉ front) (h : front ++ c :: rest = lines.flatten) :
    ∃ body tail, lines = (body ++ [10]) :: tail ∧ body.length ≤ STREAM_BUFF - 2 ∧
      (∀ d ∈ body, PlainChar d) ∧
      ((c = 10 ∧ front = body ∧ rest = tail.flatten) ∨
        (PlainChar c ∧ front ++ [c] <+: body)) := by
  cases lines with
  | nil => simp at h
  | cons l tail =>
    obtain ⟨⟨body, rfl, hle, hplain⟩, -⟩ := List.forall_mem_cons.mp hlines
    refine ⟨body, tail, rfl, hle, hplain, ?_⟩
    have hbody : (10 : UInt8) ∉ body := fun hmem => (hplain 10 hmem).2.2 rfl
    have hkept : ∀ {l : List UInt8}, (10 : UInt8) ∉ l → ∀ a ∈ l, decide (a ≠ 10) = true :=
      fun hl a ha => decide_eq_true fun he => hl (by rw [← he]; exact ha)
    have htake : ∀ {l m : List UInt8}, (10 : UInt8) ∉ l →
        (l ++ 10 :: m).takeWhile (· ≠ 10) = l := fun {l m} hl => by
      rw [List.takeWhile_append_of_pos (hkept hl)]
      simp
    rw [List.flatten_cons, List.append_assoc, List.singleton_append] at h
    have hcut := congrArg (List.takeWhile (· ≠ 10)) h
    rw [htake hbody] at hcut
    by_cases hc : c = 10
    · subst hc
      rw [htake hfront] at hcut
      subst hcut
      exact .inl ⟨rfl, rfl, (List.cons.inj (List.append_cancel_left h)).2⟩
    · have hpre : front ++ [c] <+: body := by
        rw [← hcut, List.takeWhile_append_of_pos (hkept hfront),
          List.takeWhile_cons, if_pos (decide_eq_true (p := c ≠ 10) hc)]
        exact ⟨_, List.append_assoc ..⟩
      exact .inr ⟨hplain c (hpre.subset (by simp)), hpre⟩

/-! ## The relation -/

/-- A terminal: it holds the line that is being edited, and its stream, together with what the shell
has taken from it, the lines that have not been run. -/
structure TermAt (e : Edit) (ran : Nat) (taken : List UInt8) (s : Tty) : Prop where
  plain : e.Plain
  raw : s.Raw e.cur
  stream : s.input.Ok
  done_le : ran ≤ e.lines.length
  pending : taken ++ s.input.contents = (e.lines.drop ran).flatten

/-- The variable `c` of the shell, when it has a character. -/
def Session.got (s : Session) : List UInt8 := if s.c = 0 then [] else [s.c]

/-- **The session is at the desk `d`.**  The shell has taken characters from the current terminal
only, and has those that it has used in `cmd`. -/
structure Session.At (s : Session) (d : Desk) : Prop where
  keyboard : s.keyboard = d.keyboard
  term : s.console.currentTty = d.term
  terms : ∃ kept, s.shell.Shows ⟨kept, []⟩ ∧ (10 : UInt8) ∉ kept ∧
    ∀ u, TermAt (d.edits u) (d.ran u) (if u = d.term then kept ++ s.got else [])
      (s.console.tty u)

section simulation

variable {o : Surroundings} {s s' : Session} {d : Desk} {e : Edit} {ran : Nat}
  {taken : List UInt8}

theorem TermAt.congr {t t' : Tty} (h : TermAt e ran taken t) (hk : t'.keyboard = t.keyboard) :
    TermAt e ran taken t' := by
  obtain ⟨hraw, hinput⟩ := h.raw.of_keyboard hk
  exact ⟨h.plain, hraw, hinput ▸ h.stream, h.done_le, hinput ▸ h.pending⟩

/-- The other terminals do not notice a key. -/
theorem ttyInputChar_other (term : Nat) (key : UInt8) (c : Console) :
    (ttyInputChar term key c).1.currentTty = c.currentTty ∧
      ∀ u, u ≠ term → (ttyInputChar term key c).1.tty u = c.tty u := by
  have hput : ∀ f : Tty → Tty, (ttyPutchar term key (c.modify term f)).currentTty = c.currentTty ∧
      ∀ u, u ≠ term → (ttyPutchar term key (c.modify term f)).tty u = c.tty u := fun f => by
    have hacts := ttyPutchar_acts term key (c.modify term f)
    refine ⟨hacts.current, fun u hu => ?_⟩
    rw [hacts.other hu]
    exact Function.update_of_ne hu ..
  unfold ttyInputChar
  split
  · exact ⟨rfl, fun _ _ => rfl⟩
  split
  · split
    · exact hput _
    · exact ⟨rfl, fun _ _ => rfl⟩
  split
  · dsimp only
    split
    · refine ⟨(hput _).1, fun u hu => ?_⟩
      rw [← (hput (Tty.pushRaw key)).2 u hu]
      exact Function.update_of_ne hu ..
    · exact hput _
  · exact ⟨rfl, fun _ _ => rfl⟩

/-- **A key** on a terminal whose stream has room for the line: the editor gets it, and the stream
gets the line that it ends. -/
theorem TermAt.key {term : Nat} {key : UInt8} {c : Console} (h : TermAt e ran taken (c.tty term))
    (hroom : key = 10 → (c.tty term).inputRawC + 1 ≤ 127 - streamToread (c.tty term).input) :
    TermAt (e.key key) ran taken ((ttyInputChar term key c).1.tty term) := by
  by_cases hkey : key = 10
  · subst hkey
    have hroom := hroom rfl
    obtain ⟨data, hbytes, -, hraw, hinput⟩ := ttyInputChar_newline h.plain.ok h.raw h.stream
    have hle := h.plain.ok.le
    unfold STREAM_BUFF at hle
    obtain ⟨st, hst, hwrite, hcont⟩ := streamWrite_spec h.stream data
      (show e.cur.length + 1 < 2 ^ 32 by omega)
    rw [h.raw.count, h.stream.toread] at hroom
    have hmin : min (e.cur.length + 1) (STREAM_BUFF - 1 - (c.tty term).input.contents.length) =
        e.cur.length + 1 := by
      unfold STREAM_BUFF
      omega
    refine ⟨h.plain.key 10, hraw, ?_, ?_, ?_⟩
    · rw [hinput, hwrite]
      exact hst
    · rw [Edit.key_newline, List.length_append]
      exact Nat.le_add_right_of_le h.done_le
    · rw [hinput, hwrite, Edit.key_newline, List.drop_append_of_le_length h.done_le,
        List.flatten_append, List.flatten_singleton, ← h.pending, List.append_assoc, hcont, hmin,
        hbytes]
  · obtain ⟨-, hraw, hinput⟩ := ttyInputChar_of_ne hkey h.raw
    refine ⟨h.plain.key key, hraw, hinput ▸ h.stream, ?_, ?_⟩
    · rw [Edit.key_lines hkey]
      exact h.done_le
    · rw [Edit.key_lines hkey, hinput]
      exact h.pending

/-- An interrupt is a key of the desk, or nothing. -/
theorem irq_simulates {status code : Nat} (h : s.At d) (hs : irqKeybord status code s = some s')
    (hfits : LineFits s (.irq status code)) :
    (status &&& 1 = 0 ∧ s' = s) ∨
      (status &&& 1 ≠ 0 ∧ ∃ d', deskStep o d (.key code) d' ∧ s'.At d') := by
  unfold irqKeybord at hs
  by_cases hstatus : status &&& 1 = 0
  · rw [if_neg (not_not_intro hstatus)] at hs
    exact .inl ⟨hstatus, (Option.some.inj hs).symm⟩
  rw [if_pos hstatus] at hs
  obtain ⟨key, hkey, rfl⟩ := Option.map_eq_some_iff.mp hs
  obtain ⟨hcurrent, hothers⟩ := ttyInputChar_other s.console.currentTty key s.console
  obtain ⟨kept, hshows, hnl, hterms⟩ := h.terms
  refine .inr ⟨hstatus, _, ⟨key, h.keyboard ▸ hkey, rfl⟩, h.keyboard ▸ rfl,
    hcurrent.trans h.term, kept, hshows, hnl, fun u => ?_⟩
  dsimp only
  by_cases hu : u = d.term
  · subst hu
    have hterm := hterms d.term
    rw [Function.update_self]
    rw [← h.term] at hterm ⊢
    exact hterm.key fun hnl => hfits hstatus (hnl ▸ hkey)
  · rw [Function.update_of_ne hu, hothers u (h.term ▸ hu)]
    exact hterms u

/-- **`getc`** takes the next character, if there is one. -/
theorem getc_at (h : s.At d) (hc : s.c = 0) :
    Session.At { s with c := (getc s.console).1, console := (getc s.console).2 } d := by
  obtain ⟨kept, hshows, hnl, hterms⟩ := h.terms
  refine ⟨h.keyboard, h.term, kept, hshows, hnl, fun u => ?_⟩
  dsimp only
  by_cases hu : u = d.term
  · subst hu
    have hterm := hterms d.term
    rw [if_pos rfl] at hterm ⊢
    obtain ⟨st, hst, hread, hrest⟩ := streamRead_spec hterm.stream (show 1 < 2 ^ 32 by decide)
    have hpending := hterm.pending
    unfold getc
    rw [h.term, hread, modify_tty]
    refine ⟨hterm.plain, ⟨hterm.raw.count, hterm.raw.bytes⟩, hst, hterm.done_le, ?_⟩
    rw [Session.got, if_pos hc, List.append_nil] at hpending
    rw [← hpending, hrest, Session.got]
    cases hcont : (s.console.tty d.term).input.contents with
    | nil => simp [toLong]
    | cons x rest =>
      rw [hcont] at hpending
      obtain ⟨body, tail, -, -, -, hx⟩ := front_of_lines
        (fun l hl => hterm.plain.lines l (List.mem_of_mem_drop hl)) hnl hpending
      have hx0 : x ≠ 0 := by
        rcases hx with ⟨rfl, -⟩ | ⟨hplain, -⟩
        · decide
        · exact hplain.1
      simp [toLong, hx0]
  · have hother : (getc s.console).2.tty u = s.console.tty u :=
      Function.update_of_ne (h.term ▸ hu) ..
    have hu' := hterms u
    rw [if_neg hu] at hu' ⊢
    rw [hother]
    exact hu'

/-- What the shell has got is the next character of the current terminal's next line. -/
theorem Session.At.next (h : s.At d) (hc : s.c ≠ 0) :
    ∃ kept body tail, s.shell.Shows ⟨kept, []⟩ ∧ (10 : UInt8) ∉ kept ∧
      (d.edits d.term).lines.drop (d.ran d.term) = (body ++ [10]) :: tail ∧
      body.length ≤ STREAM_BUFF - 2 ∧ (∀ c ∈ body, PlainChar c) ∧
      ((s.c = 10 ∧ kept = body ∧ (s.console.tty d.term).input.contents = tail.flatten) ∨
        (PlainChar s.c ∧ kept ++ [s.c] <+: body)) ∧
      ∀ u, TermAt (d.edits u) (d.ran u) (if u = d.term then kept ++ s.got else [])
        (s.console.tty u) := by
  obtain ⟨kept, hshows, hnl, hterms⟩ := h.terms
  have hterm := hterms d.term
  have hpending := hterm.pending
  rw [if_pos rfl, Session.got, if_neg hc, List.append_assoc, List.singleton_append] at hpending
  obtain ⟨body, tail, hlines, hle, hplain, hcases⟩ := front_of_lines
    (fun l hl => hterm.plain.lines l (List.mem_of_mem_drop hl)) hnl hpending
  exact ⟨kept, body, tail, hshows, hnl, hlines, hle, hplain, hcases, hterms⟩

/-- **`pushback_char`** adds the character to `cmd`: it is no backspace, and there is room. -/
theorem push_at (h : s.At d) (hc : s.c ≠ 0) (hnl : s.c ≠ 10) :
    ∃ shell, pushbackChar s.shell s.c = some shell ∧
      Session.At { s with shell := shell, c := 0 } d := by
  obtain ⟨kept, body, tail, hshows, hkept, -, hle, -, hcases, hterms⟩ := h.next hc
  obtain ⟨hplain, hpre⟩ := hcases.resolve_left fun h => hnl h.1
  obtain ⟨shell, hpush, hshows'⟩ := pushbackChar_shows hshows s.c
  have hlen := hpre.length_le
  rw [List.length_append, List.length_singleton] at hlen
  unfold STREAM_BUFF at hle
  have hkey : Line.key ⟨kept, []⟩ s.c = ⟨kept ++ [s.c], []⟩ := by
    unfold Line.key
    rw [if_neg (by unfold SIZE_MAX_CMD; dsimp only; omega), if_neg hplain.2.1]
  refine ⟨shell, hpush, h.keyboard, h.term, kept ++ [s.c], hkey ▸ hshows', ?_, fun u => ?_⟩
  · rw [List.mem_append, List.mem_singleton]
    exact fun hmem => hmem.elim hkept fun he => hnl he.symm
  · have hgot : kept ++ [s.c] ++ Session.got { s with shell := shell, c := 0 } = kept ++ s.got := by
      unfold Session.got
      rw [if_pos rfl, if_neg hc, List.append_nil]
    rw [hgot]
    exact hterms u

/-- **`exec_cmd`** runs the next line of the current terminal. -/
theorem exec_at (h : s.At d) (hc : s.c = 10) :
    ∃ line, cString s.shell.cmd = some line ∧
      (d.edits d.term).lines[d.ran d.term]? = some (line ++ [10]) ∧
      Effected s (lineEffect o line d.keyboard d.term) (execCmd o s) ∧
      ∀ keyboard term t, Session.Done keyboard term s t → ∃ shell, clearCmd t.shell = some shell ∧
        Session.At (Session.print (ascii "\n$> ") { t with shell := shell, c := 0 })
          { d with
            keyboard := keyboard
            term := term
            ran := Function.update d.ran d.term (d.ran d.term + 1) } := by
  have hc0 : s.c ≠ 0 := by
    rw [hc]
    decide
  obtain ⟨kept, body, tail, hshows, -, hlines, -, hplain, hcases, hterms⟩ := h.next hc0
  obtain ⟨-, rfl, hrest⟩ := hcases.resolve_right fun h => h.1.2.2 hc
  have h0 : (0 : UInt8) ∉ kept := fun hmem => (hplain 0 hmem).1 rfl
  obtain ⟨rest, hcmd⟩ := hshows.text
  rw [List.nil_append] at hcmd
  have hlt : d.ran d.term < (d.edits d.term).lines.length := by
    by_contra hge
    rw [List.drop_of_length_le (by omega)] at hlines
    cases hlines
  have hnext := List.drop_eq_getElem_cons hlt
  rw [hlines] at hnext
  obtain ⟨hhead, htail⟩ := List.cons.inj hnext
  have heffect := execCmd_spec (o := o) hcmd h0
  rw [h.keyboard, h.term] at heffect
  refine ⟨kept, ?_, ?_, heffect, fun keyboard term t hdone => ?_⟩
  · rw [hcmd]
    exact cString_append h0 rest
  · rw [List.getElem?_eq_getElem hlt, ← hhead]
  obtain ⟨shell, hclear, hempty⟩ := clearCmd_shows t.shell
  have hprint := Session.print_done (ascii "\n$> ") t.keyboard { t with shell := shell, c := 0 }
  refine ⟨shell, hclear, hdone.keyboard, hprint.current.trans hdone.current, [], ?_,
    List.not_mem_nil, fun u => ?_⟩
  · rw [hprint.shell]
    exact hempty
  have hgot : Session.got (Session.print (ascii "\n$> ") { t with shell := shell, c := 0 }) = [] :=
    if_pos rfl
  have hkeys := (hprint.input u).trans (hdone.input u)
  refine TermAt.congr ?_ hkeys
  rw [hgot, List.append_nil, ite_self]
  dsimp only
  have hu' := hterms u
  by_cases hu : u = d.term
  · subst hu
    rw [Function.update_self]
    refine ⟨hu'.plain, hu'.raw, hu'.stream, hlt, ?_⟩
    rw [hrest, htail]
    rfl
  · rw [Function.update_of_ne hu]
    rw [if_neg hu] at hu'
    exact hu'

/-- A message of the kernel leaves the input alone. -/
theorem print_at (h : s.At d) (out : List UInt8) : (s.print out).At d := by
  obtain ⟨kept, hshows, hnl, hterms⟩ := h.terms
  have hdone := Session.print_done out s.keyboard s
  exact ⟨h.keyboard, hdone.current.trans h.term, kept, hshows, hnl,
    fun u => (hterms u).congr (hdone.input u)⟩

/-- A command that does not stop the machine has the effect of its line. -/
theorem Effected.running {effect : Option (Keyboard × Nat)} {t : Session}
    (h : Effected s effect (some (some t))) :
    ∃ keyboard term, effect = some (keyboard, term) ∧ Session.Done keyboard term s t := by
  unfold Effected at h
  cases effect with
  | none => cases h
  | some e =>
    obtain ⟨t', ht, hdone⟩ := h
    cases ht
    exact ⟨e.1, e.2, rfl, hdone⟩

/-- **One step of the session** is no step of the desk, or one. -/
theorem sessionStep_simulates {op : SessionOp} (h : s.At d) (hs : sessionStep o s op s')
    (hfits : LineFits s op) :
    ∃ dops d', Run (deskStep o) d dops d' ∧ s'.At d' ∧ dops.flatMap DeskOp.shown = op.shown := by
  cases op with
  | irq status code =>
    rcases irq_simulates (o := o) h hs hfits with ⟨hstatus, rfl⟩ | ⟨hstatus, d', hd, hat⟩
    · exact ⟨[], d, .nil d, h, (if_neg (not_not_intro hstatus)).symm⟩
    · exact ⟨[.key code], d', .single hd, hat, (if_pos hstatus).symm⟩
  | printk out =>
    obtain rfl := hs
    exact ⟨[], d, .nil d, print_at h out, rfl⟩
  | getc =>
    obtain ⟨hc, rfl⟩ := hs
    exact ⟨[], d, .nil d, getc_at h hc, rfl⟩
  | push =>
    obtain ⟨hc, hnl, shell, hpush, rfl⟩ := hs
    obtain ⟨shell', hpush', hat⟩ := push_at h hc hnl
    cases hpush.symm.trans hpush'
    exact ⟨[], d, .nil d, hat, rfl⟩
  | exec cmd =>
    obtain ⟨hc, hcmd, t, shell, hexec, hclear, rfl⟩ := hs
    obtain ⟨line, hline, hnext, heffect, hafter⟩ := exec_at (o := o) h hc
    cases hcmd.symm.trans hline
    rw [hexec] at heffect
    obtain ⟨keyboard, term, hto, hdone⟩ := heffect.running
    obtain ⟨shell', hclear', hat⟩ := hafter keyboard term t hdone
    cases hclear.symm.trans hclear'
    exact ⟨[.run cmd], _, .single ⟨hnext, keyboard, term, hto, rfl⟩, hat, rfl⟩

/-- The loop never reads or writes outside its buffers. -/
theorem Session.At.ready (h : s.At d) : s.Ready o where
  push hc hnl := by
    obtain ⟨shell, hpush, -⟩ := push_at h hc hnl
    exact ⟨_, hc, hnl, shell, hpush, rfl⟩
  exec hc := by
    obtain ⟨line, hline, -, heffect, hafter⟩ := exec_at (o := o) h hc
    cases heff : lineEffect o line d.keyboard d.term with
    | none =>
      rw [heff] at heffect
      exact .inl heffect
    | some e =>
      rw [heff] at heffect
      obtain ⟨t, hexec, hdone⟩ := heffect
      obtain ⟨shell, hclear, -⟩ := hafter _ _ t hdone
      exact .inr ⟨line, _, hc, hline, t, shell, hexec, hclear, rfl⟩

end simulation

/-! ## Whole runs -/

theorem boot_at : Session.boot.At Desk.boot := by
  have hcurrent : (initTty Console.zeroed).currentTty = 0 := by
    rw [initTty, initLoop_currentTty]
  refine ⟨rfl, hcurrent, [], Shell.boot_shows, List.not_mem_nil, fun u => ?_⟩
  have hraw : ((initTty Console.zeroed).tty u).keyboard = (Console.zeroed.tty u).keyboard := by
    rw [initTty, initLoop_tty]
    split
    · rfl
    · rfl
  have hplain : Edit.Plain ⟨[], []⟩ := by
    refine ⟨?_, ?_, ?_, ?_, ?_⟩
    · exact List.forall_mem_nil _
    · exact List.forall_mem_nil _
    · exact List.forall_mem_nil _
    · exact List.not_mem_nil
    · exact Nat.zero_le _
  have hstream : (Console.zeroed.tty u).input.Ok := ⟨Nat.zero_lt_succ _, Nat.zero_lt_succ _⟩
  have hempty : (Console.zeroed.tty u).input.contents = [] :=
    (Stream.contents_eq_nil_iff hstream).mpr rfl
  have hzeroed : TermAt ⟨[], []⟩ 0 [] (Console.zeroed.tty u) :=
    ⟨hplain, ⟨rfl, rfl⟩, hstream, Nat.zero_le _, hempty⟩
  have htaken : (if u = Desk.boot.term then [] ++ Session.boot.got else []) = [] := ite_self []
  rw [htaken]
  exact hzeroed.congr hraw

/-- **The session refines the desk.**  However the interrupts of the keyboard and the messages of the
kernel fall between the steps of the shell, the lines that it runs are those that were typed on the
terminal that was current, whole, in their order, and each once.  A key press outside the tables of
the layout has no next state, so that the runs hold none. -/
theorem session_refines_desk {o : Surroundings} {ops : List SessionOp} {s : Session}
    (run : Run (fun s op s' => sessionStep o s op s' ∧ LineFits s op) Session.boot ops s) :
    ∃ dops d, Run (deskStep o) Desk.boot dops d ∧ s.At d ∧ s.Ready o ∧
      dops.flatMap DeskOp.shown = ops.flatMap SessionOp.shown := by
  obtain ⟨dops, d, hrun, hat, hshown⟩ := run.simulates SessionOp.shown DeskOp.shown Session.At
    (fun s op s' d h hs => sessionStep_simulates h hs.1 hs.2) boot_at
  exact ⟨dops, d, hrun, hat, hat.ready, hshown⟩

/-- The session after an interrupt that has a character. -/
def Session.pressed (code : Nat) (key : UInt8) (s : Session) : Session :=
  { s with
    keyboard := (keyLayout code s.keyboard).2
    console := (ttyInputChar s.console.currentTty key s.console).1 }

theorem irqKeybord_pressed {s : Session} {code : Nat} {key : UInt8}
    (hkey : (keyLayout code s.keyboard).1 = some key)
    (hroom : key = 10 → (s.console.tty s.console.currentTty).inputRawC + 1 ≤
      127 - streamToread (s.console.tty s.console.currentTty).input) (o : Surroundings) :
    sessionStep o s (.irq 1 code) (s.pressed code key) ∧ LineFits s (.irq 1 code) := by
  refine ⟨congrArg (Option.map _) hkey, fun _ hnl => hroom ?_⟩
  rw [hkey] at hnl
  exact Option.some.inj hnl

/-- A letter and a newline, which the shell reads and runs as a command. -/
theorem session_refines_desk_letter : ∃ ops s,
    Run (fun s op s' => sessionStep ⟨[], none⟩ s op s' ∧ LineFits s op) Session.boot ops s ∧
    ops.flatMap SessionOp.shown = [.code 0x1E, .code 0x1C, .line [97]] ∧
    ∃ dops d, Run (deskStep ⟨[], none⟩) Desk.boot dops d ∧ s.At d ∧ s.Ready ⟨[], none⟩ ∧
      dops.flatMap DeskOp.shown = ops.flatMap SessionOp.shown := by
  have hletter := @irqKeybord_pressed Session.boot 0x1E 97 (by decide +kernel) (by decide) ⟨[], none⟩
  have hnewline := @irqKeybord_pressed (Session.boot.pressed 0x1E 97) 0x1C 10 (by decide +kernel)
    (by decide +kernel) ⟨[], none⟩
  let typed := (Session.boot.pressed 0x1E 97).pressed 0x1C 10
  have hfirst : (getc typed.console).1 = 97 := by decide +kernel
  have hsecond : (getc (getc typed.console).2).1 = 10 := by decide +kernel
  obtain ⟨shell, hpush, hshows⟩ := pushbackChar_shows Shell.boot_shows 97
  let got : Session := { typed with c := 97, console := (getc typed.console).2 }
  let kept : Session := { got with shell := shell, c := 0 }
  let line : Session := { kept with c := 10, console := (getc kept.console).2 }
  have hgot : sessionStep ⟨[], none⟩ typed .getc got := ⟨rfl, by rw [hfirst]⟩
  have hkept : sessionStep ⟨[], none⟩ got .push kept :=
    ⟨by decide, by decide, shell, hpush, rfl⟩
  have hline : sessionStep ⟨[], none⟩ kept .getc line := ⟨rfl, by rw [hsecond]⟩
  have hcmd : cString line.shell.cmd = some [97] := hshows.reads (by decide)
  have htyped : Run (fun s op s' => sessionStep ⟨[], none⟩ s op s' ∧ LineFits s op) Session.boot
      [.irq 1 0x1E, .irq 1 0x1C, .getc, .push, .getc] line :=
    .cons hletter (.cons hnewline (.cons ⟨hgot, trivial⟩ (.cons ⟨hkept, trivial⟩
      (.single ⟨hline, trivial⟩))))
  -- the line is no command, so that the machine goes on
  have hnone : commandOf [97] = none := by decide
  obtain ⟨rest, htext⟩ := hshows.text
  obtain ⟨t, hexec, -⟩ : ∃ t, execCmd ⟨[], none⟩ line = some (some t) ∧
      Session.Done line.keyboard line.console.currentTty line t := by
    have heffect : Effected line (lineEffect ⟨[], none⟩ [97] _ _) (execCmd ⟨[], none⟩ line) :=
      execCmd_spec htext (by decide)
    unfold lineEffect at heffect
    rw [hnone] at heffect
    exact heffect
  obtain ⟨shell', hclear, -⟩ := clearCmd_shows t.shell
  have hran : sessionStep ⟨[], none⟩ line (.exec [97])
      (Session.print (ascii "\n$> ") { t with shell := shell', c := 0 }) :=
    ⟨rfl, hcmd, t, shell', hexec, hclear, rfl⟩
  have hrun := htyped.append (.single ⟨hran, trivial⟩)
  exact ⟨_, _, hrun, rfl, session_refines_desk hrun⟩

end Moonlight
