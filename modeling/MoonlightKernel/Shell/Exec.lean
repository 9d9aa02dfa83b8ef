import MoonlightKernel.Io.KeyLayout
import MoonlightKernel.Shell.Command
import MoonlightKernel.Str.Compare
import MoonlightKernel.Tty.Lines

/-!
# The commands of the shell: `kernel/minishell/minishell.c`, `kernel/minishell/cmd`

`exec_cmd` compares the string in `cmd` with the names of a table and calls the function of the first
name that the string begins with.

* `execCmd`, `switchttyCmd`, `layout` — the source; `none` is a read behind a buffer;
* `lineEffect` — what a line is about: the keyboard and the terminal after it, or the end;
* `switchttyCmd_spec`, `layout_spec`, `execCmd_spec` — the functions on `cmd` do that.
-/

set_option autoImplicit false

namespace Moonlight

open Sys

/-! ## The source -/

/-- The characters of a text in the source. -/
def ascii (s : String) : List UInt8 := s.toList.map fun c => UInt8.ofNat c.toNat

/-- A string of the shell as a text. -/
def asText (s : List UInt8) : String := String.ofList (s.map fun c => Char.ofNat c.toNat)

/-- What the commands `memdebug` and `shutdown` print: the latter nothing if the machine goes off. -/
structure Surroundings where
  pageInfo : List UInt8
  acpiPowerOff : Option (List UInt8)

/-- The keyboard, the terminals, the command line of the shell, and the variable `c` of `launchshell`:
the character that it has got and not used yet. -/
structure Session where
  keyboard : Keyboard
  console : Console
  shell : Shell
  c : UInt8

/-- `printk`, which writes to the current terminal. -/
def Session.print (out : List UInt8) (s : Session) : Session :=
  { s with console := ttyWrite s.console.currentTty out s.console }

/-- The functions of `correstab`. -/
inductive Command where
  | reboot | halt | switchtty | memdebug | layout | shutdown
  deriving DecidableEq

/-- `correstab`. -/
def correstab : List (List UInt8 × Command) :=
  [(ascii "reboot", .reboot), (ascii "halt", .halt), (ascii "switchtty", .switchtty),
    (ascii "memdebug", .memdebug), (ascii "layout", .layout), (ascii "shutdown", .shutdown)]

/-- `default_cmd`. -/
def defaultCmd : List UInt8 := ascii "switchtty "

/-- `switchtty_cmd`. -/
def switchttyCmd (s : Session) : Option Session := do
  let r ← strncmp (defaultCmd ++ [0]) s.shell.cmd defaultCmd.length
  if r ≠ 0 then return s
  let nb ← atoi (s.shell.cmd.drop defaultCmd.length)
  if nb.toInt < 0 ∨ (MAX_TTY : Int) ≤ nb.toInt then return s
  return { s with console := switchTty nb.toNat s.console }

/-- `while (*cmd && …) cmd++;` -/
def skipChars (more : UInt8 → Bool) : List UInt8 → Option (List UInt8)
  | [] => none
  | c :: cmd => if c ≠ 0 ∧ more c then skipChars more cmd else some (c :: cmd)

/-- `layout`. -/
def layout (s : Session) : Option Session := do
  let cmd ← skipChars (· ≠ 32) s.shell.cmd
  let cmd ← skipChars (· = 32) cmd
  let name ← cString cmd
  if name ≠ [] then
    let r := setLayout (asText name) s.keyboard
    let s := { s with keyboard := r.2 }
    if r.1 = 0 then return s.print (ascii "set layout to \"" ++ name ++ ascii "\"\n")
    else return s.print (ascii "no layout found \"" ++ name ++ ascii "\"\n")
  else return s.print (ascii "current layout " ++ ascii (getLayout s.keyboard))

/-- The functions of `correstab`, called; the inner `none` is a machine that has stopped. -/
def Command.call (o : Surroundings) (s : Session) : Command → Option (Option Session)
  | .reboot | .halt => some none
  | .switchtty => (switchttyCmd s).map some
  | .memdebug => some (some (s.print (ascii "\n" ++ o.pageInfo)))
  | .layout => (Moonlight.layout s).map some
  | .shutdown => some (o.acpiPowerOff.map fun out => s.print out)

/-- The loop of `exec_cmd`. -/
def execLoop (o : Surroundings) (s : Session) :
    List (List UInt8 × Command) → Option (Option Session)
  | [] => some (some (s.print (ascii "unknow command\n")))
  | e :: rest => do
    let r ← strncmp (e.1 ++ [0]) s.shell.cmd e.1.length
    if r = 0 then e.2.call o s else execLoop o s rest

/-- `exec_cmd`. -/
def execCmd (o : Surroundings) (s : Session) : Option (Option Session) := execLoop o s correstab

/-! ## What a line is about -/

/-- The function that `exec_cmd` calls for a line. -/
def commandOf (line : List UInt8) : Option Command :=
  (correstab.find? fun e => e.1.isPrefixOf line).map Prod.snd

/-- The terminal that a line asks for. -/
def switchTarget (line : List UInt8) : Option Nat :=
  if defaultCmd <+: line then
    (atoi (line.drop defaultCmd.length ++ [0])).bind fun nb =>
      if nb.toInt < 0 ∨ (MAX_TTY : Int) ≤ nb.toInt then none else some nb.toNat
  else none

/-- What stands behind the first word of a line. -/
def argument (line : List UInt8) : List UInt8 := (line.dropWhile (· ≠ 32)).dropWhile (· = 32)

/-- The keyboard and the current terminal after a line; `none` when the machine has stopped. -/
def lineEffect (o : Surroundings) (line : List UInt8) (keyboard : Keyboard) (term : Nat) :
    Option (Keyboard × Nat) :=
  match commandOf line with
  | some .reboot | some .halt => none
  | some .shutdown => if o.acpiPowerOff.isSome then some (keyboard, term) else none
  | some .switchtty => some (keyboard, (switchTarget line).getD term)
  | some .layout => some (if argument line = [] then keyboard
      else (setLayout (asText (argument line)) keyboard).2, term)
  | some .memdebug | none => some (keyboard, term)

/-- No two names of the table begin in the same way, so that their order does not matter. -/
theorem correstab_prefixFree :
    correstab.Pairwise fun d e => ¬ d.1 <+: e.1 ∧ ¬ e.1 <+: d.1 := by
  decide

/-! ## The terminals -/

/-- The input of the terminals is what it was. -/
def SameInput (c c' : Console) : Prop := ∀ u, (c'.tty u).keyboard = (c.tty u).keyboard

theorem SameInput.refl (c : Console) : SameInput c c := fun _ => rfl

theorem SameInput.trans {c c₁ c' : Console} (h : SameInput c c₁) (h' : SameInput c₁ c') :
    SameInput c c' := fun u => (h' u).trans (h u)

theorem Tty.write_keyboard (data : List UInt8) (s : Tty) : (s.write data).keyboard = s.keyboard := by
  induction data generalizing s with
  | nil => rfl
  | cons ch data ih => exact (ih _).trans (Tty.putchar_keyboard ch s)

/-- `tty_write` does not touch the input. -/
theorem ttyWrite_sameInput (term : Nat) (data : List UInt8) (c : Console) :
    SameInput c (ttyWrite term data c) ∧ (ttyWrite term data c).currentTty = c.currentTty := by
  have hacts := ttyWrite_acts term data c
  refine ⟨fun u => ?_, hacts.current⟩
  by_cases hu : u = term
  · rw [hu, hacts.self]
    exact Tty.write_keyboard data _
  · rw [hacts.other hu]

/-- `s'` is `s` after a command that leaves the line, the character and all input alone. -/
structure Session.Done (keyboard : Keyboard) (term : Nat) (s s' : Session) : Prop where
  keyboard : s'.keyboard = keyboard
  current : s'.console.currentTty = term
  input : SameInput s.console s'.console
  shell : s'.shell = s.shell
  c : s'.c = s.c

section commands

variable {o : Surroundings} {s : Session} {line rest : List UInt8}

theorem Session.print_done (out : List UInt8) (keyboard : Keyboard) (s : Session) :
    Session.Done keyboard s.console.currentTty s (Session.print out { s with keyboard }) := by
  obtain ⟨hinput, hcurrent⟩ := ttyWrite_sameInput s.console.currentTty out s.console
  exact ⟨rfl, hcurrent, hinput, rfl, rfl⟩

/-! ## Reading the arguments -/

/-- The digits are read up to the end of the string. -/
theorem readDigits_terminated {isDigit : UInt8 → Bool} {value : UInt8 → BitVec 32}
    (hstop : isDigit 0 = false) (base : BitVec 32) (s rest : List UInt8) (res : BitVec 32) :
    ∃ w, readDigits isDigit value base (s ++ 0 :: rest) res = some w ∧
      readDigits isDigit value base (s ++ [0]) res = some w := by
  have hend : ∀ tail, readDigits isDigit value base (0 :: tail) res = some res := fun tail => by
    rw [readDigits, hstop]
    exact if_neg Bool.false_ne_true
  induction s generalizing res with
  | nil => exact ⟨res, hend rest, hend []⟩
  | cons c s ih =>
    rw [List.cons_append, List.cons_append, readDigits, readDigits]
    split
    · refine ih _ fun tail => ?_
      rw [readDigits, hstop]
      exact if_neg Bool.false_ne_true
    · exact ⟨res, rfl, rfl⟩

theorem readSigned_terminated {isDigit : UInt8 → Bool} {value : UInt8 → BitVec 32}
    (hstop : isDigit 0 = false) (base : BitVec 32) (s rest : List UInt8) :
    ∃ w, readSigned isDigit value base (s ++ 0 :: rest) = some w ∧
      readSigned isDigit value base (s ++ [0]) = some w := by
  cases s with
  | nil =>
    obtain ⟨w, hw, hw'⟩ := @readDigits_terminated _ value hstop base [] rest 0
    exact ⟨1 * w, congrArg (Option.map (1 * ·)) hw, congrArg (Option.map (1 * ·)) hw'⟩
  | cons c s =>
    rw [List.cons_append, List.cons_append, readSigned, readSigned]
    by_cases hsign : c = 43 ∨ c = 45
    · rw [if_pos hsign, if_pos hsign]
      obtain ⟨w, hw, hw'⟩ := readDigits_terminated hstop base s rest 0
      exact ⟨_, congrArg _ hw, congrArg _ hw'⟩
    · rw [if_neg hsign, if_neg hsign, ← List.cons_append, ← List.cons_append]
      obtain ⟨w, hw, hw'⟩ := readDigits_terminated hstop base (c :: s) rest 0
      exact ⟨_, congrArg _ hw, congrArg _ hw'⟩

/-- **`atoi`** reads up to the end of the string. -/
theorem atoi_terminated (s rest : List UInt8) :
    ∃ w, atoi (s ++ 0 :: rest) = some w ∧ atoi (s ++ [0]) = some w := by
  have hskip : ∀ tail, (s ++ 0 :: tail).dropWhile isBlank = s.dropWhile isBlank ++ 0 :: tail := by
    intro tail
    rw [List.dropWhile_append]
    cases s.dropWhile isBlank with
    | nil => rfl
    | cons c s => rfl
  unfold atoi
  rw [hskip, hskip]
  exact readSigned_terminated (by decide) 10 _ rest

/-- The loops of `layout` end at the end of the string. -/
theorem skipChars_spec (more : UInt8 → Bool) (h0 : 0 ∉ line) (rest : List UInt8) :
    skipChars more (line ++ 0 :: rest) = some (line.dropWhile more ++ 0 :: rest) := by
  induction line with
  | nil => exact if_neg fun h => h.1 rfl
  | cons c line ih =>
    obtain ⟨hc, h0⟩ := not_or.mp (mt List.mem_cons.mpr h0)
    rw [List.cons_append, skipChars, List.dropWhile_cons]
    by_cases hmore : more c = true
    · rw [if_pos ⟨Ne.symm hc, hmore⟩, if_pos hmore, ih h0]
    · rw [if_neg fun h => hmore h.2, if_neg hmore]
      rfl

/-! ## The commands -/

/-- **`switchtty_cmd`** on a line. -/
theorem switchttyCmd_spec (hcmd : s.shell.cmd = line ++ 0 :: rest) (h0 : 0 ∉ line) :
    ∃ s', switchttyCmd s = some s' ∧
      Session.Done s.keyboard ((switchTarget line).getD s.console.currentTty) s s' := by
  obtain ⟨r, hr, hzero⟩ := strncmp_prefix (s := defaultCmd) (by decide) h0 [] rest
  unfold switchttyCmd switchTarget
  rw [hcmd, hr]
  simp only [bind, Option.bind_some, pure]
  by_cases hpre : defaultCmd <+: line
  · obtain ⟨arg, rfl⟩ := hpre
    obtain ⟨w, hw, hw'⟩ := atoi_terminated arg rest
    rw [if_neg (not_not_intro (hzero.mpr (List.prefix_append _ _))),
      if_pos (List.prefix_append _ _), List.append_assoc, List.drop_left, List.drop_left, hw, hw']
    simp only [Option.bind_some]
    split
    · exact ⟨s, rfl, rfl, rfl, .refl _, rfl, rfl⟩
    · exact ⟨_, rfl, rfl, rfl, fun u => rfl, rfl, rfl⟩
  · rw [if_pos (mt hzero.mp hpre), if_neg hpre]
    exact ⟨s, rfl, rfl, rfl, .refl _, rfl, rfl⟩

/-- **`layout`** on a line. -/
theorem layout_spec (hcmd : s.shell.cmd = line ++ 0 :: rest) (h0 : 0 ∉ line) :
    ∃ s', Moonlight.layout s = some s' ∧
      Session.Done (if argument line = [] then s.keyboard
        else (setLayout (asText (argument line)) s.keyboard).2) s.console.currentTty s s' := by
  have hword : (0 : UInt8) ∉ line.dropWhile (· ≠ 32) := fun h =>
    h0 ((List.dropWhile_suffix _).subset h)
  have harg : (0 : UInt8) ∉ argument line := fun h => hword ((List.dropWhile_suffix _).subset h)
  unfold Moonlight.layout
  rw [hcmd, skipChars_spec _ h0]
  simp only [bind, Option.bind_some, pure]
  rw [skipChars_spec _ hword]
  simp only [Option.bind_some]
  rw [show cString (List.dropWhile (· = 32) (List.dropWhile (· ≠ 32) line) ++ 0 :: rest) =
    some (argument line) from cString_append harg rest]
  simp only [Option.bind_some]
  by_cases hnil : argument line = []
  · rw [if_neg (not_not_intro hnil), if_pos hnil]
    exact ⟨_, rfl, Session.print_done _ _ s⟩
  · rw [if_pos hnil, if_neg hnil]
    split
    · exact ⟨_, rfl, Session.print_done _ _ s⟩
    · exact ⟨_, rfl, Session.print_done _ _ s⟩

/-! ## `exec_cmd` -/

/-- A command has ended the machine, or it has had its effect. -/
def Effected (s : Session) (effect : Option (Keyboard × Nat)) (r : Option (Option Session)) : Prop :=
  match effect with
  | none => r = some none
  | some (keyboard, term) => ∃ s', r = some (some s') ∧ Session.Done keyboard term s s'

/-- The loop calls the function of the first name that the line begins with. -/
theorem execLoop_spec (hcmd : s.shell.cmd = line ++ 0 :: rest) (h0 : 0 ∉ line)
    (table : List (List UInt8 × Command)) (hnames : ∀ e ∈ table, (0 : UInt8) ∉ e.1) :
    execLoop o s table = match table.find? fun e => e.1.isPrefixOf line with
      | some e => e.2.call o s
      | none => some (some (s.print (ascii "unknow command\n"))) := by
  induction table with
  | nil => rfl
  | cons e table ih =>
    obtain ⟨he, htable⟩ := List.forall_mem_cons.mp hnames
    obtain ⟨r, hr, hzero⟩ := strncmp_prefix he h0 [] rest
    rw [execLoop, hcmd, hr, List.find?_cons]
    simp only [bind, Option.bind_some]
    by_cases hpre : e.1 <+: line
    · rw [if_pos (hzero.mpr hpre), List.isPrefixOf_iff_prefix.mpr hpre]
    · rw [if_neg (mt hzero.mp hpre), ih htable,
        Bool.eq_false_iff.mpr (mt List.isPrefixOf_iff_prefix.mp hpre)]

/-- **`exec_cmd`** has the effect of the line in `cmd`, and reads nothing behind it. -/
theorem execCmd_spec (hcmd : s.shell.cmd = line ++ 0 :: rest) (h0 : 0 ∉ line) :
    Effected s (lineEffect o line s.keyboard s.console.currentTty) (execCmd o s) := by
  have hloop := execLoop_spec (o := o) hcmd h0 correstab (by decide)
  unfold Effected lineEffect commandOf execCmd
  rw [hloop]
  cases correstab.find? fun e => e.1.isPrefixOf line with
  | none => exact ⟨_, rfl, Session.print_done _ _ s⟩
  | some e =>
    obtain ⟨name, command⟩ := e
    simp only [Option.map_some]
    cases command with
    | reboot => exact rfl
    | halt => exact rfl
    | switchtty =>
      obtain ⟨s', hs', hdone⟩ := switchttyCmd_spec hcmd h0
      exact ⟨s', congrArg (Option.map some) hs', hdone⟩
    | memdebug => exact ⟨_, rfl, Session.print_done _ _ s⟩
    | layout =>
      obtain ⟨s', hs', hdone⟩ := layout_spec hcmd h0
      have hcall : Command.call o s .layout = some (some s') := congrArg (Option.map some) hs'
      exact ⟨s', hcall, hdone⟩
    | shutdown =>
      cases hoff : o.acpiPowerOff with
      | none =>
        show some (o.acpiPowerOff.map fun out => s.print out) = some none
        rw [hoff]
        rfl
      | some out =>
        refine ⟨s.print out, ?_, Session.print_done out _ s⟩
        show some (o.acpiPowerOff.map fun out => s.print out) = _
        rw [hoff]
        rfl

end commands

end Moonlight
