import MoonlightKernel.Lib.Run
import MoonlightKernel.Io.Stream

/-!
# One reader and one writer on a stream

The reader makes any sequence of `stream_read` calls and the writer, an interrupt handler for
example, any sequence of `stream_write` calls.  The steps of the two are interleaved freely, the
halves of an iteration included: between them a byte is taken while `pos` still points at it, or
stored while `end` does not cover it.

* `pipeStep` — the steps of both parties;
* `Pipe.Inv` — the bytes stored so far are the ones taken, the contents of the stream, and the half
  done byte of the writer;
* `pipeStep_inv` — each step keeps it;
* `pipe_fifo` — no byte is lost, duplicated or reordered;
* `streamWrite_run` — a `stream_write` that is not interrupted is a run of the writer.
-/

set_option autoImplicit false

namespace Moonlight

open Sys

/-! ## The two parties -/

/-- A `stream_read` call under way: its variables, the bytes at its destination, and whether it is
in the middle of an iteration. -/
structure Reader where
  call : ReadCall
  taken : List UInt8
  half : Bool

/-- A `stream_write` call under way. -/
structure Writer where
  call : WriteCall
  half : Bool

/-- The bytes that the call has stored. -/
def Writer.stored (w : Writer) : List UInt8 :=
  bytesFrom w.call.data 0 (if w.half then w.call.writed + 1 else w.call.writed)

/-- A stream with its reader and its writer, and for each call that returned the bytes it moved and
its result. -/
structure Pipe where
  stream : Stream
  reader : Option Reader
  writer : Option Writer
  reads : List (List UInt8 × Int)
  writes : List (List UInt8 × Int)

/-- No call was made yet. -/
def Pipe.start (s : Stream) : Pipe := ⟨s, none, none, [], []⟩

/-- The bytes that reads have returned, in order. -/
def Pipe.got (p : Pipe) : List UInt8 :=
  p.reads.flatMap Prod.fst ++ (p.reader.map Reader.taken).getD []

/-- The bytes that writes have accepted, in order. -/
def Pipe.accepted (p : Pipe) : List UInt8 :=
  p.writes.flatMap Prod.fst ++ (p.writer.map Writer.stored).getD []

/-- No iteration is half done. -/
def Pipe.AtRest (p : Pipe) : Prop :=
  (∀ r, p.reader = some r → r.half = false) ∧ ∀ w, p.writer = some w → w.half = false

inductive PipeOp where
  | readCall (size : Nat)
  | readByte
  | readNext
  | readReturn (ret : Int)
  | writeCall (data : Nat → UInt8) (size : Nat)
  | writeByte
  | writeNext
  | writeReturn (ret : Int)

/-- One step of the reader or of the writer. -/
def pipeStep (p : Pipe) : PipeOp → Pipe → Prop
  | .readCall size, p' => size < 2 ^ 32 ∧ p.reader = none ∧
      p' = { p with reader := some ⟨⟨size, 0⟩, [], false⟩ }
  | .readByte, p' => ∃ r, p.reader = some r ∧ r.half = false ∧ r.call.more p.stream ∧
      p' = { p with reader := some { r with taken := r.taken ++ [p.stream.take], half := true } }
  | .readNext, p' => ∃ r, p.reader = some r ∧ r.half = true ∧
      p' = { p with
        stream := p.stream.advancePos
        reader := some { r with call := r.call.count, half := false } }
  | .readReturn ret, p' => ∃ r, p.reader = some r ∧ r.half = false ∧ ¬ r.call.more p.stream ∧
      ret = toLong r.call.readed ∧
      p' = { p with reader := none, reads := p.reads ++ [(r.taken, ret)] }
  | .writeCall data size, p' => size < 2 ^ 32 ∧ p.writer = none ∧
      p' = { p with writer := some ⟨WriteCall.start p.stream data size, false⟩ }
  | .writeByte, p' => ∃ w, p.writer = some w ∧ w.half = false ∧ w.call.more p.stream ∧
      p' = { p with
        stream := p.stream.store (w.call.data w.call.writed)
        writer := some { w with half := true } }
  | .writeNext, p' => ∃ w, p.writer = some w ∧ w.half = true ∧
      p' = { p with
        stream := p.stream.advanceFin
        writer := some { call := w.call.count, half := false } }
  | .writeReturn ret, p' => ∃ w, p.writer = some w ∧ w.half = false ∧ ¬ w.call.more p.stream ∧
      ret = toLong w.call.writed ∧
      p' = { p with writer := none, writes := p.writes ++ [(w.stored, ret)] }

/-! ## The invariant -/

/-- What the reader relies on. -/
structure Reader.Ok (r : Reader) (s : Stream) : Prop where
  size : r.call.size < 2 ^ 32
  bound : r.call.readed ≤ r.call.size
  atRest : r.half = false → r.taken.length = r.call.readed
  halfway : r.half = true → r.taken.length = r.call.readed + 1 ∧ r.call.more s

/-- What the writer relies on. -/
structure Writer.Ok (w : Writer) (s : Stream) : Prop where
  size : w.call.size < 2 ^ 32
  bound : w.call.writed ≤ w.call.size
  halfway : w.half = true → w.call.more s ∧ s.buff s.fin = w.call.data w.call.writed

/-- The byte that the reader has taken and `pos` has not passed. -/
def Pipe.readHalf (p : Pipe) : List UInt8 :=
  match p.reader with
  | some r => if r.half then [p.stream.take] else []
  | none => []

/-- The byte that the writer has stored and `end` does not cover. -/
def Pipe.writeHalf (p : Pipe) : List UInt8 :=
  match p.writer with
  | some w => if w.half then [w.call.data w.call.writed] else []
  | none => []

/-- The invariant; `first` are the bytes that the stream held at the start. -/
structure Pipe.Inv (first : List UInt8) (p : Pipe) : Prop where
  ok : p.stream.Ok
  reader : ∀ r, p.reader = some r → r.Ok p.stream
  writer : ∀ w, p.writer = some w → w.Ok p.stream
  flow : ∃ passed, p.got = passed ++ p.readHalf ∧
    first ++ p.accepted = passed ++ p.stream.contents ++ p.writeHalf
  reads : ∀ c ∈ p.reads, c.2 = toLong c.1.length
  writes : ∀ c ∈ p.writes, c.2 = toLong c.1.length

/-! ## What a step changes -/

namespace Pipe

variable {p : Pipe} {r : Reader} {w : Writer}

theorem got_of (h : p.reader = some r) : p.got = p.reads.flatMap Prod.fst ++ r.taken := by
  simp [got, h]

theorem got_idle (h : p.reader = none) : p.got = p.reads.flatMap Prod.fst := by
  simp [got, h]

theorem accepted_of (h : p.writer = some w) :
    p.accepted = p.writes.flatMap Prod.fst ++ w.stored := by
  simp [accepted, h]

theorem accepted_idle (h : p.writer = none) : p.accepted = p.writes.flatMap Prod.fst := by
  simp [accepted, h]

theorem readHalf_of (h : p.reader = some r) :
    p.readHalf = if r.half then [p.stream.take] else [] := by
  simp [readHalf, h]

theorem readHalf_idle (h : p.reader = none) : p.readHalf = [] := by
  simp [readHalf, h]

theorem writeHalf_of (h : p.writer = some w) :
    p.writeHalf = if w.half then [w.call.data w.call.writed] else [] := by
  simp [writeHalf, h]

theorem writeHalf_idle (h : p.writer = none) : p.writeHalf = [] := by
  simp [writeHalf, h]

end Pipe

namespace Reader.Ok

variable {r : Reader} {s : Stream}

theorem store (h : r.Ok s) (b : UInt8) : r.Ok (s.store b) := ⟨h.size, h.bound, h.atRest, h.halfway⟩

/-- The writer never makes the stream look empty. -/
theorem advanceFin (h : r.Ok s) (hroom : s.pos ≠ add32 s.fin 1 % STREAM_BUFF) :
    r.Ok s.advanceFin where
  size := h.size
  bound := h.bound
  atRest := h.atRest
  halfway hh := ⟨(h.halfway hh).1, (h.halfway hh).2.1, hroom⟩

end Reader.Ok

/-- The reader never makes the stream look full. -/
theorem Writer.Ok.advancePos {w : Writer} {s : Stream} (h : w.Ok s) (hs : s.Ok)
    (hne : s.pos ≠ s.fin) : w.Ok s.advancePos where
  size := h.size
  bound := h.bound
  halfway hh := by
    refine ⟨⟨(h.halfway hh).1.1, ?_⟩, (h.halfway hh).2⟩
    have hp := hs.pos
    have hf := hs.fin
    show add32 s.pos 1 % STREAM_BUFF ≠ add32 s.fin 1 % STREAM_BUFF
    rw [Stream.next_index hp, Stream.next_index hf]
    unfold STREAM_BUFF at *
    omega

/-! ## The steps keep the invariant -/

namespace Pipe.Inv

variable {first : List UInt8} {p : Pipe}

theorem readCall (h : p.Inv first) {size : Nat} (hsize : size < 2 ^ 32) (hr : p.reader = none) :
    Inv first { p with reader := some ⟨⟨size, 0⟩, [], false⟩ } where
  ok := h.ok
  reader r he := by
    cases he
    exact ⟨hsize, Nat.zero_le _, fun _ => rfl, fun hh => nomatch hh⟩
  writer := h.writer
  flow := by
    obtain ⟨passed, hgot, hflow⟩ := h.flow
    rw [readHalf_idle hr, got_idle hr] at hgot
    refine ⟨passed, ?_, hflow⟩
    rw [got_of rfl, readHalf_of rfl]
    simpa using hgot
  reads := h.reads
  writes := h.writes

theorem readByte (h : p.Inv first) {r : Reader} (hr : p.reader = some r) (hh : r.half = false)
    (hmore : r.call.more p.stream) :
    Inv first { p with reader := some { r with taken := r.taken ++ [p.stream.take], half := true } } where
  ok := h.ok
  reader r' he := by
    cases he
    have hok := h.reader r hr
    refine { size := hok.size, bound := hok.bound, atRest := ?_, halfway := ?_ }
    · intro hhalf
      cases hhalf
    · intro _
      exact ⟨by simp [hok.atRest hh], hmore⟩
  writer := h.writer
  flow := by
    obtain ⟨passed, hgot, hflow⟩ := h.flow
    rw [readHalf_of hr, got_of hr, hh] at hgot
    refine ⟨passed, ?_, hflow⟩
    rw [got_of rfl, readHalf_of rfl]
    simp at hgot ⊢
    rw [← List.append_assoc, hgot]
  reads := h.reads
  writes := h.writes

theorem readNext (h : p.Inv first) {r : Reader} (hr : p.reader = some r) (hh : r.half = true) :
    Inv first { p with
      stream := p.stream.advancePos
      reader := some { r with call := r.call.count, half := false } } where
  ok := h.ok.advancePos
  reader r' he := by
    cases he
    have hok := h.reader r hr
    obtain ⟨hlen, hlt, -⟩ := hok.halfway hh
    rw [ReadCall.count_eq hlt hok.size]
    exact ⟨hok.size, hlt, fun _ => hlen, fun hh => nomatch hh⟩
  writer w hw := (h.writer w hw).advancePos h.ok ((h.reader r hr).halfway hh).2.2
  flow := by
    obtain ⟨passed, hgot, hflow⟩ := h.flow
    have hcont := Stream.contents_advancePos h.ok ((h.reader r hr).halfway hh).2.2
    rw [readHalf_of hr, got_of hr, hh] at hgot
    refine ⟨passed ++ [p.stream.take], ?_, ?_⟩
    · rw [got_of rfl, readHalf_of rfl]
      simpa using hgot
    · rw [hcont] at hflow
      rw [List.append_assoc passed, List.singleton_append]
      exact hflow
  reads := h.reads
  writes := h.writes

theorem readReturn (h : p.Inv first) {r : Reader} (hr : p.reader = some r) (hh : r.half = false) :
    Inv first { p with
      reader := none
      reads := p.reads ++ [(r.taken, toLong r.call.readed)] } where
  ok := h.ok
  reader r' he := nomatch he
  writer := h.writer
  flow := by
    obtain ⟨passed, hgot, hflow⟩ := h.flow
    rw [readHalf_of hr, got_of hr, hh] at hgot
    refine ⟨passed, ?_, hflow⟩
    rw [got_idle rfl, readHalf_idle rfl]
    simpa using hgot
  reads c hc := by
    rw [List.mem_append, List.mem_singleton] at hc
    rcases hc with hc | rfl
    · exact h.reads c hc
    · exact congrArg toLong ((h.reader r hr).atRest hh).symm
  writes := h.writes

theorem writeCall (h : p.Inv first) {data : Nat → UInt8} {size : Nat} (hsize : size < 2 ^ 32)
    (hw : p.writer = none) :
    Inv first { p with writer := some ⟨WriteCall.start p.stream data size, false⟩ } where
  ok := h.ok
  reader := h.reader
  writer w he := by
    cases he
    exact ⟨(WriteCall.start_spec h.ok data hsize).1, Nat.zero_le _, fun hh => nomatch hh⟩
  flow := by
    obtain ⟨passed, hgot, hflow⟩ := h.flow
    rw [writeHalf_idle hw, accepted_idle hw] at hflow
    refine ⟨passed, hgot, ?_⟩
    rw [accepted_of rfl, writeHalf_of rfl]
    simpa [Writer.stored, WriteCall.start, bytesFrom] using hflow
  reads := h.reads
  writes := h.writes

/-- The byte that the reader holds is not the one that the writer overwrites. -/
theorem readHalf_store (h : p.Inv first) (b : UInt8) (w : Option Writer) :
    Pipe.readHalf { p with stream := p.stream.store b, writer := w } = p.readHalf := by
  cases hr : p.reader with
  | none => simp [readHalf, hr]
  | some r =>
    cases hh : r.half with
    | false => simp [readHalf, hr, hh]
    | true =>
      have hne := ((h.reader r hr).halfway hh).2.2
      simp [readHalf, hr, Stream.take, Stream.store, hne]

theorem writeByte (h : p.Inv first) {w : Writer} (hw : p.writer = some w) (hh : w.half = false)
    (hmore : w.call.more p.stream) :
    Inv first { p with
      stream := p.stream.store (w.call.data w.call.writed)
      writer := some { w with half := true } } where
  ok := h.ok.store _
  reader r hr := (h.reader r hr).store _
  writer w' he := by
    cases he
    exact ⟨(h.writer w hw).size, (h.writer w hw).bound,
      fun _ => ⟨hmore, Stream.store_buff_fin p.stream _⟩⟩
  flow := by
    obtain ⟨passed, hgot, hflow⟩ := h.flow
    rw [writeHalf_of hw, accepted_of hw, hh] at hflow
    refine ⟨passed, ?_, ?_⟩
    · rw [readHalf_store h]
      exact hgot
    · rw [accepted_of rfl, writeHalf_of rfl, Stream.contents_store h.ok]
      simp [Writer.stored, hh, bytesFrom_concat] at hflow ⊢
      rw [← List.append_assoc, ← List.append_assoc, List.append_assoc first, hflow,
        List.append_assoc]
  reads := h.reads
  writes := h.writes

theorem writeNext (h : p.Inv first) {w : Writer} (hw : p.writer = some w) (hh : w.half = true) :
    Inv first { p with
      stream := p.stream.advanceFin
      writer := some { call := w.call.count, half := false } } where
  ok := h.ok.advanceFin
  reader r hr := (h.reader r hr).advanceFin ((h.writer w hw).halfway hh).1.2
  writer w' he := by
    cases he
    have hok := h.writer w hw
    obtain ⟨⟨hlt, -⟩, -⟩ := hok.halfway hh
    rw [WriteCall.count_eq hlt hok.size]
    exact ⟨hok.size, hlt, fun hh => nomatch hh⟩
  flow := by
    obtain ⟨passed, hgot, hflow⟩ := h.flow
    have hok := h.writer w hw
    obtain ⟨⟨hlt, hroom⟩, hbyte⟩ := hok.halfway hh
    rw [writeHalf_of hw, accepted_of hw, hh] at hflow
    refine ⟨passed, hgot, ?_⟩
    rw [accepted_of rfl, writeHalf_of rfl, Stream.contents_advanceFin h.ok hroom, hbyte,
      WriteCall.count_eq hlt hok.size]
    simpa [Writer.stored, hh] using hflow
  reads := h.reads
  writes := h.writes

theorem writeReturn (h : p.Inv first) {w : Writer} (hw : p.writer = some w) (hh : w.half = false) :
    Inv first { p with
      writer := none
      writes := p.writes ++ [(w.stored, toLong w.call.writed)] } where
  ok := h.ok
  reader := h.reader
  writer w' he := nomatch he
  flow := by
    obtain ⟨passed, hgot, hflow⟩ := h.flow
    rw [writeHalf_of hw, accepted_of hw, hh] at hflow
    refine ⟨passed, hgot, ?_⟩
    rw [accepted_idle rfl, writeHalf_idle rfl]
    simpa using hflow
  reads := h.reads
  writes c hc := by
    rw [List.mem_append, List.mem_singleton] at hc
    rcases hc with hc | rfl
    · exact h.writes c hc
    · simp [Writer.stored, hh, bytesFrom]

/-- In every state the bytes got are a prefix of those that went in, and at most 127 are under
way. -/
theorem prefix_le (h : p.Inv first) : p.got <+: first ++ p.accepted ∧
    (first ++ p.accepted).length - p.got.length < STREAM_BUFF := by
  obtain ⟨passed, hgot, hflow⟩ := h.flow
  have hlen := h.ok.length_lt
  have hhalf : p.readHalf <+: p.stream.contents := by
    cases hr : p.reader with
    | none => simp [readHalf_idle hr]
    | some r =>
      rw [readHalf_of hr]
      cases hh : r.half with
      | false => exact List.nil_prefix
      | true =>
        rw [Stream.contents_advancePos h.ok ((h.reader r hr).halfway hh).2.2]
        exact ⟨_, rfl⟩
  -- a writer in the middle of an iteration found room for its byte
  have hroom : p.stream.contents.length + p.writeHalf.length < STREAM_BUFF := by
    cases hw : p.writer with
    | none => simpa [writeHalf_idle hw] using hlen
    | some w =>
      rw [writeHalf_of hw]
      cases hh : w.half with
      | false => simpa using hlen
      | true =>
        have hmore := ((h.writer w hw).halfway hh).1.2
        rw [ne_eq, ← Stream.full_iff h.ok] at hmore
        simp only [if_true, List.length_singleton]
        omega
  refine ⟨?_, ?_⟩
  · rw [hgot, hflow, List.append_assoc, List.prefix_append_right_inj]
    exact hhalf.trans (List.prefix_append _ _)
  · rw [hgot, hflow]
    simp only [List.length_append]
    omega

/-- When no iteration is half done, the rest is in the stream. -/
theorem flow_at_rest (h : p.Inv first) (hrest : p.AtRest) :
    first ++ p.accepted = p.got ++ p.stream.contents := by
  obtain ⟨passed, hgot, hflow⟩ := h.flow
  have hr : p.readHalf = [] := by
    cases hr : p.reader with
    | none => exact readHalf_idle hr
    | some r => rw [readHalf_of hr, hrest.1 r hr]; rfl
  have hw : p.writeHalf = [] := by
    cases hw : p.writer with
    | none => exact writeHalf_idle hw
    | some w => rw [writeHalf_of hw, hrest.2 w hw]; rfl
  rw [hr, List.append_nil] at hgot
  rw [hflow, hw, List.append_nil, hgot]

end Pipe.Inv

/-- **Each step keeps the invariant.** -/
theorem pipeStep_inv {first : List UInt8} (p : Pipe) (op : PipeOp) (p' : Pipe) (h : p.Inv first)
    (hstep : pipeStep p op p') : p'.Inv first := by
  cases op with
  | readCall size =>
    obtain ⟨hsize, hr, rfl⟩ := hstep
    exact h.readCall hsize hr
  | readByte =>
    obtain ⟨r, hr, hh, hmore, rfl⟩ := hstep
    exact h.readByte hr hh hmore
  | readNext =>
    obtain ⟨r, hr, hh, rfl⟩ := hstep
    exact h.readNext hr hh
  | readReturn ret =>
    obtain ⟨r, hr, hh, -, rfl, rfl⟩ := hstep
    exact h.readReturn hr hh
  | writeCall data size =>
    obtain ⟨hsize, hw, rfl⟩ := hstep
    exact h.writeCall hsize hw
  | writeByte =>
    obtain ⟨w, hw, hh, hmore, rfl⟩ := hstep
    exact h.writeByte hw hh hmore
  | writeNext =>
    obtain ⟨w, hw, hh, rfl⟩ := hstep
    exact h.writeNext hw hh
  | writeReturn ret =>
    obtain ⟨w, hw, hh, -, rfl, rfl⟩ := hstep
    exact h.writeReturn hw hh

theorem Pipe.Inv.init {s : Stream} (h : s.Ok) : (Pipe.start s).Inv s.contents where
  ok := h
  reader r he := nomatch he
  writer w he := nomatch he
  flow := ⟨[], rfl, by simp [accepted_idle, writeHalf_idle, start]⟩
  reads c hc := nomatch hc
  writes c hc := nomatch hc

/-- **Bytes are never lost, duplicated or reordered.**  Whatever the reader and the writer do, the
bytes got are a prefix of what was in the stream and what was accepted after it; the others, at most
127, are in the stream; and each call returns the number of bytes it moved, as a `long`. -/
theorem pipe_fifo {s : Stream} (h : s.Ok) {ops : List PipeOp} {p : Pipe}
    (run : Run pipeStep (Pipe.start s) ops p) :
    p.got <+: s.contents ++ p.accepted ∧
      (s.contents ++ p.accepted).length - p.got.length ≤ 127 ∧
      (p.AtRest → s.contents ++ p.accepted = p.got ++ p.stream.contents ∧
        streamToread p.stream = (s.contents ++ p.accepted).length - p.got.length) ∧
      p.stream.pos < 128 ∧ p.stream.fin < 128 ∧
      ∀ c ∈ p.reads ++ p.writes,
        c.2 = toLong c.1.length ∧ (c.1.length < 2 ^ 31 → c.2 = c.1.length) := by
  have hinv := run.invariant (Pipe.Inv s.contents) pipeStep_inv (Pipe.Inv.init h)
  obtain ⟨hpre, hle⟩ := hinv.prefix_le
  refine ⟨hpre, Nat.le_of_lt_succ hle, ?_, hinv.ok.pos, hinv.ok.fin, ?_⟩
  · intro hrest
    have hflow := hinv.flow_at_rest hrest
    refine ⟨hflow, ?_⟩
    rw [hinv.ok.toread, hflow, List.length_append, Nat.add_sub_cancel_left]
  · intro c hc
    have hret : c.2 = toLong c.1.length := by
      rw [List.mem_append] at hc
      exact hc.elim (hinv.reads c) (hinv.writes c)
    exact ⟨hret, fun hlt => hret.trans (toLong_of_lt hlt)⟩

/-- A stream as the loader leaves it, with the given indices and bytes. -/
def Stream.holding (b : UInt8) (n : Nat) : Stream := ⟨0, n, fun _ => b⟩

/-- A byte passes while both calls are under way: the reader takes it as soon as `end` covers it. -/
theorem pipe_fifo_handover : ∃ ops p, Run pipeStep (Pipe.start (Stream.holding 7 1)) ops p ∧
    p.got = [7, 65] ∧ p.accepted = [65] ∧ p.got <+: (Stream.holding 7 1).contents ++ p.accepted := by
  have run : ∃ ops p, Run pipeStep (Pipe.start (Stream.holding 7 1)) ops p ∧
      p.got = [7, 65] ∧ p.accepted = [65] := by
    refine ⟨[.readCall 2, .writeCall (fun _ => 65) 2, .readByte, .writeByte, .readNext, .writeNext,
      .readByte], ?p, ?run, ?bytes⟩
    case run =>
      refine .cons ⟨by decide, rfl, rfl⟩ ?_
      refine .cons ⟨by decide, rfl, rfl⟩ ?_
      refine .cons ⟨_, rfl, rfl, by decide +kernel, rfl⟩ ?_
      refine .cons ⟨_, rfl, rfl, by decide +kernel, rfl⟩ ?_
      refine .cons ⟨_, rfl, rfl, rfl⟩ ?_
      refine .cons ⟨_, rfl, rfl, rfl⟩ ?_
      refine .cons ⟨_, rfl, rfl, by decide +kernel, rfl⟩ ?_
      exact .nil _
    case bytes => decide +kernel
  obtain ⟨ops, p, hrun, hgot, hacc⟩ := run
  exact ⟨ops, p, hrun, hgot, hacc, (pipe_fifo ⟨by decide, by decide⟩ hrun).1⟩

/-! ## A write that is not interrupted -/

/-- Iterations of the loop of `stream_write` are steps of the writer. -/
theorem writeLoop_run (n : Nat) {p : Pipe} {w : WriteCall} (hw : p.writer = some ⟨w, false⟩) :
    ∃ ops, Run pipeStep p ops { p with
      stream := (writeLoop n w p.stream).2
      writer := some ⟨(writeLoop n w p.stream).1, false⟩ } := by
  induction n generalizing p w with
  | zero =>
    refine ⟨[], ?_⟩
    rw [writeLoop, ← hw]
    exact .nil p
  | succ n ih =>
    by_cases hmore : w.more p.stream
    · have hiter : w.iter p.stream =
          some (w.count, (p.stream.store (w.data w.writed)).advanceFin) := if_pos hmore
      rw [writeLoop, hiter]
      obtain ⟨ops, hrun⟩ := ih (p := { p with
        stream := (p.stream.store (w.data w.writed)).advanceFin
        writer := some ⟨w.count, false⟩ }) rfl
      exact ⟨.writeByte :: .writeNext :: ops,
        .cons ⟨_, hw, rfl, hmore, rfl⟩ (.cons ⟨_, rfl, rfl, rfl⟩ hrun)⟩
    · have hiter : w.iter p.stream = none := if_neg hmore
      refine ⟨[], ?_⟩
      rw [writeLoop, hiter, ← hw]
      exact .nil p

/-- **`stream_write`** from its call to its return is a run of the writer. -/
theorem streamWrite_run {p : Pipe} (hok : p.stream.Ok) (hidle : p.writer = none)
    (data : Nat → UInt8) {size : Nat} (hsize : size < 2 ^ 32) :
    ∃ ops, Run pipeStep p ops { p with
      stream := (streamWrite p.stream data size).2
      writes := p.writes ++ [(bytesFrom data 0 (min size (STREAM_BUFF - 1 - p.stream.contents.length)),
        (streamWrite p.stream data size).1)] } := by
  obtain ⟨hlt, hmin⟩ := WriteCall.start_spec hok data hsize
  obtain ⟨s', hok', hloop, hcont⟩ := writeLoop_spec (WriteCall.start p.stream data size).size hok hlt
    (Nat.le_add_left _ _) (Nat.zero_le _)
  have h0 : (WriteCall.start p.stream data size).writed = 0 := rfl
  rw [h0, Nat.sub_zero, hmin, Nat.zero_add] at hloop
  rw [h0, Nat.sub_zero, hmin] at hcont
  obtain ⟨ops, hrun⟩ := writeLoop_run (WriteCall.start p.stream data size).size
    (p := { p with writer := some ⟨WriteCall.start p.stream data size, false⟩ }) rfl
  dsimp only at hrun
  rw [hloop] at hrun
  have hresult : streamWrite p.stream data size =
      (toLong (min size (STREAM_BUFF - 1 - p.stream.contents.length)), s') := by
    unfold streamWrite
    dsimp only
    rw [hloop]
  rw [hresult]
  have hlen := congrArg List.length hcont
  rw [List.length_append, bytesFrom, List.length_map, List.length_range] at hlen
  generalize hn : min size (STREAM_BUFF - 1 - p.stream.contents.length) = n at *
  -- the loop ends when everything is written or the stream is full
  have hdone : ¬ WriteCall.more ⟨(WriteCall.start p.stream data size).data,
      (WriteCall.start p.stream data size).size, n⟩ s' := by
    rintro ⟨hmore, hroom⟩
    have hlt' := hok'.length_lt
    rw [ne_eq, ← Stream.full_iff hok', hlen] at hroom
    dsimp only at hmore
    omega
  have hreturn : pipeStep
      { p with
        stream := s'
        writer := some ⟨⟨data, (WriteCall.start p.stream data size).size, n⟩, false⟩ }
      (.writeReturn (toLong n))
      { p with stream := s', writes := p.writes ++ [(bytesFrom data 0 n, toLong n)] } := by
    refine ⟨_, rfl, rfl, hdone, rfl, ?_⟩
    rw [← hidle]
    rfl
  have htail : Run pipeStep _ [.writeReturn (toLong n)] _ := .single hreturn
  have hcall : pipeStep p (.writeCall data size)
      { p with writer := some ⟨WriteCall.start p.stream data size, false⟩ } := ⟨hsize, hidle, rfl⟩
  exact ⟨_, .cons hcall (hrun.append htail)⟩

/-! ## A result that does not fit in a `long` -/

/-- A reader that was asked for 2 GiB has got `n` bytes, and nothing else is under way. -/
def Pipe.Reading (n : Nat) (p : Pipe) : Prop :=
  p.stream.Ok ∧ p.stream.pos = p.stream.fin ∧ p.writer = none ∧
    ∃ taken, p.reader = some ⟨⟨2 ^ 31, n⟩, taken, false⟩ ∧ taken.length = n

/-- The writer sends one byte and the reader takes it. -/
theorem Pipe.Reading.next {n : Nat} (hn : n < 2 ^ 31) {p : Pipe} (h : p.Reading n) :
    ∃ ops p', Run pipeStep p ops p' ∧ p'.Reading (n + 1) := by
  obtain ⟨hok, hempty, hw, taken, hr, hlen⟩ := h
  obtain ⟨s, reader, writer, reads, writes⟩ := p
  dsimp only at hok hempty hw hr
  subst hw hr
  have hf := hok.fin
  have hcont := (Stream.contents_eq_nil_iff hok).mpr hempty
  have hsize : (WriteCall.start s (fun _ => 0) 1).size = 1 := by
    rw [WriteCall.start, hok.toread, hcont]
    decide +kernel
  have hroom : s.pos ≠ add32 s.fin 1 % STREAM_BUFF := by
    rw [ne_eq, ← Stream.full_iff hok, hcont]
    decide
  have hne : s.pos ≠ (s.store 0).advanceFin.fin := hroom
  have h2 : 2 ^ 31 < 2 ^ 32 := by decide
  have hcount : ReadCall.count ⟨2 ^ 31, n⟩ = ⟨2 ^ 31, n + 1⟩ := ReadCall.count_eq hn h2
  refine ⟨[.writeCall (fun _ => 0) 1, .writeByte, .writeNext, .writeReturn 1, .readByte, .readNext],
    ?p, ?run, ?reading⟩
  case run =>
    refine .cons ⟨by decide, rfl, rfl⟩ ?_
    refine .cons ⟨_, rfl, rfl, ⟨?_, hroom⟩, rfl⟩ ?_
    · rw [hsize]
      exact Nat.zero_lt_one
    refine .cons ⟨_, rfl, rfl, rfl⟩ ?_
    refine .cons ⟨_, rfl, rfl, ?_, ?_, rfl⟩ ?_
    · intro hmore
      have hlt : add32 0 1 < (WriteCall.start s (fun _ => 0) 1).size := hmore.1
      rw [hsize, add32_of_lt (by decide)] at hlt
      omega
    · show (1 : Int) = toLong (add32 0 1)
      rw [add32_of_lt (by decide)]
      rfl
    refine .cons ⟨_, rfl, rfl, ⟨hn, hne⟩, rfl⟩ ?_
    refine .cons ⟨_, rfl, rfl, rfl⟩ ?_
    exact .nil _
  case reading =>
    refine ⟨((hok.store 0).advanceFin).advancePos, ?_, rfl,
      taken ++ [((s.store 0).advanceFin).take], ?_, ?_⟩
    · show add32 s.pos 1 % STREAM_BUFF = add32 s.fin 1 % STREAM_BUFF
      rw [hempty]
    · exact congrArg (fun c => some (Reader.mk c _ false)) hcount
    · rw [List.length_append, hlen]
      rfl

/-- The reader of 2 GiB gets there. -/
theorem Pipe.Reading.all (n : Nat) (hn : n ≤ 2 ^ 31) :
    ∃ ops p, Run pipeStep (Pipe.start (Stream.holding 0 0)) ops p ∧ p.Reading n := by
  induction n with
  | zero =>
    refine ⟨[.readCall (2 ^ 31)], _, .single ⟨by decide, rfl, rfl⟩, ⟨by decide, by decide⟩, rfl, rfl,
      [], rfl, rfl⟩
  | succ n ih =>
    obtain ⟨ops, p, hrun, hp⟩ := ih (by omega)
    obtain ⟨ops', p', hrun', hp'⟩ := hp.next hn
    exact ⟨ops ++ ops', p', hrun.append hrun', hp'⟩

/-- A call that moves 2 GiB returns a negative number, and a byte that was in the stream is returned
though no write accepted it. -/
theorem pipe_result_wraps :
    (∃ ops p bs, Run pipeStep (Pipe.start (Stream.holding 0 0)) ops p ∧
      (bs, (-2147483648 : Int)) ∈ p.reads ∧ bs.length = 2147483648) ∧
    ∃ ops p, Run pipeStep (Pipe.start (Stream.holding 7 1)) ops p ∧ p.got = [7] ∧
      p.accepted = [] := by
  refine ⟨?_, [.readCall 1, .readByte], ?p, ?run, ?bytes⟩
  · obtain ⟨ops, p, hrun, -, -, -, taken, hr, hlen⟩ := Pipe.Reading.all (2 ^ 31) (Nat.le_refl _)
    have hdone : ¬ ReadCall.more ⟨2 ^ 31, 2 ^ 31⟩ p.stream := fun hmore => Nat.lt_irrefl _ hmore.1
    have hreturn : pipeStep p (.readReturn (-2147483648))
        { p with reader := none, reads := p.reads ++ [(taken, -2147483648)] } :=
      ⟨_, hr, rfl, hdone, rfl, rfl⟩
    exact ⟨_, _, taken, hrun.append (.single hreturn),
      List.mem_append_right _ (List.mem_singleton_self _), hlen⟩
  case run =>
    refine .cons ⟨by decide, rfl, rfl⟩ ?_
    refine .cons ⟨_, rfl, rfl, by decide +kernel, rfl⟩ ?_
    exact .nil _
  case bytes => decide +kernel

end Moonlight
