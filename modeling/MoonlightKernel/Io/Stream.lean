import MoonlightKernel.Lib.RingBuffer
import MoonlightKernel.Word

/-!
# Streams: `kernel/io/stream.c`

A `struct stream` is a ring buffer of `STREAM_BUFF` bytes with one slot kept empty.  `fin` is the
field `end` of the source.

* `streamToread`, `streamRead`, `streamWrite` — the source functions; `ReadCall.iter` and
  `WriteCall.iter` are one iteration of their loops;
* `Stream.Ok` — both indices are below `STREAM_BUFF`;
* `ReadCall.iter_spec`, `WriteCall.iter_spec` — an iteration takes the oldest byte, or adds one;
* `streamRead_spec`, `streamWrite_spec` — what a whole call moves.
-/

set_option autoImplicit false

namespace Moonlight

open Sys

def STREAM_BUFF : Nat := 128

/-- `struct stream`; its field `next` is used nowhere. -/
structure Stream where
  pos : Nat
  fin : Nat
  buff : Nat → UInt8

/-- `stream_toread`. -/
def streamToread (s : Stream) : Nat :=
  if s.pos ≤ s.fin then sub32 s.fin s.pos else sub32 (add32 s.fin STREAM_BUFF) s.pos

/-! ## The loops -/

/-- The local variables of `stream_read`, without the destination. -/
structure ReadCall where
  size : Nat
  readed : Nat

/-- The test of the loop of `stream_read`. -/
def ReadCall.more (c : ReadCall) (s : Stream) : Prop := c.readed < c.size ∧ s.pos ≠ s.fin

instance (c : ReadCall) (s : Stream) : Decidable (c.more s) := inferInstanceAs (Decidable (_ ∧ _))

/-- The first half of an iteration: the byte for the destination. -/
def Stream.take (s : Stream) : UInt8 := s.buff s.pos

/-- The second half, on the stream and on the count. -/
def Stream.advancePos (s : Stream) : Stream := { s with pos := add32 s.pos 1 % STREAM_BUFF }

def ReadCall.count (c : ReadCall) : ReadCall := { c with readed := add32 c.readed 1 }

/-- One iteration of the loop of `stream_read`. -/
def ReadCall.iter (c : ReadCall) (s : Stream) : Option (UInt8 × ReadCall × Stream) :=
  if c.more s then some (s.take, c.count, s.advancePos) else none

/-- The local variables of `stream_write`; `data` is the argument. -/
structure WriteCall where
  data : Nat → UInt8
  size : Nat
  writed : Nat

/-- The entry of `stream_write`: the size is cut to what `stream_toread` leaves. -/
def WriteCall.start (s : Stream) (data : Nat → UInt8) (size : Nat) : WriteCall where
  data := data
  size := if add32 (streamToread s) size > STREAM_BUFF then sub32 STREAM_BUFF (streamToread s)
    else size
  writed := 0

/-- The test of the loop of `stream_write`. -/
def WriteCall.more (c : WriteCall) (s : Stream) : Prop :=
  c.writed < c.size ∧ s.pos ≠ add32 s.fin 1 % STREAM_BUFF

instance (c : WriteCall) (s : Stream) : Decidable (c.more s) := inferInstanceAs (Decidable (_ ∧ _))

/-- The first half of an iteration: the byte is stored. -/
def Stream.store (s : Stream) (b : UInt8) : Stream :=
  { s with buff := Function.update s.buff s.fin b }

/-- The second half, on the stream and on the count. -/
def Stream.advanceFin (s : Stream) : Stream := { s with fin := add32 s.fin 1 % STREAM_BUFF }

def WriteCall.count (c : WriteCall) : WriteCall := { c with writed := add32 c.writed 1 }

/-- One iteration of the loop of `stream_write`. -/
def WriteCall.iter (c : WriteCall) (s : Stream) : Option (WriteCall × Stream) :=
  if c.more s then some (c.count, (s.store (c.data c.writed)).advanceFin) else none

/-- A `size_t` returned as a `long`. -/
def toLong (n : Nat) : Int := if n < 2 ^ 31 then n else (n : Int) - (2 ^ 32 : Nat)

theorem toLong_of_lt {n : Nat} (h : n < 2 ^ 31) : toLong n = n := if_pos h

/-! ## The calls -/

/-- The loop of `stream_read`, at most `n` iterations of it. -/
def readLoop : Nat → ReadCall → Stream → List UInt8 × ReadCall × Stream
  | 0, c, s => ([], c, s)
  | n + 1, c, s =>
    match c.iter s with
    | none => ([], c, s)
    | some (b, c, s) => let r := readLoop n c s; (b :: r.1, r.2)

/-- `stream_read`: the bytes stored at `data`, the result, and the stream. -/
def streamRead (s : Stream) (size : Nat) : List UInt8 × Int × Stream :=
  let r := readLoop size ⟨size, 0⟩ s
  (r.1, toLong r.2.1.readed, r.2.2)

/-- The loop of `stream_write`, at most `n` iterations of it. -/
def writeLoop : Nat → WriteCall → Stream → WriteCall × Stream
  | 0, c, s => (c, s)
  | n + 1, c, s =>
    match c.iter s with
    | none => (c, s)
    | some (c, s) => writeLoop n c s

/-- `stream_write`: the result and the stream. -/
def streamWrite (s : Stream) (data : Nat → UInt8) (size : Nat) : Int × Stream :=
  let c := WriteCall.start s data size
  let r := writeLoop c.size c s
  (toLong r.1.writed, r.2)

/-! ## One iteration -/

namespace Stream

/-- The indices are in range. -/
structure Ok (s : Stream) : Prop where
  pos : s.pos < STREAM_BUFF
  fin : s.fin < STREAM_BUFF

/-- The bytes in the stream, the oldest first. -/
def contents (s : Stream) : List UInt8 := RingBuffer.contents STREAM_BUFF s.buff s.pos s.fin

/-- **`stream_toread`** is the number of bytes in the stream. -/
theorem Ok.toread {s : Stream} (h : s.Ok) : streamToread s = s.contents.length := by
  have hp := h.pos
  have hf := h.fin
  rw [contents, RingBuffer.length_contents, RingBuffer.length_eq hp hf, streamToread]
  unfold STREAM_BUFF at *
  split
  · rw [sub32_of_le (by omega) (by omega)]
  · rw [add32_of_lt (by omega), sub32_of_le (by omega) (by omega)]

theorem Ok.length_lt {s : Stream} (_ : s.Ok) : s.contents.length < STREAM_BUFF := by
  rw [contents, RingBuffer.length_contents]
  exact RingBuffer.length_lt (by decide)

theorem next_index {i : Nat} (h : i < STREAM_BUFF) : add32 i 1 % STREAM_BUFF = (i + 1) % STREAM_BUFF := by
  rw [add32_of_lt (by unfold STREAM_BUFF at h; omega)]

theorem contents_eq_nil_iff {s : Stream} (h : s.Ok) : s.contents = [] ↔ s.pos = s.fin :=
  RingBuffer.contents_eq_nil_iff h.pos h.fin

/-- There is no room when 127 bytes are in the stream. -/
theorem full_iff {s : Stream} (h : s.Ok) :
    s.contents.length = STREAM_BUFF - 1 ↔ s.pos = add32 s.fin 1 % STREAM_BUFF := by
  rw [next_index h.fin, contents, RingBuffer.length_contents]
  exact RingBuffer.full_iff h.pos h.fin

/-! ### The halves of an iteration -/

theorem Ok.advancePos {s : Stream} (h : s.Ok) : s.advancePos.Ok := ⟨Nat.mod_lt _ (by decide), h.fin⟩

theorem Ok.advanceFin {s : Stream} (h : s.Ok) : s.advanceFin.Ok := ⟨h.pos, Nat.mod_lt _ (by decide)⟩

theorem Ok.store {s : Stream} (h : s.Ok) (b : UInt8) : (s.store b).Ok := ⟨h.pos, h.fin⟩

theorem contents_advancePos {s : Stream} (h : s.Ok) (hne : s.pos ≠ s.fin) :
    s.contents = s.take :: s.advancePos.contents := by
  rw [contents, RingBuffer.contents_eq_cons h.pos h.fin hne, ← next_index h.pos]
  rfl

theorem contents_store {s : Stream} (h : s.Ok) (b : UInt8) : (s.store b).contents = s.contents :=
  RingBuffer.contents_store h.pos h.fin b

theorem contents_advanceFin {s : Stream} (h : s.Ok) (hroom : s.pos ≠ add32 s.fin 1 % STREAM_BUFF) :
    s.advanceFin.contents = s.contents ++ [s.buff s.fin] := by
  rw [next_index h.fin] at hroom
  have he : RingBuffer.contents _ s.buff _ _ = _ :=
    RingBuffer.contents_extend h.pos h.fin hroom
  rw [← next_index h.fin] at he
  exact he

@[simp] theorem store_buff_fin (s : Stream) (b : UInt8) : (s.store b).buff s.fin = b :=
  Function.update_self ..

end Stream

theorem ReadCall.count_eq {c : ReadCall} (hlt : c.readed < c.size) (hc : c.size < 2 ^ 32) :
    c.count = ⟨c.size, c.readed + 1⟩ := by
  rw [count, add32_of_lt (by omega)]

theorem WriteCall.count_eq {c : WriteCall} (hlt : c.writed < c.size) (hc : c.size < 2 ^ 32) :
    c.count = ⟨c.data, c.size, c.writed + 1⟩ := by
  rw [count, add32_of_lt (by omega)]

/-- **One iteration of `stream_read`** takes the oldest byte; there is none when all are read or
the stream is empty. -/
theorem ReadCall.iter_spec {c : ReadCall} {s : Stream} (h : s.Ok) (hc : c.size < 2 ^ 32) :
    (c.iter s = none ∧ (c.size ≤ c.readed ∨ s.contents = [])) ∨
      ∃ b s', c.iter s = some (b, ⟨c.size, c.readed + 1⟩, s') ∧ c.readed < c.size ∧ s'.Ok ∧
        s.contents = b :: s'.contents := by
  unfold iter
  split
  · rename_i hgo
    rw [count_eq hgo.1 hc]
    exact .inr ⟨_, _, rfl, hgo.1, h.advancePos, Stream.contents_advancePos h hgo.2⟩
  · rename_i hstop
    rw [more, not_and_or, Nat.not_lt, not_not] at hstop
    exact .inl ⟨rfl, hstop.imp_right (Stream.contents_eq_nil_iff h).mpr⟩

/-- **One iteration of `stream_write`** adds a byte behind the others; there is none when all are
written or 127 bytes are in the stream. -/
theorem WriteCall.iter_spec {c : WriteCall} {s : Stream} (h : s.Ok) (hc : c.size < 2 ^ 32) :
    (c.iter s = none ∧ (c.size ≤ c.writed ∨ s.contents.length = STREAM_BUFF - 1)) ∨
      ∃ s', c.iter s = some (⟨c.data, c.size, c.writed + 1⟩, s') ∧ c.writed < c.size ∧ s'.Ok ∧
        s'.contents = s.contents ++ [c.data c.writed] := by
  unfold iter
  split
  · rename_i hgo
    have hstored := h.store (c.data c.writed)
    rw [count_eq hgo.1 hc]
    refine .inr ⟨_, rfl, hgo.1, hstored.advanceFin, ?_⟩
    rw [Stream.contents_advanceFin hstored hgo.2, Stream.contents_store h]
    exact congrArg (s.contents ++ [·]) (Stream.store_buff_fin s _)
  · rename_i hstop
    rw [more, not_and_or, Nat.not_lt, not_not] at hstop
    exact .inl ⟨rfl, hstop.imp_right (Stream.full_iff h).mpr⟩

/-! ## Whole calls -/

theorem readLoop_spec (n : Nat) : ∀ {c : ReadCall} {s : Stream}, s.Ok → c.size < 2 ^ 32 →
    c.size ≤ c.readed + n → c.readed ≤ c.size → ∃ s', s'.Ok ∧
      readLoop n c s = (s.contents.take (c.size - c.readed),
        ⟨c.size, c.readed + min (c.size - c.readed) s.contents.length⟩, s') ∧
      s'.contents = s.contents.drop (c.size - c.readed) := by
  induction n with
  | zero =>
    intro c s h _ hn hle
    have h0 : c.size - c.readed = 0 := by omega
    refine ⟨s, h, ?_, by rw [h0, List.drop_zero]⟩
    rw [h0, List.take_zero, Nat.zero_min, Nat.add_zero, readLoop]
  | succ n ih =>
    intro c s h hc hn hle
    rw [readLoop]
    rcases ReadCall.iter_spec h hc with ⟨he, hend⟩ | ⟨b, s₁, he, hlt, h₁, hcont⟩
    · rw [he]
      refine ⟨s, h, ?_, ?_⟩
      · rcases hend with hend | hend
        · rw [Nat.sub_eq_zero_of_le hend, List.take_zero, Nat.zero_min, Nat.add_zero]
        · rw [hend, List.take_nil, List.length_nil, Nat.min_zero, Nat.add_zero]
      · rcases hend with hend | hend
        · rw [Nat.sub_eq_zero_of_le hend, List.drop_zero]
        · rw [hend, List.drop_nil]
    · rw [he]
      obtain ⟨s₂, h₂, hloop, hrest⟩ := ih (c := ⟨c.size, c.readed + 1⟩) h₁ hc
        (by dsimp only; omega) hlt
      have hleft : c.size - c.readed = c.size - (c.readed + 1) + 1 := by omega
      refine ⟨s₂, h₂, ?_, ?_⟩
      · dsimp only
        rw [hloop, hcont, hleft, List.take_succ_cons, List.length_cons]
        dsimp only
        rw [Nat.add_min_add_right, Nat.add_assoc, Nat.add_comm 1]
      · rw [hrest, hcont, hleft, List.drop_succ_cons]

/-- **`stream_read`** takes as many of the oldest bytes as it is asked for and finds. -/
theorem streamRead_spec {s : Stream} (h : s.Ok) {size : Nat} (hsize : size < 2 ^ 32) :
    ∃ s', s'.Ok ∧ streamRead s size =
        (s.contents.take size, toLong (min size s.contents.length), s') ∧
      s'.contents = s.contents.drop size := by
  obtain ⟨s', h', hloop, hcont⟩ := readLoop_spec size (c := ⟨size, 0⟩) h hsize
    (by dsimp only; omega) (Nat.zero_le _)
  dsimp only at hloop hcont
  rw [Nat.sub_zero] at hloop hcont
  refine ⟨s', h', ?_, hcont⟩
  unfold streamRead
  rw [hloop, Nat.zero_add]

/-- The first `n` bytes of an array, from `i` on. -/
def bytesFrom (data : Nat → UInt8) (i n : Nat) : List UInt8 := (List.range n).map fun j => data (i + j)

theorem bytesFrom_succ (data : Nat → UInt8) (i n : Nat) :
    bytesFrom data i (n + 1) = data i :: bytesFrom data (i + 1) n := by
  unfold bytesFrom
  rw [List.range_succ_eq_map, List.map_cons, List.map_map, Nat.add_zero]
  refine congrArg _ (List.map_congr_left fun j _ => ?_)
  simp only [Function.comp_apply]
  congr 1
  omega

theorem bytesFrom_concat (data : Nat → UInt8) (i n : Nat) :
    bytesFrom data i (n + 1) = bytesFrom data i n ++ [data (i + n)] := by
  simp [bytesFrom, List.range_succ]

@[simp] theorem length_bytesFrom (data : Nat → UInt8) (i n : Nat) : (bytesFrom data i n).length = n := by
  simp [bytesFrom]

theorem bytesFrom_take (data : Nat → UInt8) (i : Nat) {n m : Nat} (h : m ≤ n) :
    (bytesFrom data i n).take m = bytesFrom data i m := by
  rw [bytesFrom, ← List.map_take, List.take_range, Nat.min_eq_left h, bytesFrom]

theorem bytesFrom_congr {data data' : Nat → UInt8} {n : Nat} (h : ∀ i < n, data i = data' i) :
    bytesFrom data 0 n = bytesFrom data' 0 n := by
  refine List.map_congr_left fun i hi => ?_
  rw [Nat.zero_add]
  exact h i (List.mem_range.mp hi)

theorem writeLoop_spec (n : Nat) : ∀ {c : WriteCall} {s : Stream}, s.Ok → c.size < 2 ^ 32 →
    c.size ≤ c.writed + n → c.writed ≤ c.size → ∃ s', s'.Ok ∧
      writeLoop n c s = (⟨c.data, c.size,
        c.writed + min (c.size - c.writed) (STREAM_BUFF - 1 - s.contents.length)⟩, s') ∧
      s'.contents = s.contents ++ bytesFrom c.data c.writed
        (min (c.size - c.writed) (STREAM_BUFF - 1 - s.contents.length)) := by
  induction n with
  | zero =>
    intro c s h _ hn hle
    have h0 : c.size - c.writed = 0 := by omega
    refine ⟨s, h, ?_, ?_⟩
    · rw [h0, Nat.zero_min, Nat.add_zero, writeLoop]
    · rw [h0, Nat.zero_min]
      exact (List.append_nil _).symm
  | succ n ih =>
    intro c s h hc hn hle
    rw [writeLoop]
    rcases WriteCall.iter_spec h hc with ⟨he, hend⟩ | ⟨s₁, he, hlt, h₁, hcont⟩
    · have h0 : min (c.size - c.writed) (STREAM_BUFF - 1 - s.contents.length) = 0 := by omega
      rw [he, h0]
      exact ⟨s, h, rfl, (List.append_nil _).symm⟩
    · rw [he]
      obtain ⟨s₂, h₂, hloop, hrest⟩ := ih (c := ⟨c.data, c.size, c.writed + 1⟩) h₁ hc
        (by dsimp only; omega) hlt
      dsimp only at hloop hrest
      have hroom := h₁.length_lt
      have hlen : s₁.contents.length = s.contents.length + 1 := by
        rw [hcont, List.length_append, List.length_singleton]
      -- one byte more than what the rest of the loop writes
      have hcount : min (c.size - c.writed) (STREAM_BUFF - 1 - s.contents.length) =
          min (c.size - (c.writed + 1)) (STREAM_BUFF - 1 - s₁.contents.length) + 1 := by
        omega
      generalize min (c.size - (c.writed + 1)) (STREAM_BUFF - 1 - s₁.contents.length) = m
        at hloop hrest hcount
      refine ⟨s₂, h₂, ?_, ?_⟩
      · dsimp only
        rw [hloop, hcount, Nat.add_assoc, Nat.add_comm 1]
      · rw [hrest, hcont, hcount, bytesFrom_succ, List.append_assoc, List.singleton_append]

/-- The cut of the size never costs a byte that the loop could have written, whether the sum in the
test wraps or not. -/
theorem WriteCall.start_spec {s : Stream} (h : s.Ok) (data : Nat → UInt8) {size : Nat}
    (hsize : size < 2 ^ 32) : (WriteCall.start s data size).size < 2 ^ 32 ∧
      min (WriteCall.start s data size).size (STREAM_BUFF - 1 - s.contents.length) =
        min size (STREAM_BUFF - 1 - s.contents.length) := by
  have hlt := h.length_lt
  unfold WriteCall.start
  dsimp only
  rw [h.toread]
  unfold STREAM_BUFF at *
  split
  · rename_i hcut
    rw [sub32_of_le (by omega) (by omega)]
    have hbig : 128 < s.contents.length + size := by
      unfold add32 at hcut
      omega
    omega
  · exact ⟨hsize, rfl⟩

/-- **`stream_write`** adds as many bytes as it is given and finds room for. -/
theorem streamWrite_spec {s : Stream} (h : s.Ok) (data : Nat → UInt8) {size : Nat}
    (hsize : size < 2 ^ 32) :
    ∃ s', s'.Ok ∧ streamWrite s data size =
        (toLong (min size (STREAM_BUFF - 1 - s.contents.length)), s') ∧
      s'.contents = s.contents ++ bytesFrom data 0 (min size (STREAM_BUFF - 1 - s.contents.length)) := by
  obtain ⟨hlt, hmin⟩ := WriteCall.start_spec h data hsize
  obtain ⟨s', h', hloop, hcont⟩ := writeLoop_spec (WriteCall.start s data size).size h hlt
    (Nat.le_add_left _ _) (Nat.zero_le _)
  have h0 : (WriteCall.start s data size).writed = 0 := rfl
  rw [h0, Nat.sub_zero, hmin, Nat.zero_add] at hloop
  rw [h0, Nat.sub_zero, hmin] at hcont
  refine ⟨s', h', ?_, hcont⟩
  unfold streamWrite
  dsimp only
  rw [hloop]

end Moonlight
