import Mathlib.Algebra.Group.Nat.Basic
import Mathlib.Data.List.Basic

/-!
# Streams of the renter-host protocol

A `mux.Stream` is the bytes it has yet to deliver, in the pieces its reads return: a read gets at
most the rest of the current piece, so every way of splitting the stream into `Read` results is
some list of pieces. The `stream` wrapper reads the subscriber response once, before the first
read it serves, and from then on answers every read with the error that response left.
Fixed-width integers on the wire are little-endian.
-/

namespace Renterd.Rhp

/-! ## Little-endian integers -/

/-- The `width` little-endian bytes of `n`, as `binary.LittleEndian.PutUint64` writes for width 8. -/
def encodeLE : Nat → Nat → List UInt8
  | 0, _ => []
  | width + 1, n => UInt8.ofNat (n % 256) :: encodeLE width (n / 256)

/-- `binary.LittleEndian.Uint64` of 8 bytes. -/
def decodeLE : List UInt8 → Nat
  | [] => 0
  | byte :: rest => byte.toNat + 256 * decodeLE rest

@[simp] theorem length_encodeLE (width n : Nat) : (encodeLE width n).length = width := by
  induction width generalizing n with
  | zero => rfl
  | succ width ih => simp [encodeLE, ih]

theorem decodeLE_encodeLE (width n : Nat) : decodeLE (encodeLE width n) = n % 256 ^ width := by
  induction width generalizing n with
  | zero => simp [encodeLE, decodeLE, Nat.mod_one]
  | succ width ih =>
      have byte : (UInt8.ofNat (n % 256)).toNat = n % 256 := Nat.mod_mod _ _
      rw [encodeLE, decodeLE, ih, byte, Nat.pow_succ', Nat.mod_mul]

/-! ## `io.ReadFull` over a `mux.Stream` -/

/-- How a read ends when it does not return what it was asked for. -/
inductive ReadError where
  /-- `io.EOF`: the stream ended before the first byte. -/
  | eof
  /-- `io.ErrUnexpectedEOF`: the stream ended after some bytes. -/
  | unexpectedEOF
  /-- `errors.New(string(buf))` of a subscriber response. -/
  | text (msg : List UInt8)
  /-- An error the decoder sets. -/
  | decode (msg : String)
  /-- A runtime panic: it unwinds the goroutine, and the model carries it up as the result. -/
  | panic (msg : String)
  /-- A fatal runtime error: it ends the process, and the model carries it up as the result. -/
  | fatal (msg : String)
  deriving DecidableEq, Repr

/-- `io.ReadFull(s, buf)` with `len(buf) = want` on a `mux.Stream`: reads until `want` bytes
arrived; the pieces left. -/
def readFull : List (List UInt8) → Nat → Except ReadError (List UInt8) × List (List UInt8)
  | pieces, 0 => (.ok [], pieces)
  | [], _ + 1 => (.error .eof, [])
  | piece :: rest, want + 1 =>
      if want + 1 ≤ piece.length then
        (.ok (piece.take (want + 1)), piece.drop (want + 1) :: rest)
      else
        let (read, rest) := readFull rest (want + 1 - piece.length)
        (match read with
          | .ok bytes => .ok (piece ++ bytes)
          | .error .eof => .error (if piece.isEmpty then .eof else .unexpectedEOF)
          | .error err => .error err, rest)

@[simp] theorem readFull_zero (pieces : List (List UInt8)) : readFull pieces 0 = (.ok [], pieces) := by
  cases pieces <;> rfl

/-- With enough bytes in the first pieces, `io.ReadFull` returns the next `want` of them however
they are cut, and leaves the pieces after them as they are. -/
theorem readFull_append (pieces later : List (List UInt8)) (want : Nat)
    (enough : want ≤ pieces.flatten.length) :
    ∃ left, readFull (pieces ++ later) want = (.ok (pieces.flatten.take want), left ++ later) ∧
      left.flatten = pieces.flatten.drop want := by
  induction pieces generalizing want with
  | nil => simp at enough; subst enough; exact ⟨[], by simp, rfl⟩
  | cons piece rest ih =>
      cases want with
      | zero => exact ⟨piece :: rest, rfl, rfl⟩
      | succ want =>
          rw [List.flatten_cons] at enough ⊢
          by_cases fits : want + 1 ≤ piece.length
          · refine ⟨piece.drop (want + 1) :: rest, ?_, ?_⟩
            · rw [List.cons_append, readFull, if_pos fits, List.take_append_of_le_length fits]
              rfl
            · rw [List.flatten_cons, List.drop_append_of_le_length fits]
          · rw [List.length_append] at enough
            obtain ⟨left, read, flat⟩ := ih (want + 1 - piece.length) (by omega)
            refine ⟨left, ?_, ?_⟩
            · rw [List.cons_append, readFull, if_neg fits, read, List.take_append_eq_append_take,
                List.take_of_length_le (by omega : piece.length ≤ want + 1)]
            · rw [flat, List.drop_append_eq_append_drop,
                List.drop_of_length_le (by omega : piece.length ≤ want + 1), List.nil_append]

/-- With enough bytes in the stream, `io.ReadFull` returns the next `want` of them however the
stream is cut into pieces, and leaves the rest. -/
theorem readFull_flatten (pieces : List (List UInt8)) (want : Nat)
    (enough : want ≤ pieces.flatten.length) :
    (readFull pieces want).1 = .ok (pieces.flatten.take want) ∧
      (readFull pieces want).2.flatten = pieces.flatten.drop want := by
  obtain ⟨left, read, flat⟩ := readFull_append pieces [] want enough
  rw [List.append_nil, List.append_nil] at read
  rw [read]
  exact ⟨rfl, flat⟩

/-! ## The `stream` wrapper -/

/-- A `stream`: the underlying stream's pieces, whether `once` has run, and
`readSubscriberResponseErr`; with the bytes the Go runtime can still allocate while the stream
is read. -/
structure Stream where
  pieces : List (List UInt8)
  once : Bool
  subscriberErr : Option ReadError
  heap : Nat

/-- `maxAlloc` of the Go runtime on 64-bit Linux: the longest byte slice `make` accepts. -/
def maxAlloc : Nat := 2 ^ 48

/-- The panic of `make([]byte, n)` for an `n` above `maxAlloc`. -/
def makesliceLen : String := "runtime error: makeslice: len out of range"

/-- The fatal error of `make([]byte, n)` for an `n` within `maxAlloc` that the runtime cannot
allocate. -/
def outOfMemory : String := "runtime: out of memory"

/-- `readSubscriberResponse`: 16 bytes whose last 8 are the error length, then a buffer of that
length made and filled with the error text. `make` panics above `maxAlloc` and ends the process
above what the runtime can allocate. -/
def Stream.readSubscriberResponse (s : Stream) : Stream :=
  match readFull s.pieces 16 with
  | (.error err, rest) => ⟨rest, true, some err, s.heap⟩
  | (.ok buf, rest) =>
      let errLen := decodeLE (buf.drop 8)
      if errLen = 0 then ⟨rest, true, none, s.heap⟩
      else if maxAlloc < errLen then ⟨rest, true, some (.panic makesliceLen), s.heap⟩
      else if s.heap < errLen then ⟨rest, true, some (.fatal outOfMemory), s.heap⟩
      else
        match readFull rest errLen with
        | (.error err, rest) => ⟨rest, true, some err, s.heap⟩
        | (.ok text, rest) => ⟨rest, true, some (.text text), s.heap⟩

/-- The stream once `s.once.Do(s.readSubscriberResponse)` has run. -/
def Stream.acked (s : Stream) : Stream :=
  if s.once then s else s.readSubscriberResponse

/-- `mux.Stream.Read(b)` with `len(b) = size`: it waits for a piece with bytes, and returns at
most the rest of it. -/
def muxRead : List (List UInt8) → Nat → (List UInt8 × Option ReadError) × List (List UInt8)
  | [], _ => (([], some .eof), [])
  | [] :: rest, size => muxRead rest size
  | piece :: rest, size =>
      if size < piece.length then ((piece.take size, none), piece.drop size :: rest)
      else ((piece, none), rest)

/-- A `Read` waits past pieces with no bytes left. -/
theorem muxRead_skip {empty : List (List UInt8)} (drained : empty.flatten = [])
    (pieces : List (List UInt8)) (size : Nat) : muxRead (empty ++ pieces) size = muxRead pieces size := by
  induction empty with
  | nil => rfl
  | cons piece empty ih =>
      obtain ⟨rfl, rest⟩ := List.append_eq_nil.mp drained
      exact ih rest

/-- A `Read` on a piece with bytes returns as many of them as it asks for. -/
theorem muxRead_cons {piece : List UInt8} (bytes : piece ≠ []) (pieces : List (List UInt8))
    (size : Nat) : (muxRead (piece :: pieces) size).1 = (piece.take size, none) := by
  obtain ⟨c, cs, rfl⟩ := List.exists_cons_of_ne_nil bytes
  simp only [muxRead]
  split_ifs with within
  · rfl
  · rw [List.take_of_length_le (by omega)]

/-- `stream.Read(b)` with `len(b) = size`. -/
def Stream.Read (s : Stream) (size : Nat) : (List UInt8 × Option ReadError) × Stream :=
  let s := s.acked
  match s.subscriberErr with
  | some err => (([], some err), s)
  | none =>
      let (read, rest) := muxRead s.pieces size
      (read, { s with pieces := rest })

/-- Successive `stream.Read` calls of the given sizes. -/
def Stream.reads (s : Stream) : List Nat → List (List UInt8 × Option ReadError) × Stream
  | [] => ([], s)
  | size :: sizes =>
      let (first, s) := s.Read size
      let (rest, s) := s.reads sizes
      (first :: rest, s)

/-- `io.ReadFull(&io.LimitedReader{R: s, N: limit}, buf)` with `len(buf) = want`, as a decoder
reads: no read when `want` is zero; `io.EOF` without touching `s` when the limit is spent; else
the first read runs `once`, fails with the subscriber error if there is one, and the reads go on
through the underlying stream until `want` bytes or the limit. Also the limit left. -/
def Stream.readLimited (s : Stream) (limit want : Nat) :
    Except ReadError (List UInt8) × Stream × Nat :=
  if want = 0 then (.ok [], s, limit)
  else if limit = 0 then (.error .eof, s, limit)
  else
    let s := s.acked
    match s.subscriberErr with
    | some err => (.error err, s, limit)
    | none =>
        let (read, rest) := readFull s.pieces (min want limit)
        let s := { s with pieces := rest }
        match read with
        | .error err => (.error err, s, 0)
        | .ok bytes =>
            if limit < want then (.error .unexpectedEOF, s, 0) else (.ok bytes, s, limit - want)

/-! ## Reading after the subscriber response -/

section Acked

variable {s : Stream}

theorem readSubscriberResponse_once : s.readSubscriberResponse.once = true := by
  simp only [Stream.readSubscriberResponse]
  split
  · rfl
  · split_ifs
    all_goals (try split) <;> rfl

@[simp] theorem acked_once : s.acked.once = true := by
  unfold Stream.acked
  split
  · assumption
  · exact readSubscriberResponse_once

theorem acked_acked : s.acked.acked = s.acked := by
  rw [Stream.acked, if_pos acked_once]

/-- A read that asks for bytes within the limit meets the subscriber response first. -/
theorem readLimited_acked {limit want : Nat} (asks : want ≠ 0) (left : limit ≠ 0) :
    s.readLimited limit want = s.acked.readLimited limit want := by
  simp only [Stream.readLimited, if_neg asks, if_neg left, acked_acked]

/-- On a stream past a clean subscriber response, a read within the limit and the first pieces
returns the next `want` bytes and leaves the pieces after them as they are. -/
theorem readLimited_append {limit want : Nat} {pieces later : List (List UInt8)}
    (once : s.once = true) (clean : s.subscriberErr = none) (cut : s.pieces = pieces ++ later)
    (within : want ≤ limit) (enough : want ≤ pieces.flatten.length) :
    ∃ left, s.readLimited limit want =
        (.ok (pieces.flatten.take want), { s with pieces := left ++ later }, limit - want) ∧
      left.flatten = pieces.flatten.drop want := by
  obtain ⟨left, read, flat⟩ := readFull_append pieces later want enough
  refine ⟨left, ?_, flat⟩
  by_cases asks : want = 0
  · subst asks
    simp only [readFull_zero, Prod.mk.injEq] at read
    simp [Stream.readLimited, ← read.2, ← cut]
  · have acked : s.acked = s := by rw [Stream.acked, if_pos once]
    simp only [Stream.readLimited, if_neg asks, if_neg (by omega : limit ≠ 0), acked, clean,
      Nat.min_eq_left within, cut, read, if_neg (by omega : ¬limit < want)]

/-- On a stream past a clean subscriber response, a read within the limit and the stream returns
the next `want` bytes and leaves the rest. -/
theorem readLimited_flatten {limit want : Nat} (once : s.once = true)
    (clean : s.subscriberErr = none) (within : want ≤ limit)
    (enough : want ≤ s.pieces.flatten.length) :
    ∃ pieces, s.readLimited limit want =
        (.ok (s.pieces.flatten.take want), { s with pieces := pieces }, limit - want) ∧
      pieces.flatten = s.pieces.flatten.drop want := by
  obtain ⟨left, read, flat⟩ := readLimited_append once clean (List.append_nil _).symm within enough
  exact ⟨left ++ [], read, by rw [List.append_nil, flat]⟩

/-- After a subscriber response that carried an error, every read returns that error and reads
nothing. -/
theorem reads_failed {err : ReadError} (once : s.once = true) (failed : s.subscriberErr = some err)
    (sizes : List Nat) : s.reads sizes = (sizes.map fun _ => ([], some err), s) := by
  have acked : s.acked = s := by rw [Stream.acked, if_pos once]
  induction sizes with
  | nil => rfl
  | cons size sizes ih => simp only [Stream.reads, Stream.Read, acked, failed, ih, List.map_cons]

/-- A subscriber response: 8 reserved bytes and the error length. -/
def subscriberResponse (reserved : List UInt8) (errLen : Nat) : List UInt8 :=
  reserved ++ encodeLE 8 errLen

/-- The subscriber response, read on the first read, leaves the bytes after it and the error it
carries: none for length 0, else its text, when the runtime can allocate it. The pieces after the
ones it is read from stay as they are. -/
theorem acked_subscriberResponse {pieces later : List (List UInt8)} {reserved text more : List UInt8}
    {heap : Nat} (reservedLen : reserved.length = 8) (textLen : text.length ≤ maxAlloc)
    (served : text.length ≤ heap)
    (flat : pieces.flatten = subscriberResponse reserved text.length ++ text ++ more) :
    ∃ rest, (⟨pieces ++ later, false, none, heap⟩ : Stream).acked =
        ⟨rest ++ later, true, if text = [] then none else some (.text text), heap⟩ ∧
      rest.flatten = more := by
  have frameLen : (subscriberResponse reserved text.length).length = 16 := by
    simp [subscriberResponse, reservedLen]
  obtain ⟨rest, read, after⟩ := readFull_append pieces later 16 (by simp [flat, frameLen])
  have errLen : decodeLE ((pieces.flatten.take 16).drop 8) = text.length := by
    rw [flat, List.append_assoc, List.take_left' frameLen, subscriberResponse,
      List.drop_left' reservedLen, decodeLE_encodeLE,
      Nat.mod_eq_of_lt (lt_of_le_of_lt textLen (by decide))]
  rw [flat, List.append_assoc, List.drop_left' frameLen] at after
  simp only [Stream.acked, Stream.readSubscriberResponse, Bool.false_eq_true, if_false, read, errLen]
  by_cases empty : text = []
  · subst empty
    exact ⟨rest, by simp, by simpa using after⟩
  · obtain ⟨rest', read', after'⟩ := readFull_append rest later text.length (by simp [after])
    refine ⟨rest', ?_, by rw [after', after, List.drop_left' rfl]⟩
    simp [List.length_eq_zero, empty, Nat.not_lt.mpr textLen, Nat.not_lt.mpr served, read', after,
      List.take_left' rfl]

end Acked

end Renterd.Rhp
