import Renterd.Rhp.Stream

/-!
# Responses

`writeResponse` and `readResponse`. A `types.Decoder` is the program it runs: reads of a number of
bytes, a look at the limit left, and failure; `readResponse` runs it through a `LimitedReader` of
`1 << 20` bytes over the stream. A protocol object is a type with an encoding that its decoder
reads back exactly, whatever follows it. A response frame carries either such an object or the
host's `RPCError`, and both are read back frame by frame.
-/

namespace Renterd.Rhp

/-- A decoding program. -/
inductive Decoder (α : Type) where
  | done (value : α)
  | fail (msg : String)
  | read (n : Nat) (next : List UInt8 → Decoder α)
  /-- `d.lr.N`, the bytes the limit leaves. -/
  | remaining (next : Nat → Decoder α)

namespace Decoder

variable {α β : Type}

def bind : Decoder α → (α → Decoder β) → Decoder β
  | done value, f => f value
  | fail msg, _ => fail msg
  | read n next, f => read n fun bytes => (next bytes).bind f
  | remaining next, f => remaining fun left => (next left).bind f

instance : Monad Decoder where
  pure := done
  bind := bind

/-- The decoder on a list of bytes under a limit: the value, the bytes after it, the limit
left. -/
def parse : Decoder α → List UInt8 → Nat → Except String (α × List UInt8 × Nat)
  | done value, bytes, limit => .ok (value, bytes, limit)
  | fail msg, _, _ => .error msg
  | read n next, bytes, limit =>
      if n ≤ limit ∧ n ≤ bytes.length then (next (bytes.take n)).parse (bytes.drop n) (limit - n)
      else .error "short read"
  | remaining next, bytes, limit => (next limit).parse bytes limit

/-- The decoder through a `LimitedReader` over a stream; the first error stops it. -/
def run : Decoder α → Stream → Nat → Except ReadError α × Stream × Nat
  | done value, s, limit => (.ok value, s, limit)
  | fail msg, s, limit => (.error (.decode msg), s, limit)
  | read n next, s, limit =>
      match s.readLimited limit n with
      | (.ok bytes, s, limit) => (next bytes).run s limit
      | (.error err, s, limit) => (.error err, s, limit)
  | remaining next, s, limit => (next limit).run s limit

@[simp] theorem parse_done (value : α) (bytes : List UInt8) (limit : Nat) :
    (done value).parse bytes limit = .ok (value, bytes, limit) := rfl

theorem parse_read {n : Nat} {next : List UInt8 → Decoder α} {bytes : List UInt8}
    {limit : Nat} (fits : n ≤ limit) (enough : n ≤ bytes.length) :
    (read n next).parse bytes limit = (next (bytes.take n)).parse (bytes.drop n) (limit - n) :=
  if_pos ⟨fits, enough⟩

theorem parse_bind (d : Decoder α) (f : α → Decoder β) (bytes : List UInt8) (limit : Nat) :
    (d >>= f).parse bytes limit =
      (d.parse bytes limit).bind fun (value, bytes, limit) => (f value).parse bytes limit := by
  show (d.bind f).parse bytes limit = _
  induction d generalizing bytes limit with
  | done value => rfl
  | fail msg => rfl
  | read n next ih =>
      simp only [bind, parse]
      split_ifs
      · exact ih _ _ _
      · rfl
  | remaining next ih => exact ih _ _ _

/-- On a stream past a clean subscriber response, the decoder reads what it parses from the bytes
of the first pieces, however they are cut, and leaves the pieces after them as they are. -/
theorem run_of_parse_append {d : Decoder α} {s : Stream} {limit : Nat} {value : α}
    {pieces later : List (List UInt8)} {rest : List UInt8} {left : Nat} (once : s.once = true)
    (clean : s.subscriberErr = none) (cut : s.pieces = pieces ++ later)
    (parsed : d.parse pieces.flatten limit = .ok (value, rest, left)) :
    ∃ pieces', d.run s limit = (.ok value, { s with pieces := pieces' ++ later }, left) ∧
      pieces'.flatten = rest := by
  induction d generalizing s pieces limit with
  | done value' =>
      cases parsed
      exact ⟨pieces, by rw [← cut]; rfl, rfl⟩
  | fail msg => cases parsed
  | read n next ih =>
      simp only [parse] at parsed
      split_ifs at parsed with fits
      obtain ⟨pieces', read, flat⟩ := readLimited_append once clean cut fits.1 fits.2
      obtain ⟨pieces'', run, flat'⟩ := @ih _ { s with pieces := pieces' ++ later } _ _ once clean rfl
        (flat ▸ parsed)
      exact ⟨pieces'', by simp only [Decoder.run, read, run], flat'⟩
  | remaining next ih => exact ih _ once clean cut parsed

/-- On a stream past a clean subscriber response, the decoder reads what it parses from the
stream's bytes, however they are cut into pieces. -/
theorem run_of_parse {d : Decoder α} {s : Stream} {limit : Nat} {value : α} {rest : List UInt8}
    {left : Nat} (once : s.once = true) (clean : s.subscriberErr = none)
    (parsed : d.parse s.pieces.flatten limit = .ok (value, rest, left)) :
    ∃ pieces, d.run s limit = (.ok value, { s with pieces := pieces }, left) ∧
      pieces.flatten = rest := by
  obtain ⟨pieces, run, flat⟩ := run_of_parse_append once clean (List.append_nil _).symm parsed
  exact ⟨pieces ++ [], run, by rw [List.append_nil, flat]⟩

end Decoder

/-! ## Primitives -/

open Decoder

/-- `ReadUint64`. -/
def readUint64 : Decoder Nat := .read 8 fun bytes => .done (decodeLE bytes)

/-- `ReadPrefix`: a length, which the limit must leave room for. -/
def readPrefix : Decoder Nat := do
  let n ← readUint64
  .remaining fun left =>
    if left < n then
      .fail ("encoded object contains invalid length prefix (" ++ toString n ++ " elems > " ++
        toString left ++ " bytes left in stream)")
    else .done n

/-- `ReadBool`. -/
def readBool : Decoder Bool := .read 1 fun
  | [0] => .done false
  | [1] => .done true
  | bytes => .fail ("invalid bool value (" ++ toString (decodeLE bytes) ++ ")")

/-- `ReadBytes`: a prefix, then that many bytes. -/
def readBytes : Decoder (List UInt8) := do
  let n ← readPrefix
  .read n .done

/-- `RPCError`, its description kept as the bytes it was sent as. -/
structure RPCError where
  type : List UInt8
  data : List UInt8
  description : List UInt8

/-- `RPCError.DecodeFrom`: a 16-byte specifier, the data, the description. -/
def RPCError.decodeFrom : Decoder RPCError := do
  let type ← .read 16 .done
  let data ← readBytes
  let description ← readBytes
  return ⟨type, data, description⟩

/-- A protocol object: `EncodeTo`, and a `DecodeFrom` that reads back exactly what `EncodeTo`
wrote, whatever follows, under any limit that leaves room for it. -/
structure ProtocolObject (α : Type) where
  encodeTo : α → List UInt8
  decodeFrom : Decoder α
  decodeFrom_encodeTo : ∀ value rest limit, (encodeTo value).length ≤ limit →
    decodeFrom.parse (encodeTo value ++ rest) limit =
      .ok (value, rest, limit - (encodeTo value).length)

/-- A one-byte protocol object. -/
def byteObject : ProtocolObject UInt8 where
  encodeTo byte := [byte]
  decodeFrom := .read 1 fun
    | [byte] => .done byte
    | _ => .fail "short read"
  decodeFrom_encodeTo _ _ _ fits := (parse_read fits (by simp)).trans rfl

/-! ## Responses -/

variable {α : Type} (obj : ProtocolObject α)

/-- `(&rpcResponse{nil, resp}).EncodeTo`: `false`, then the object. -/
def encodeResponse (value : α) : List UInt8 := 0 :: obj.encodeTo value

/-- `rpcResponse.DecodeFrom`: the error flag, then the error or the object. -/
def decodeResponse : Decoder (Except RPCError α) := do
  if ← readBool then return .error (← RPCError.decodeFrom) else return .ok (← obj.decodeFrom)

/-- `writeResponse`: a placeholder prefix, the response, then the prefix set to the length of
what follows it. -/
def writeResponse (value : α) : List UInt8 :=
  encodeLE 8 (encodeResponse obj value).length ++ encodeResponse obj value

/-- The errors `readResponse` returns: the decoder's, or the `RPCError` the host sent. -/
inductive ResponseError where
  | read (err : ReadError)
  | rpc (err : RPCError)

/-- `readResponse`: the prefix, which is ignored, then the response, read through a
`LimitedReader` of `1 << 20` bytes. -/
def readResponse (s : Stream) : Except ResponseError α × Stream :=
  match (readPrefix >>= fun _ => decodeResponse obj).run s (2 ^ 20) with
  | (.error err, s, _) => (.error (.read err), s)
  | (.ok (.error rpc), s, _) => (.error (.rpc rpc), s)
  | (.ok (.ok value), s, _) => (.ok value, s)

/-- `n` successive `readResponse` calls on one stream. -/
def readResponses : Nat → Stream → List (Except ResponseError α) × Stream
  | 0, s => ([], s)
  | n + 1, s =>
      let (first, s) := readResponse obj s
      let (rest, s) := readResponses n s
      (first :: rest, s)

/-! ## Reading frames back -/

/-- `ReadPrefix` reads a little-endian length that the limit leaves room for. -/
theorem readPrefix_parse {n limit : Nat} (rest : List UInt8) (room : 8 + n ≤ limit)
    (small : n < 2 ^ 64) : readPrefix.parse (encodeLE 8 n ++ rest) limit = .ok (n, rest, limit - 8) := by
  have header : (encodeLE 8 n).length = 8 := length_encodeLE _ _
  have decoded : decodeLE (encodeLE 8 n) = n :=
    (decodeLE_encodeLE 8 n).trans (Nat.mod_eq_of_lt small)
  rw [readPrefix, parse_bind, readUint64, parse_read (by omega) (by simp)]
  simp only [List.take_left' header, List.drop_left' header, decoded, Decoder.parse, Except.bind,
    if_neg (by omega : ¬limit - 8 < n)]

/-- The decoder of `readResponse` parses a frame of `writeResponse` that fits the limit, and stops
right after it. -/
theorem parse_frame (value : α) (rest : List UInt8)
    (fits : (encodeResponse obj value).length ≤ 2 ^ 20 - 8) :
    (readPrefix >>= fun _ => decodeResponse obj).parse (writeResponse obj value ++ rest) (2 ^ 20) =
      .ok (.ok value, rest, 2 ^ 20 - 8 - 1 - (obj.encodeTo value).length) := by
  have encoded : (obj.encodeTo value).length ≤ 2 ^ 20 - 8 - 1 := by
    simp only [encodeResponse, List.length_cons] at fits; omega
  have prefixed : readPrefix.parse (writeResponse obj value ++ rest) (2 ^ 20) =
      .ok ((encodeResponse obj value).length, encodeResponse obj value ++ rest, 2 ^ 20 - 8) := by
    rw [writeResponse, List.append_assoc]
    exact readPrefix_parse _ (by omega) (by omega)
  have flag : readBool.parse (encodeResponse obj value ++ rest) (2 ^ 20 - 8) =
      .ok (false, obj.encodeTo value ++ rest, 2 ^ 20 - 8 - 1) := by
    rw [readBool, parse_read (by omega) (by simp [encodeResponse])]
    rfl
  rw [parse_bind, prefixed]
  simp only [Except.bind, decodeResponse, parse_bind, flag, Bool.false_eq_true, ↓reduceIte,
    obj.decodeFrom_encodeTo value rest _ encoded]
  rfl

/-- `readResponse` starts with a read of 8 bytes, so it meets the subscriber response first. -/
theorem readResponse_acked (s : Stream) : readResponse obj s = readResponse obj s.acked := by
  obtain ⟨next, first⟩ : ∃ next, (readPrefix >>= fun _ => decodeResponse obj) = .read 8 next :=
    ⟨_, rfl⟩
  rw [readResponse, readResponse, first, Decoder.run, Decoder.run,
    readLimited_acked (by decide) (by decide)]

/-- On a stream past a clean subscriber response, `readResponse` decodes the frame at the head of
the first pieces and consumes exactly it, leaving the pieces after them as they are. -/
theorem readResponse_frame_append {s : Stream} {value : α} {pieces later : List (List UInt8)}
    {rest : List UInt8} (once : s.once = true) (clean : s.subscriberErr = none)
    (cut : s.pieces = pieces ++ later) (fits : (encodeResponse obj value).length ≤ 2 ^ 20 - 8)
    (flat : pieces.flatten = writeResponse obj value ++ rest) :
    ∃ pieces', readResponse obj s = (.ok value, { s with pieces := pieces' ++ later }) ∧
      pieces'.flatten = rest := by
  obtain ⟨pieces', run, flat'⟩ :=
    run_of_parse_append once clean cut (flat ▸ parse_frame obj value rest fits)
  exact ⟨pieces', by simp only [readResponse, run], flat'⟩

/-- On a stream past a clean subscriber response, `readResponse` decodes the frame at the head of
the stream and consumes exactly it. -/
theorem readResponse_frame {s : Stream} {value : α} {rest : List UInt8} (once : s.once = true)
    (clean : s.subscriberErr = none) (fits : (encodeResponse obj value).length ≤ 2 ^ 20 - 8)
    (flat : s.pieces.flatten = writeResponse obj value ++ rest) :
    ∃ pieces, readResponse obj s = (.ok value, { s with pieces := pieces }) ∧
      pieces.flatten = rest := by
  obtain ⟨pieces, read, flat'⟩ :=
    readResponse_frame_append obj once clean (List.append_nil _).symm fits flat
  exact ⟨pieces ++ [], read, by rw [List.append_nil, flat']⟩

/-! ## Error responses -/

/-- `WriteBytes`: the length, then the bytes. -/
def encodeBytes (bytes : List UInt8) : List UInt8 := encodeLE 8 bytes.length ++ bytes

/-- `(&rpcResponse{err, nil}).EncodeTo` as the host writes it: `true`, then the 16-byte type,
the data and the description. -/
def encodeErrorResponse (err : RPCError) : List UInt8 :=
  1 :: (err.type ++ encodeBytes err.data ++ encodeBytes err.description)

/-- The frame `writeResponse` makes of an error response. -/
def errorFrame (err : RPCError) : List UInt8 :=
  encodeLE 8 (encodeErrorResponse err).length ++ encodeErrorResponse err

theorem readBytes_parse {bytes : List UInt8} {limit : Nat} (rest : List UInt8)
    (room : 8 + bytes.length ≤ limit) (small : bytes.length < 2 ^ 64) :
    readBytes.parse (encodeBytes bytes ++ rest) limit = .ok (bytes, rest, limit - 8 - bytes.length) := by
  rw [readBytes, parse_bind, encodeBytes, List.append_assoc, readPrefix_parse _ room small]
  exact (parse_read (by omega) (by simp)).trans (by simp [Nat.sub_sub])

/-- `RPCError.DecodeFrom` reads back a type of 16 bytes, the data and the description. -/
theorem RPCError.decodeFrom_parse {err : RPCError} {limit : Nat} (rest : List UInt8)
    (typeLen : err.type.length = 16)
    (room : (err.type ++ encodeBytes err.data ++ encodeBytes err.description).length ≤ limit)
    (bounded : limit < 2 ^ 64) :
    RPCError.decodeFrom.parse (err.type ++ encodeBytes err.data ++ encodeBytes err.description ++ rest)
      limit = .ok (err, rest,
        limit - (err.type ++ encodeBytes err.data ++ encodeBytes err.description).length) := by
  simp only [encodeBytes, List.length_append, length_encodeLE] at room
  rw [RPCError.decodeFrom, parse_bind, List.append_assoc, List.append_assoc,
    parse_read (by omega) (by simp [typeLen]), List.take_left' typeLen, List.drop_left' typeLen]
  simp only [parse_done, Except.bind, parse_bind,
    readBytes_parse _ (by omega : 8 + err.data.length ≤ limit - 16) (by omega)]
  rw [readBytes_parse _ (by omega) (by omega)]
  show Except.ok (RPCError.mk err.type err.data err.description, rest, _) = _
  simp only [encodeBytes, List.length_append, length_encodeLE]
  congr 3
  omega

/-- The decoder of `readResponse` parses an error frame that fits the limit as its `RPCError`, and
stops right after it. -/
theorem parse_errorFrame {err : RPCError} (rest : List UInt8) (typeLen : err.type.length = 16)
    (fits : (encodeErrorResponse err).length ≤ 2 ^ 20 - 8) :
    (readPrefix >>= fun _ => decodeResponse obj).parse (errorFrame err ++ rest) (2 ^ 20) =
      .ok (.error err, rest, 2 ^ 20 - 8 - (encodeErrorResponse err).length) := by
  have prefixed : readPrefix.parse (errorFrame err ++ rest) (2 ^ 20) =
      .ok ((encodeErrorResponse err).length, encodeErrorResponse err ++ rest, 2 ^ 20 - 8) := by
    rw [errorFrame, List.append_assoc]
    exact readPrefix_parse _ (by omega) (by omega)
  have flag : readBool.parse (encodeErrorResponse err ++ rest) (2 ^ 20 - 8) =
      .ok (true, err.type ++ encodeBytes err.data ++ encodeBytes err.description ++ rest,
        2 ^ 20 - 8 - 1) := by
    rw [readBool, parse_read (by omega) (by simp [encodeErrorResponse])]
    rfl
  simp only [encodeErrorResponse, List.length_cons] at fits
  rw [parse_bind, prefixed]
  simp only [Except.bind, decodeResponse, parse_bind, flag, ↓reduceIte,
    @RPCError.decodeFrom_parse err (2 ^ 20 - 8 - 1) rest typeLen (by omega) (by omega)]
  refine (parse_done _ _ _).trans ?_
  rw [encodeErrorResponse, List.length_cons, Nat.sub_sub _ 1, Nat.add_comm 1]

/-- On a stream past a clean subscriber response, `readResponse` returns the `RPCError` of the error
frame at the head of the stream and consumes exactly that frame, so the frames after it are read
as if it had been an object's. -/
theorem readResponse_errorFrame {s : Stream} {err : RPCError} {rest : List UInt8}
    (once : s.once = true) (clean : s.subscriberErr = none) (typeLen : err.type.length = 16)
    (fits : (encodeErrorResponse err).length ≤ 2 ^ 20 - 8)
    (flat : s.pieces.flatten = errorFrame err ++ rest) :
    ∃ pieces, readResponse obj s = (.error (.rpc err), { s with pieces := pieces }) ∧
      pieces.flatten = rest := by
  obtain ⟨pieces, run, flat'⟩ :=
    run_of_parse once clean (flat ▸ parse_errorFrame obj rest typeLen fits)
  exact ⟨pieces, by simp only [readResponse, run], flat'⟩

/-- The frame the host sends for a response: an object's, or an error's. -/
def responseFrame : Except RPCError α → List UInt8
  | .ok value => writeResponse obj value
  | .error err => errorFrame err

/-- The response fits the limit of `readResponse`, and an error's type is a 16-byte specifier. -/
def FitsFrame : Except RPCError α → Prop
  | .ok value => (encodeResponse obj value).length ≤ 2 ^ 20 - 8
  | .error err => err.type.length = 16 ∧ (encodeErrorResponse err).length ≤ 2 ^ 20 - 8

theorem readResponse_responseFrame {s : Stream} {response : Except RPCError α}
    {rest : List UInt8} (once : s.once = true) (clean : s.subscriberErr = none)
    (fits : FitsFrame obj response) (flat : s.pieces.flatten = responseFrame obj response ++ rest) :
    ∃ pieces, readResponse obj s = (response.mapError .rpc, { s with pieces := pieces }) ∧
      pieces.flatten = rest := by
  cases response with
  | ok value => exact readResponse_frame obj once clean fits flat
  | error err => exact readResponse_errorFrame obj once clean fits.1 fits.2 flat

/-- After a clean subscriber response, `readResponse` calls return the objects and the errors in
the order the host sent them, each error as the `RPCError` it wrote, and consume exactly their
frames: an error frame does not put the reads after it out of step. -/
theorem readResponses_responseFrames {s : Stream} {responses : List (Except RPCError α)}
    {rest : List UInt8} (once : s.once = true) (clean : s.subscriberErr = none)
    (fits : ∀ response ∈ responses, FitsFrame obj response)
    (flat : s.pieces.flatten = (responses.map (responseFrame obj)).flatten ++ rest) :
    ∃ pieces, readResponses obj responses.length s =
        (responses.map (Except.mapError .rpc), { s with pieces := pieces }) ∧
      pieces.flatten = rest := by
  induction responses generalizing s rest with
  | nil => exact ⟨s.pieces, rfl, flat⟩
  | cons response responses ih =>
      rw [List.map_cons, List.flatten_cons, List.append_assoc] at flat
      obtain ⟨pieces, first, flat'⟩ :=
        readResponse_responseFrame obj once clean (fits response (List.mem_cons_self _ _)) flat
      obtain ⟨pieces', others, flat''⟩ := @ih { s with pieces := pieces } _ once clean
        (fun response mem => fits response (List.mem_cons_of_mem _ mem)) flat'
      exact ⟨pieces', by simp only [List.length_cons, readResponses, first, others, List.map_cons],
        flat''⟩

/-- An error whose description is `"no"`. -/
def hostError : RPCError := ⟨List.replicate 16 0, [], [110, 111]⟩

/-- An error frame and then a one-byte object's frame, in one piece: both are read back. -/
theorem errorThenByte_read_in_step :
    ∃ pieces, readResponses byteObject 2
        ⟨[responseFrame byteObject (.error hostError) ++ responseFrame byteObject (.ok 7)], true, none,
          2 ^ 30⟩ =
        ([.error (.rpc hostError), .ok 7], ⟨pieces, true, none, 2 ^ 30⟩) ∧ pieces.flatten = [] :=
  @readResponses_responseFrames _ byteObject
    ⟨[responseFrame byteObject (.error hostError) ++ responseFrame byteObject (.ok 7)], true, none,
      2 ^ 30⟩
    [.error hostError, .ok 7] [] rfl rfl
    (fun response mem => by
      rcases List.mem_pair.mp mem with rfl | rfl
      · exact ⟨rfl, by decide⟩
      · exact (by decide : 2 ≤ 2 ^ 20 - 8))
    (by simp)

/-- `readResponse` calls after a clean subscriber response decode the frames at the head of the
stream in order, and leave exactly the bytes after them. -/
theorem readResponses_acked {s : Stream} {values : List α} {rest : List UInt8}
    (once : s.once = true) (clean : s.subscriberErr = none)
    (fits : ∀ value ∈ values, (encodeResponse obj value).length ≤ 2 ^ 20 - 8)
    (flat : s.pieces.flatten = (values.map (writeResponse obj)).flatten ++ rest) :
    ∃ pieces, readResponses obj values.length s = (values.map .ok, { s with pieces := pieces }) ∧
      pieces.flatten = rest := by
  induction values generalizing s rest with
  | nil => exact ⟨s.pieces, rfl, flat⟩
  | cons value values ih =>
      rw [List.map_cons, List.flatten_cons, List.append_assoc] at flat
      obtain ⟨pieces, first, flat'⟩ :=
        readResponse_frame obj once clean (fits value (List.mem_cons_self _ _)) flat
      obtain ⟨pieces', others, flat''⟩ := @ih { s with pieces := pieces } _ once clean
        (fun value mem => fits value (List.mem_cons_of_mem _ mem)) flat'
      exact ⟨pieces', by simp only [List.length_cons, readResponses, first, others, List.map_cons],
        flat''⟩

/-- The first `readResponse` call reads the subscriber response before its frame. -/
theorem readResponses_succ_acked (n : Nat) (s : Stream) :
    readResponses obj (n + 1) s = readResponses obj (n + 1) s.acked := by
  rw [readResponses, readResponses, readResponse_acked obj s]

/-- The first `Read` reads the subscriber response before it reads for its caller. -/
theorem reads_cons_acked (size : Nat) (sizes : List Nat) (s : Stream) :
    s.reads (size :: sizes) = s.acked.reads (size :: sizes) := by
  simp only [Stream.reads, Stream.Read, acked_acked]

/-- What the framing promises: each frame is read back and consumed exactly, however the stream is
cut into reads, so that the first `k` calls after a clean subscriber response decode the first `k`
objects and leave the frames of the others; after an error response whose text the runtime can
allocate, every read fails with its text and consumes nothing. -/
structure FramedReads : Prop where
  frame : ∀ (s : Stream) (value : α) (rest : List UInt8), s.once = true → s.subscriberErr = none →
    (encodeResponse obj value).length ≤ 2 ^ 20 - 8 →
    s.pieces.flatten = writeResponse obj value ++ rest →
    ∃ pieces, readResponse obj s = (.ok value, { s with pieces := pieces }) ∧ pieces.flatten = rest
  frames : ∀ (reserved : List UInt8) (values : List α) (pieces : List (List UInt8))
    (rest : List UInt8), reserved.length = 8 →
    (∀ value ∈ values, (encodeResponse obj value).length ≤ 2 ^ 20 - 8) →
    pieces.flatten =
      subscriberResponse reserved 0 ++ (values.map (writeResponse obj)).flatten ++ rest →
    ∀ heap k, 0 < k → k ≤ values.length →
      ∃ pieces', readResponses obj k ⟨pieces, false, none, heap⟩ =
          ((values.take k).map .ok, ⟨pieces', true, none, heap⟩) ∧
        pieces'.flatten = ((values.drop k).map (writeResponse obj)).flatten ++ rest
  failed : ∀ (reserved text payload : List UInt8) (pieces : List (List UInt8)) (sizes : List Nat)
    (heap : Nat), reserved.length = 8 → text ≠ [] → text.length ≤ maxAlloc → text.length ≤ heap →
    pieces.flatten = subscriberResponse reserved text.length ++ text ++ payload →
    ((⟨pieces, false, none, heap⟩ : Stream).reads sizes).1 =
        sizes.map (fun _ => ([], some (.text text))) ∧
      (sizes ≠ [] → ((⟨pieces, false, none, heap⟩ : Stream).reads sizes).2.pieces.flatten = payload)

/-- The framing holds for every protocol object. -/
theorem readResponse_frames : FramedReads obj where
  frame _ _ _ once clean fits flat := readResponse_frame obj once clean fits flat
  frames reserved values pieces rest reservedLen fits flat heap k pos within := by
    obtain ⟨k, rfl⟩ : ∃ k', k = k' + 1 := ⟨k - 1, by omega⟩
    obtain ⟨acked, ack, flat'⟩ := @acked_subscriberResponse pieces [] reserved []
      ((values.map (writeResponse obj)).flatten ++ rest) heap reservedLen (by simp) (by simp)
      (by rw [flat, List.append_nil, List.append_assoc]; rfl)
    rw [List.append_nil, List.append_nil] at ack
    have split : (values.map (writeResponse obj)).flatten ++ rest =
        ((values.take (k + 1)).map (writeResponse obj)).flatten ++
          (((values.drop (k + 1)).map (writeResponse obj)).flatten ++ rest) := by
      rw [← List.append_assoc, ← List.flatten_append, ← List.map_append, List.take_append_drop]
    rw [if_pos rfl] at ack
    rw [split] at flat'
    obtain ⟨pieces', reads, flat''⟩ := @readResponses_acked _ obj ⟨acked, true, none, heap⟩ _ _ rfl rfl
      (fun value mem => fits value (List.mem_of_mem_take mem)) flat'
    rw [List.length_take, Nat.min_eq_left within] at reads
    exact ⟨pieces', by rw [readResponses_succ_acked, ack, reads], flat''⟩
  failed reserved text payload pieces sizes heap reservedLen nonempty textLen served flat := by
    obtain ⟨acked, ack, flat'⟩ :=
      @acked_subscriberResponse pieces [] _ _ _ heap reservedLen textLen served flat
    rw [if_neg nonempty, List.append_nil, List.append_nil] at ack
    cases sizes with
    | nil => exact ⟨rfl, fun empty => (empty rfl).elim⟩
    | cons size sizes =>
        rw [reads_cons_acked, ack, reads_failed rfl rfl]
        exact ⟨rfl, fun _ => flat'⟩

/-- Two one-byte responses after a clean subscriber response, cut across frame boundaries. -/
example :
    let bytes := subscriberResponse (List.replicate 8 0) 0 ++ writeResponse byteObject 5 ++
      writeResponse byteObject 6
    (readResponses byteObject 2 ⟨[bytes.take 10, (bytes.drop 10).take 15, bytes.drop 25], false,
      none, 2 ^ 30⟩).1 = [.ok 5, .ok 6] := rfl

/-- An error length within `maxAlloc` but one byte more than the runtime can allocate, followed
by as many bytes of text: the first `Read` ends the process in `make`, before it reads the text,
so no `Read` returns it. -/
theorem Read_unservedErrorLength_fails :
    ((⟨[subscriberResponse (List.replicate 8 0) (2 ^ 30 + 1), List.replicate (2 ^ 30 + 1) 1],
      false, none, 2 ^ 30⟩ : Stream).reads [1]).1 = [([], some (.fatal outOfMemory))] := rfl

end Renterd.Rhp
