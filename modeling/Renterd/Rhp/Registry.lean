import Renterd.Rhp.Response

/-!
# Reading a registry value

`RPCReadRegistry` reads, after the payment, a cancellation token and the response of
`ExecuteProgram`, checks its `OutputLength` against the 73 bytes of a signature, a revision and a
type, makes a buffer of that length and fills it with one `Read`. The value is cut out of the
buffer: the first 64 bytes are the signature, the next 8 the big-endian revision, the last one the
type, and the bytes between them the data.

A `Read` returns at most the rest of the piece the stream is in, and the bytes it does not fill
stay zero. So the value is the host's when the output begins a piece that holds all of it, and
its tail is zeros when the output is cut. A length above `maxAlloc` makes `make` panic, and one
above what the runtime can allocate ends the process. Each RPC puts its name in front of the
errors it returns, with a deferred `wrapErr`. The writes of the RPC are not modelled: the model
starts at its first read.
-/

namespace Renterd.Rhp

/-! ## Big-endian integers -/

/-- The `width` big-endian bytes of `n`, as `binary.BigEndian.PutUint64` writes for width 8. -/
def encodeBE (width n : Nat) : List UInt8 := (encodeLE width n).reverse

/-- `binary.BigEndian.Uint64` of 8 bytes. -/
def decodeBE (bytes : List UInt8) : Nat := bytes.foldl (fun n byte => 256 * n + byte.toNat) 0

@[simp] theorem length_encodeBE (width n : Nat) : (encodeBE width n).length = width := by
  simp [encodeBE]

theorem decodeBE_reverse (bytes : List UInt8) : decodeBE bytes.reverse = decodeLE bytes := by
  induction bytes with
  | nil => rfl
  | cons byte bytes ih =>
      rw [List.reverse_cons, decodeBE, List.foldl_append, ← decodeBE, ih, decodeLE]
      simp only [List.foldl_cons, List.foldl_nil]
      omega

theorem decodeBE_encodeBE (width n : Nat) : decodeBE (encodeBE width n) = n % 256 ^ width := by
  rw [encodeBE, decodeBE_reverse, decodeLE_encodeLE]

theorem UInt64.ofNat_toNat (n : UInt64) : UInt64.ofNat n.toNat = n := by
  cases n
  simp [UInt64.ofNat, UInt64.toNat]

/-! ## Fixed-size arrays -/

/-- A byte array of length `n`: `types.Signature` for 64, `types.Specifier` for 16. -/
@[ext]
structure FixedBytes (n : Nat) where
  bytes : List UInt8
  length_eq : bytes.length = n
  deriving DecidableEq

/-- `copy(a[:], src)` into a zeroed array `a`: the first `n` bytes of `src`, then zeros. -/
def FixedBytes.copy {n : Nat} (src : List UInt8) : FixedBytes n :=
  ⟨(src ++ List.replicate n 0).take n, by simp⟩

theorem FixedBytes.copy_bytes {n : Nat} (a : FixedBytes n) : FixedBytes.copy a.bytes = a :=
  FixedBytes.ext (List.take_left' a.length_eq)

/-- A fixed-size array as a protocol object: its bytes, read back in one read of `n`. -/
def fixedObject (n : Nat) : ProtocolObject (FixedBytes n) where
  encodeTo a := a.bytes
  decodeFrom := .read n fun bytes =>
    if h : bytes.length = n then .done ⟨bytes, h⟩ else .fail "short read"
  decodeFrom_encodeTo a rest limit fits := by
    rw [Decoder.parse_read (a.length_eq ▸ fits) (by simp [a.length_eq]),
      List.take_left' a.length_eq, dif_pos a.length_eq, List.drop_left' a.length_eq, a.length_eq]
    rfl

/-- A fixed-size array's response fits any limit of `readResponse`. -/
theorem length_encodeResponse_fixed {n : Nat} (a : FixedBytes n) :
    (encodeResponse (fixedObject n) a).length = n + 1 := by
  simp [encodeResponse, fixedObject, a.length_eq]

/-! ## The registry value -/

/-- `RegistryValue`. -/
structure RegistryValue where
  data : List UInt8
  revision : UInt64
  type : UInt8
  signature : FixedBytes 64
  deriving DecidableEq

/-- The value `RPCReadRegistry` cuts out of its buffer: `sig` from `buf[:64]`, `rev` from
`buf[64:72]`, `data` as `buf[72 : len(buf)-1]` and `typ` as `buf[len(buf)-1]`. -/
def RegistryValue.ofBuffer (buf : List UInt8) : RegistryValue where
  data := (buf.drop 72).take (buf.length - 1 - 72)
  revision := UInt64.ofNat (decodeBE ((buf.drop 64).take 8))
  type := buf.getLastD 0
  signature := FixedBytes.copy (buf.take 64)

/-- The output of a value, in the order `RPCReadRegistry` cuts it. -/
def RegistryValue.output (value : RegistryValue) : List UInt8 :=
  value.signature.bytes ++ encodeBE 8 value.revision.toNat ++ value.data ++ [value.type]

theorem RegistryValue.length_output (value : RegistryValue) :
    value.output.length = 73 + value.data.length := by
  simp only [output, List.length_append, value.signature.length_eq, length_encodeBE,
    List.length_singleton]
  omega

/-- Cutting a whole output gives back its value. -/
theorem RegistryValue.ofBuffer_output (value : RegistryValue) : ofBuffer value.output = value := by
  have sig : value.signature.bytes.length = 64 := value.signature.length_eq
  have rev : (encodeBE 8 value.revision.toNat).length = 8 := length_encodeBE _ _
  have head : value.output = value.signature.bytes ++
      (encodeBE 8 value.revision.toNat ++ (value.data ++ [value.type])) := by
    simp only [output, List.append_assoc]
  have tail : value.output.drop 64 = encodeBE 8 value.revision.toNat ++ (value.data ++ [value.type]) := by
    rw [head, List.drop_left' sig]
  rw [ofBuffer]
  congr
  · rw [show 72 = 64 + 8 from rfl, ← List.drop_drop, tail, List.drop_left' rev, length_output]
    exact List.take_left' (by omega)
  · have small : value.revision.toNat < 256 ^ 8 := value.revision.toNat_lt_size
    rw [tail, List.take_left' rev, decodeBE_encodeBE, Nat.mod_eq_of_lt small, UInt64.ofNat_toNat]
  · exact List.getLastD_concat _ _ _
  · rw [head, List.take_left' sig, FixedBytes.copy_bytes]

/-! ## `RPCReadRegistry` -/

/-- How an RPC pays, as far as its reads go. -/
inductive PaymentMethod where
  | byContract
  | byEphemeralAccount

/-- `processPayment`, its reads: for a payment by contract the host's `paymentResponse`, a
signature. -/
def processPayment (payment : PaymentMethod) (s : Stream) : Except ResponseError Unit × Stream :=
  match payment with
  | .byContract =>
      match readResponse (fixedObject 64) s with
      | (.error err, s) => (.error err, s)
      | (.ok _, s) => (.ok (), s)
  | .byEphemeralAccount => (.ok (), s)

/-- The errors of `RPCReadRegistry`. -/
inductive RegistryError where
  /-- An error of `readResponse`: the payment's or the program's response. -/
  | response (err : ResponseError)
  /-- `errors.New(text)`. -/
  | new (text : String)
  /-- The error of the `Read` of the output. -/
  | read (err : ReadError)
  /-- A runtime panic, carried up as the result. -/
  | panic (msg : String)
  /-- A fatal runtime error, carried up as the result. -/
  | fatal (msg : String)
  /-- `fmt.Errorf("%s: %w", fnName, err)`: the error with the name of the RPC in front. -/
  | wrapped (fnName : String) (err : RegistryError)

/-- A panic or a fatal error: it unwinds past the deferred calls or ends the process, and is not
returned. -/
def ReadError.unwinds : ReadError → Bool
  | .panic _ | .fatal _ => true
  | _ => false

def RegistryError.unwinds : RegistryError → Bool
  | .response (.read err) | .read err => err.unwinds
  | .panic _ | .fatal _ => true
  | _ => false

/-- `defer wrapErr(&err, fnName)`: an error the RPC returns gets its name in front; a panic or a
fatal error never reaches it. -/
def wrapErr {α : Type} (fnName : String) : Except RegistryError α → Except RegistryError α
  | .error err => .error (if err.unwinds then err else .wrapped fnName err)
  | .ok value => .ok value

/-- The output after the response: the length check, `make([]byte, resp.OutputLength)`, one
`Read`, and the value cut out of the buffer, whose bytes past the `Read` are zero. -/
def readOutput (outputLength : Nat) (s : Stream) : Except RegistryError RegistryValue × Stream :=
  if outputLength < 64 + 8 + 1 then (.error (.new "invalid output length"), s)
  else if maxAlloc < outputLength then (.error (.panic makesliceLen), s)
  else if s.heap < outputLength then (.error (.fatal outOfMemory), s)
  else
    match s.Read outputLength with
    | ((_, some err), s) => (.error (.read err), s)
    | ((bytes, none), s) =>
        (.ok (RegistryValue.ofBuffer (bytes ++ List.replicate (outputLength - bytes.length) 0)), s)

variable {Response : Type} (response : ProtocolObject Response) (outputLength : Response → Nat)

/-- `RPCReadRegistry`, for the `ExecuteProgram` response `response` with its `OutputLength`: the
payment's reads, the cancellation token, whose error is ignored, the response, and the output;
its errors named `ReadRegistry`. -/
def RPCReadRegistry (payment : PaymentMethod) (s : Stream) :
    Except RegistryError RegistryValue × Stream :=
  Prod.map (wrapErr "ReadRegistry") id <|
    match processPayment payment s with
    | (.error err, s) => (.error (.response err), s)
    | (.ok (), s) =>
        let (_, s) := readResponse (fixedObject 16) s
        match readResponse response s with
        | (.error err, s) => (.error (.response err), s)
        | (.ok resp, s) => readOutput (outputLength resp) s

/-- `RPCUpdateRegistry`: the reads of `RPCReadRegistry` up to the response, then the check that
the program has no output; its errors named `UpdateRegistry`. -/
def RPCUpdateRegistry (payment : PaymentMethod) (s : Stream) : Except RegistryError Unit × Stream :=
  Prod.map (wrapErr "UpdateRegistry") id <|
    match processPayment payment s with
    | (.error err, s) => (.error (.response err), s)
    | (.ok (), s) =>
        let (_, s) := readResponse (fixedObject 16) s
        match readResponse response s with
        | (.error err, s) => (.error (.response err), s)
        | (.ok resp, s) =>
            if outputLength resp ≠ 0 then (.error (.new "invalid output length"), s) else (.ok (), s)

/-! ## What one `Read` gets -/

/-- The frame of the host's `paymentResponse`, for a payment by contract. -/
def paymentFrame (hostSig : FixedBytes 64) : PaymentMethod → List UInt8
  | .byContract => writeResponse (fixedObject 64) hostSig
  | .byEphemeralAccount => []

/-- The frames a host sends before the output: the payment's, the cancellation token's, and the
response's. -/
def hostFrames (payment : PaymentMethod) (hostSig : FixedBytes 64) (token : FixedBytes 16)
    (resp : Response) : List UInt8 :=
  paymentFrame hostSig payment ++ writeResponse (fixedObject 16) token ++ writeResponse response resp

section Reads

variable {s : Stream} {pieces later : List (List UInt8)} {heap : Nat}

/-- On a stream past a clean subscriber response, the `Read` of the output waits past pieces with
no bytes left and gets as much of the next piece as it asks for; the rest of the buffer stays
zero. -/
theorem readOutput_first_piece {drained : List (List UInt8)} {piece : List UInt8} {length : Nat}
    (drainedNil : drained.flatten = []) (bytes : piece ≠ []) (least : 73 ≤ length)
    (most : length ≤ maxAlloc) (served : length ≤ heap) :
    (readOutput length ⟨drained ++ piece :: later, true, none, heap⟩).1 =
      .ok (RegistryValue.ofBuffer (piece.take length ++ List.replicate (length - piece.length) 0)) := by
  have read := muxRead_cons bytes later length
  rw [← muxRead_skip drainedNil] at read
  have padding : length - (piece.take length).length = length - piece.length := by
    rw [List.length_take]; omega
  simp only [readOutput, if_neg (by omega : ¬length < 64 + 8 + 1), if_neg (Nat.not_lt.mpr most),
    if_neg (Nat.not_lt.mpr served), Stream.Read, Stream.acked, if_true, read, padding]

/-- `processPayment` reads the frame of the host's signature, if the payment needs one. -/
theorem processPayment_frame {more : List UInt8} (payment : PaymentMethod) (hostSig : FixedBytes 64)
    (once : s.once = true) (clean : s.subscriberErr = none) (cut : s.pieces = pieces ++ later)
    (flat : pieces.flatten = paymentFrame hostSig payment ++ more) :
    ∃ pieces', processPayment payment s = (.ok (), { s with pieces := pieces' ++ later }) ∧
      pieces'.flatten = more := by
  cases payment with
  | byContract =>
      obtain ⟨pieces', read, flat'⟩ :=
        readResponse_frame_append (fixedObject 64) once clean cut
          (by rw [length_encodeResponse_fixed]; decide) flat
      exact ⟨pieces', by simp only [processPayment, read], flat'⟩
  | byEphemeralAccount => exact ⟨pieces, by rw [← cut]; rfl, flat⟩

/-- After a clean subscriber response, the payment's frame and the cancellation token's, whatever
pieces they are cut into, the reads of an `ExecuteProgram` RPC before its response succeed and
leave the stream at what follows the token. -/
theorem programPrefix_frames {reserved rest : List UInt8} {payment : PaymentMethod}
    {hostSig : FixedBytes 64} {token : FixedBytes 16} (reservedLen : reserved.length = 8)
    (flat : pieces.flatten = subscriberResponse reserved 0 ++
      (paymentFrame hostSig payment ++ writeResponse (fixedObject 16) token ++ rest)) :
    ∃ acked paid afterToken : List (List UInt8),
      (⟨pieces ++ later, false, none, heap⟩ : Stream).acked = ⟨acked ++ later, true, none, heap⟩ ∧
      processPayment payment ⟨acked ++ later, true, none, heap⟩ =
        (.ok (), ⟨paid ++ later, true, none, heap⟩) ∧
      readResponse (fixedObject 16) ⟨paid ++ later, true, none, heap⟩ =
        (.ok token, ⟨afterToken ++ later, true, none, heap⟩) ∧
      afterToken.flatten = rest := by
  obtain ⟨acked, ack, flat₁⟩ := @acked_subscriberResponse pieces later reserved [] _ heap reservedLen
    (by simp) (by simp) (by simpa using flat)
  rw [if_pos rfl] at ack
  obtain ⟨paid, pay, flat₂⟩ := @processPayment_frame ⟨acked ++ later, true, none, heap⟩ _ _ _
    payment hostSig rfl rfl rfl flat₁
  obtain ⟨afterToken, tokenRead, flat₃⟩ := @readResponse_frame_append _ (fixedObject 16)
    ⟨paid ++ later, true, none, heap⟩ _ _ _ _ rfl rfl rfl
    (by rw [length_encodeResponse_fixed]; decide) flat₂
  exact ⟨acked, paid, afterToken, ack, pay, tokenRead, flat₃⟩

/-- The first read of `RPCReadRegistry` reads the subscriber response. -/
theorem RPCReadRegistry_acked (payment : PaymentMethod) (s : Stream) :
    RPCReadRegistry response outputLength payment s =
      RPCReadRegistry response outputLength payment s.acked := by
  cases payment <;> simp only [RPCReadRegistry, processPayment, ← readResponse_acked]

/-- After a clean subscriber response and the host's frames, whatever pieces they are cut into,
`RPCReadRegistry` reads the output from the pieces after them. -/
theorem RPCReadRegistry_frames {reserved : List UInt8} {payment : PaymentMethod}
    {hostSig : FixedBytes 64} {token : FixedBytes 16} {resp : Response}
    (reservedLen : reserved.length = 8) (fits : (encodeResponse response resp).length ≤ 2 ^ 20 - 8)
    (flat : pieces.flatten =
      subscriberResponse reserved 0 ++ hostFrames response payment hostSig token resp) :
    ∃ drained : List (List UInt8), drained.flatten = [] ∧
      RPCReadRegistry response outputLength payment ⟨pieces ++ later, false, none, heap⟩ =
        Prod.map (wrapErr "ReadRegistry") id
          (readOutput (outputLength resp) ⟨drained ++ later, true, none, heap⟩) := by
  obtain ⟨acked, paid, afterToken, ack, pay, tokenRead, flat₃⟩ :=
    @programPrefix_frames pieces later heap reserved (writeResponse response resp) payment hostSig
      token reservedLen (by rw [flat, hostFrames])
  obtain ⟨drained, respRead, flat₄⟩ := @readResponse_frame_append _ response
    ⟨afterToken ++ later, true, none, heap⟩ _ _ _ _ rfl rfl rfl fits
    (flat₃.trans (List.append_nil _).symm)
  refine ⟨drained, flat₄, ?_⟩
  rw [RPCReadRegistry_acked, ack]
  simp only [RPCReadRegistry, pay, tokenRead, respRead]

/-- The first read of `RPCUpdateRegistry` reads the subscriber response. -/
theorem RPCUpdateRegistry_acked (payment : PaymentMethod) (s : Stream) :
    RPCUpdateRegistry response outputLength payment s =
      RPCUpdateRegistry response outputLength payment s.acked := by
  cases payment <;> simp only [RPCUpdateRegistry, processPayment, ← readResponse_acked]

/-- After a clean subscriber response and the host's frames, whatever pieces they are cut into and
whatever follows them, `RPCUpdateRegistry` reads exactly those frames. It returns the `RPCError`
the host answers the program with, or else succeeds exactly when the program's `OutputLength` is
zero; each error with `UpdateRegistry` in front. -/
theorem RPCUpdateRegistry_frames {reserved rest : List UInt8} {payment : PaymentMethod}
    {hostSig : FixedBytes 64} {token : FixedBytes 16} {answer : Except RPCError Response}
    (reservedLen : reserved.length = 8) (fits : FitsFrame response answer)
    (flat : pieces.flatten = subscriberResponse reserved 0 ++ paymentFrame hostSig payment ++
      writeResponse (fixedObject 16) token ++ responseFrame response answer ++ rest) :
    ∃ pieces' : List (List UInt8), pieces'.flatten = rest ∧
      RPCUpdateRegistry response outputLength payment ⟨pieces, false, none, heap⟩ =
        ((answer.mapError fun err => .wrapped "UpdateRegistry" (.response (.rpc err))).bind
          fun resp => if outputLength resp ≠ 0 then
            .error (.wrapped "UpdateRegistry" (.new "invalid output length")) else .ok (),
          ⟨pieces', true, none, heap⟩) := by
  obtain ⟨acked, paid, afterToken, ack, pay, tokenRead, flat'⟩ :=
    @programPrefix_frames pieces [] heap reserved (responseFrame response answer ++ rest) payment
      hostSig token reservedLen (by simpa only [List.append_assoc] using flat)
  obtain ⟨pieces', respRead, flat''⟩ := @readResponse_responseFrame _ response
    ⟨afterToken ++ [], true, none, heap⟩ _ _ rfl rfl fits (by rw [List.append_nil, flat'])
  refine ⟨pieces', flat'', ?_⟩
  rw [← List.append_nil pieces, RPCUpdateRegistry_acked, ack]
  simp only [RPCUpdateRegistry, pay, tokenRead, respRead]
  cases answer with
  | error err => rfl
  | ok resp =>
      by_cases zero : outputLength resp = 0 <;>
        simp [Except.mapError, Except.bind, zero, wrapErr, RegistryError.unwinds]

/-- After a clean subscriber response and the host's frames, whatever pieces they are cut into,
`RPCReadRegistry` cuts its value out of the piece that follows them, padded with zeros to the
announced length. -/
theorem RPCReadRegistry_first_piece {reserved piece : List UInt8} {payment : PaymentMethod}
    {hostSig : FixedBytes 64} {token : FixedBytes 16} {resp : Response}
    (reservedLen : reserved.length = 8) (fits : (encodeResponse response resp).length ≤ 2 ^ 20 - 8)
    (least : 73 ≤ outputLength resp) (most : outputLength resp ≤ maxAlloc)
    (served : outputLength resp ≤ heap)
    (flat : pieces.flatten =
      subscriberResponse reserved 0 ++ hostFrames response payment hostSig token resp)
    (bytes : piece ≠ []) :
    (RPCReadRegistry response outputLength payment ⟨pieces ++ piece :: later, false, none, heap⟩).1 =
      .ok (RegistryValue.ofBuffer (piece.take (outputLength resp) ++
        List.replicate (outputLength resp - piece.length) 0)) := by
  obtain ⟨drained, drainedNil, run⟩ := RPCReadRegistry_frames response outputLength reservedLen fits flat
  rw [run, Prod.map_fst, readOutput_first_piece drainedNil bytes least most served]
  rfl

/-- When the output begins a piece that holds all of it, `RPCReadRegistry` returns the host's
value, however the frames before it are cut. -/
theorem RPCReadRegistry_one_piece {reserved more : List UInt8} {payment : PaymentMethod}
    {hostSig : FixedBytes 64} {token : FixedBytes 16} {resp : Response} {value : RegistryValue}
    (reservedLen : reserved.length = 8) (fits : (encodeResponse response resp).length ≤ 2 ^ 20 - 8)
    (announced : outputLength resp = 73 + value.data.length)
    (most : 73 + value.data.length ≤ maxAlloc) (served : 73 + value.data.length ≤ heap)
    (flat : pieces.flatten =
      subscriberResponse reserved 0 ++ hostFrames response payment hostSig token resp) :
    (RPCReadRegistry response outputLength payment
      ⟨pieces ++ (value.output ++ more) :: later, false, none, heap⟩).1 = .ok value := by
  have whole : outputLength resp = value.output.length := by rw [announced, value.length_output]
  rw [RPCReadRegistry_first_piece response outputLength reservedLen fits (by omega) (by omega)
    (by omega) flat (by simp [RegistryValue.output]), whole, List.take_left' rfl, List.length_append,
    Nat.sub_eq_zero_of_le (Nat.le_add_right _ _), List.replicate_zero, List.append_nil,
    value.ofBuffer_output]

/-- When the output's first piece ends right after the revision, `RPCReadRegistry` returns the
host's signature and revision with data of zeros and type zero. -/
theorem RPCReadRegistry_cut_after_revision {reserved : List UInt8} {payment : PaymentMethod}
    {hostSig : FixedBytes 64} {token : FixedBytes 16} {resp : Response} {value : RegistryValue}
    (reservedLen : reserved.length = 8) (fits : (encodeResponse response resp).length ≤ 2 ^ 20 - 8)
    (announced : outputLength resp = 73 + value.data.length)
    (most : 73 + value.data.length ≤ maxAlloc) (served : 73 + value.data.length ≤ heap)
    (flat : pieces.flatten =
      subscriberResponse reserved 0 ++ hostFrames response payment hostSig token resp) :
    (RPCReadRegistry response outputLength payment
      ⟨pieces ++ value.output.take 72 :: later, false, none, heap⟩).1 =
        .ok { value with data := List.replicate value.data.length 0, type := 0 } := by
  have head : value.output.take 72 = value.signature.bytes ++ encodeBE 8 value.revision.toNat := by
    rw [RegistryValue.output, List.append_assoc _ value.data,
      List.take_left' (by simp [value.signature.length_eq])]
  have length : (value.output.take 72).length = 72 := by simp [head, value.signature.length_eq]
  have buffer : value.output.take 72 ++ List.replicate (value.data.length + 1) 0 =
      { value with data := List.replicate value.data.length 0, type := 0 }.output := by
    rw [head, RegistryValue.output, List.replicate_succ']
    simp only [List.append_assoc]
  rw [RPCReadRegistry_first_piece response outputLength reservedLen fits (by omega) (by omega)
    (by omega) flat (List.ne_nil_of_length_pos (by omega)), length, announced,
    List.take_of_length_le (by omega), show 73 + value.data.length - 72 = value.data.length + 1 by omega, buffer,
    RegistryValue.ofBuffer_output]

end Reads

/-! ## A host's output -/

/-- An `ExecuteProgram` response of which only `OutputLength` is kept, as 8 little-endian bytes:
`RPCReadRegistry` reads no other field of `rpcExecuteProgramResponse`. -/
def outputLengthObject : ProtocolObject UInt64 where
  encodeTo n := encodeLE 8 n.toNat
  decodeFrom := .read 8 fun bytes => .done (UInt64.ofNat (decodeLE bytes))
  decodeFrom_encodeTo n rest limit fits := by
    have small : n.toNat < 256 ^ 8 := n.toNat_lt_size
    rw [Decoder.parse_read (by simpa using fits) (by simp), List.take_left' (length_encodeLE 8 _),
      List.drop_left' (length_encodeLE 8 _), decodeLE_encodeLE, Nat.mod_eq_of_lt small,
      UInt64.ofNat_toNat, length_encodeLE]
    rfl

/-- A value with one byte of data. -/
def oneByteValue : RegistryValue := ⟨[7], 5, 9, FixedBytes.copy []⟩

theorem oneByteValue_one_piece :
    (List.replicate 8 (0 : UInt8)).length = 8 ∧
      (encodeResponse outputLengthObject 74).length ≤ 2 ^ 20 - 8 ∧
      UInt64.toNat 74 = 73 + oneByteValue.data.length ∧ 73 + oneByteValue.data.length ≤ maxAlloc ∧
      73 + oneByteValue.data.length ≤ 2 ^ 30 ∧
      (RPCReadRegistry outputLengthObject UInt64.toNat .byContract
        ⟨[subscriberResponse (List.replicate 8 0) 0 ++ hostFrames outputLengthObject .byContract
          (FixedBytes.copy []) (FixedBytes.copy []) 74] ++ (oneByteValue.output ++ []) :: [], false,
          none, 2 ^ 30⟩).1 = .ok oneByteValue :=
  ⟨rfl, by decide, rfl, by decide, by decide,
    RPCReadRegistry_one_piece outputLengthObject UInt64.toNat (by rfl) (by decide) (by rfl)
      (by decide) (by decide) (List.flatten_singleton _)⟩

/-- A host that answers an update paid by contract with an output length of zero, all its frames
in one piece. -/
theorem noOutput_updates :
    (List.replicate 8 (0 : UInt8)).length = 8 ∧ FitsFrame outputLengthObject (.ok 0) ∧
      ∃ pieces : List (List UInt8), pieces.flatten = [] ∧
        RPCUpdateRegistry outputLengthObject UInt64.toNat .byContract
          ⟨[subscriberResponse (List.replicate 8 0) 0 ++ paymentFrame (FixedBytes.copy []) .byContract ++
            writeResponse (fixedObject 16) (FixedBytes.copy []) ++
            responseFrame outputLengthObject (.ok 0)], false, none, 2 ^ 30⟩ =
            (.ok (), ⟨pieces, true, none, 2 ^ 30⟩) :=
  have fits : FitsFrame outputLengthObject (.ok 0) :=
    (by decide : (encodeResponse outputLengthObject 0).length ≤ 2 ^ 20 - 8)
  have ⟨pieces, flat, run⟩ := @RPCUpdateRegistry_frames _ outputLengthObject UInt64.toNat _ (2 ^ 30)
    (List.replicate 8 0) []
    .byContract _ _ _ rfl fits (by rw [List.flatten_singleton, List.append_nil])
  ⟨rfl, fits, pieces, flat, run⟩

/-- The output of a value with one byte of data, after the frames of a payment by contract, in
two pieces of which the second holds its last two bytes: the one `Read` gets 72 of the 74 bytes,
and the value comes back with data `[0]` and type `0`. -/
theorem RPCReadRegistry_cut_output :
    (RPCReadRegistry outputLengthObject UInt64.toNat .byContract
      ⟨[subscriberResponse (List.replicate 8 0) 0 ++ hostFrames outputLengthObject .byContract
          (FixedBytes.copy []) (FixedBytes.copy []) 74] ++
        [oneByteValue.output.take 72, oneByteValue.output.drop 72], false, none, 2 ^ 30⟩).1 =
      .ok { oneByteValue with data := [0], type := 0 } :=
  RPCReadRegistry_cut_after_revision outputLengthObject UInt64.toNat (by rfl) (by decide) (by rfl)
    (by decide) (by decide) (List.flatten_singleton _)

/-- Two lengths a host picks: an error length above `maxAlloc` in the subscriber response panics
in the `make` of the first `Read`, and an `OutputLength` above `maxAlloc` in the `make` of the
output. -/
theorem RPCReadRegistry_panics :
    (RPCReadRegistry outputLengthObject UInt64.toNat .byEphemeralAccount
      ⟨[subscriberResponse (List.replicate 8 0) (maxAlloc + 1)], false, none, 2 ^ 30⟩).1 =
        .error (.response (.read (.panic makesliceLen))) ∧
    (RPCReadRegistry outputLengthObject UInt64.toNat .byEphemeralAccount
      ⟨[subscriberResponse (List.replicate 8 0) 0 ++ hostFrames outputLengthObject
        .byEphemeralAccount (FixedBytes.copy []) (FixedBytes.copy []) (UInt64.ofNat (maxAlloc + 1))],
        false, none, 2 ^ 30⟩).1 = .error (.panic makesliceLen) :=
  ⟨rfl, rfl⟩

end Renterd.Rhp
