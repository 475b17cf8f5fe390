import Greptime.Foundations.Bytes

/-!
# Protocol Buffers wire format, and the decoders a message decoder calls

A message is a sequence of fields, each a key and a value.  A key is a varint: the field's tag
shifted left by three bits, or'ed with its wire type.  A varint is at most ten bytes of seven
bits each, the low group first, the top bit of each byte set on all but the last.  A `bytes`
value and a message are a length and the bytes.

The encoders write this format: `encodeVarint` is `encode_varint`, `encodeKey` is `encode_key`,
`lengthDelimited` a length and the bytes, and in proto3 a `bytes` field is written only when it
is not empty (`encodeBytesField`), a message field always (`encodeMessageField`).

The decoders of `prost::encoding` are a parameter, `Decoder`: `decode_varint`, `decode_key`,
`skip_field` and the read of a `double`, each reading a prefix of the bytes and returning the
rest, as `Buf` advances past what it reads.  Its other fields are what the proofs rely on: a key
is read past, each decoder reads back what the encoders write, and `skip_field` passes over a
length-delimited value whatever it holds.

The loops of a message decoder are written over a `Decoder`.  `fieldsUntil` reads a key and the
field it starts while more than a limit is left, as `merge_loop` and the hand-written loops do,
and `mergeLoop` is `merge_loop`, a length prefix and the fields of that many bytes.
`fieldsUntil_encoded` reads a run of encoded fields, each a step of a fold in `Except`, when the
decoder of each field reads exactly its value: the loop of every message decoder is this fold.

Nothing here names a program.
-/

namespace Greptime

namespace Protobuf

/-- The bytes left in a buffer. -/
abbrev Bytes := List UInt8

/-- `prost::DecodeError`: a description, and the message and field names it was met in,
innermost first. -/
structure DecodeError where
  description : String
  stack : List (String × String)
  deriving DecidableEq, Repr

/-- `DecodeError::new`. -/
def DecodeError.new (description : String) : DecodeError := ⟨description, []⟩

/-- `DecodeError::push`: the error was met in the field of the message. -/
def DecodeError.push (e : DecodeError) (message field : String) : DecodeError :=
  { e with stack := e.stack ++ [(message, field)] }

/-- `prost::encoding::WireType`. -/
inductive WireType
  | varint
  | sixtyFourBit
  | lengthDelimited
  | startGroup
  | endGroup
  | thirtyTwoBit
  deriving DecidableEq, Repr

/-- The `Debug` name of a wire type. -/
def WireType.debug : WireType → String
  | .varint => "Varint"
  | .sixtyFourBit => "SixtyFourBit"
  | .lengthDelimited => "LengthDelimited"
  | .startGroup => "StartGroup"
  | .endGroup => "EndGroup"
  | .thirtyTwoBit => "ThirtyTwoBit"

/-- `check_wire_type`. -/
def checkWireType (expected actual : WireType) : Except DecodeError Unit :=
  if expected ≠ actual then
    .error (.new ("invalid wire type: " ++ actual.debug ++ " (expected " ++ expected.debug ++ ")"))
  else .ok ()

/-! ## The encoders -/

/-- `encode_varint` with room for `k` more bytes after the first: seven bits a byte, the low
group first, the top bit set on every byte but the last.  A `u64` needs at most ten bytes, the
room `encodeVarint` gives it. -/
def encodeVarintFuel : ℕ → ℕ → Bytes
  | 0, n => [UInt8.ofNat n]
  | k + 1, n =>
    if n < 0x80 then [UInt8.ofNat n]
    else UInt8.ofNat (n % 0x80 + 0x80) :: encodeVarintFuel k (n / 0x80)

/-- `prost::encoding::encode_varint` of a `u64`. -/
def encodeVarint (n : ℕ) : Bytes := encodeVarintFuel 9 n

lemma encodeVarintFuel_ne_nil (k n : ℕ) : encodeVarintFuel k n ≠ [] := by
  cases k with
  | zero => simp [encodeVarintFuel]
  | succ k =>
    simp only [encodeVarintFuel]
    split_ifs <;> simp

lemma encodeVarint_ne_nil (n : ℕ) : encodeVarint n ≠ [] := encodeVarintFuel_ne_nil 9 n

lemma length_encodeVarintFuel_le (k n : ℕ) : (encodeVarintFuel k n).length ≤ k + 1 := by
  induction k generalizing n with
  | zero => simp [encodeVarintFuel]
  | succ k ih =>
    rw [encodeVarintFuel]
    split_ifs
    · simp
    · simpa using ih (n / 0x80)

lemma length_encodeVarint_le (n : ℕ) : (encodeVarint n).length ≤ 10 :=
  length_encodeVarintFuel_le 9 n

/-- The number of a wire type, its three bits in a key. -/
def WireType.code : WireType → ℕ
  | .varint => 0
  | .sixtyFourBit => 1
  | .lengthDelimited => 2
  | .startGroup => 3
  | .endGroup => 4
  | .thirtyTwoBit => 5

lemma WireType.code_lt (w : WireType) : w.code < 8 := by
  cases w <;> decide

/-- `encode_key`: `(tag << 3) | wire_type`, as a varint. -/
def encodeKey (tag : ℕ) (wireType : WireType) : Bytes := encodeVarint (tag * 8 + wireType.code)

/-- The tags a field may have: `1 ≤ tag < 2 ^ 29`. -/
def ValidTag (tag : ℕ) : Prop := 1 ≤ tag ∧ tag < 2 ^ 29

instance : DecidablePred ValidTag := fun tag =>
  inferInstanceAs (Decidable (1 ≤ tag ∧ tag < 2 ^ 29))

lemma encodeKey_ne_nil (tag : ℕ) (wireType : WireType) : encodeKey tag wireType ≠ [] :=
  encodeVarint_ne_nil _

/-- `encode_length_delimiter` and the bytes: the value of a `bytes` or message field. -/
def lengthDelimited (payload : Bytes) : Bytes := encodeVarint payload.length ++ payload

/-- `bytes::encode` of a proto3 field: nothing for an empty value, as `prost` derives it. -/
def encodeBytesField (tag : ℕ) (value : Bytes) : Bytes :=
  if value = [] then [] else encodeKey tag .lengthDelimited ++ lengthDelimited value

/-- `message::encode`: the key, and the message's bytes with their length, even when empty. -/
def encodeMessageField (tag : ℕ) (body : Bytes) : Bytes :=
  encodeKey tag .lengthDelimited ++ lengthDelimited body

lemma length_le_encodeBytesField (tag : ℕ) (value : Bytes) :
    value.length ≤ (encodeBytesField tag value).length := by
  unfold encodeBytesField lengthDelimited
  split_ifs with hempty
  · simp [hempty]
  · simp only [List.length_append]
    omega

lemma length_lt_encodeMessageField (tag : ℕ) (body : Bytes) :
    body.length < (encodeMessageField tag body).length := by
  have := List.length_pos_of_ne_nil (encodeKey_ne_nil tag .lengthDelimited)
  unfold encodeMessageField lengthDelimited
  simp only [List.length_append]
  omega

/-- The encoding of one of a run of fields is no longer than the run. -/
lemma length_le_flatten_of_mem {α β : Type} {f : α → List β} {as : List α} {a : α}
    (ha : a ∈ as) : (f a).length ≤ (as.map f).flatten.length :=
  (List.infix_of_mem_flatten (List.mem_map_of_mem ha)).length_le

/-- The body of one of a run of message fields is shorter than the run. -/
lemma length_lt_of_mem_messageFields {β : Type} (tag : ℕ) (f : β → Bytes) {xs : List β}
    {x : β} (hx : x ∈ xs) :
    (f x).length < ((xs.map fun x => encodeMessageField tag (f x)).flatten).length := by
  have hle : (encodeMessageField tag (f x)).length ≤
      ((xs.map fun x => encodeMessageField tag (f x)).flatten).length :=
    length_le_flatten_of_mem (f := fun x => encodeMessageField tag (f x)) hx
  have := length_lt_encodeMessageField tag (f x)
  omega

/-! ## The decoders -/

/-- The decoders of `prost::encoding` that a message decoder calls, with what the proofs rely
on of them. -/
structure Decoder where
  /-- `decode_varint` -/
  decodeVarint : Bytes → Except DecodeError (ℕ × Bytes)
  /-- `decode_key`: the tag and the wire type -/
  decodeKey : Bytes → Except DecodeError (ℕ × WireType × Bytes)
  /-- `skip_field` with the default `DecodeContext`, on the wire type and the tag of a key -/
  skipField : WireType → ℕ → Bytes → Except DecodeError Bytes
  /-- the read of `double::merge` after its wire type check: the bits of eight bytes,
  little-endian -/
  decodeFixed64 : Bytes → Except DecodeError (ℕ × Bytes)
  /-- a key is read past -/
  decodeKey_length_lt {buf rest : Bytes} {tag : ℕ} {wireType : WireType} :
    decodeKey buf = .ok (tag, wireType, rest) → rest.length < buf.length
  /-- every `u64` is read back from its varint, whatever follows it -/
  decodeVarint_encodeVarint {n : ℕ} (hn : n < 2 ^ 64) (rest : Bytes) :
    decodeVarint (encodeVarint n ++ rest) = .ok (n, rest)
  /-- the key of every field is read back -/
  decodeKey_encodeKey {tag : ℕ} (htag : ValidTag tag) (wireType : WireType) (rest : Bytes) :
    decodeKey (encodeKey tag wireType ++ rest) = .ok (tag, wireType, rest)
  /-- a length-delimited value is skipped whole, whatever it holds -/
  skipField_lengthDelimited (tag : ℕ) {payload : Bytes} (hlen : payload.length < 2 ^ 64)
    (rest : Bytes) : skipField .lengthDelimited tag (lengthDelimited payload ++ rest) = .ok rest
  /-- eight bytes are read as the number they write, little-endian -/
  decodeFixed64_toLE (n : ℕ) (rest : Bytes) :
    decodeFixed64 (Greptime.Bytes.toLE 8 n ++ rest) = .ok (n % 256 ^ 8, rest)

namespace Decoder

variable (prost : Decoder)

lemma decodeVarint_lengthDelimited {payload : Bytes} (hlen : payload.length < 2 ^ 64)
    (rest : Bytes) :
    prost.decodeVarint (lengthDelimited payload ++ rest) =
      .ok (payload.length, payload ++ rest) := by
  rw [lengthDelimited, List.append_assoc, prost.decodeVarint_encodeVarint hlen]

/-! ## The loops of a message decoder -/

-- `h` is read by the termination proof only
set_option linter.unusedVariables false in
/-- The fields of a message up to a limit: while more than `limit` bytes are left, a key and
the field it starts, as `merge_loop` and the hand-written loops decode them.  A field decoder
may fail with errors of its own, and `keyError` makes a failed key one of them.  Each field
decoder reads its value after the key and never more than is left, so the loop moves by at
least the key; a decoder that did not would end it. -/
def fieldsUntil {ε M : Type} (keyError : DecodeError → ε)
    (field : M → ℕ → WireType → Bytes → Except ε (M × Bytes))
    (limit : ℕ) (msg : M) (buf : Bytes) : Except ε (M × Bytes) :=
  if buf.length > limit then
    match h : prost.decodeKey buf with
    | .error e => .error (keyError e)
    | .ok (tag, wireType, rest) =>
      match field msg tag wireType rest with
      | .error e => .error e
      | .ok (msg', rest') =>
        if rest'.length ≤ rest.length then fieldsUntil keyError field limit msg' rest'
        else .ok (msg', rest')
  else .ok (msg, buf)
termination_by buf.length
decreasing_by
  have := prost.decodeKey_length_lt h
  omega

/-- `merge_loop`: a length prefix, and the fields of exactly that many bytes. -/
def mergeLoop {M : Type}
    (field : M → ℕ → WireType → Bytes → Except DecodeError (M × Bytes)) (msg : M) (buf : Bytes) : Except DecodeError (M × Bytes) :=
  match prost.decodeVarint buf with
  | .error e => .error e
  | .ok (len, buf) =>
    if len > buf.length then .error (.new "buffer underflow")
    else
      match prost.fieldsUntil id field (buf.length - len) msg buf with
      | .error e => .error e
      | .ok (msg, rest) =>
        if rest.length ≠ buf.length - len then .error (.new "delimited length exceeded")
        else .ok (msg, rest)

section Fields

variable {ε M α : Type} {keyError : DecodeError → ε}
  {field : M → ℕ → WireType → Bytes → Except ε (M × Bytes)} {limit : ℕ}

lemma fieldsUntil_of_length_le {msg : M} {buf : Bytes} (h : buf.length ≤ limit) :
    prost.fieldsUntil keyError field limit msg buf = .ok (msg, buf) := by
  rw [fieldsUntil, if_neg (by omega)]

/-- One turn of the loop, past a key it reads. -/
lemma fieldsUntil_of_decodeKey {msg : M} {buf rest : Bytes} {tag : ℕ} {wireType : WireType}
    (hlen : limit < buf.length) (hkey : prost.decodeKey buf = .ok (tag, wireType, rest)) :
    prost.fieldsUntil keyError field limit msg buf =
      match field msg tag wireType rest with
      | .error e => .error e
      | .ok (msg', rest') =>
        if rest'.length ≤ rest.length then prost.fieldsUntil keyError field limit msg' rest'
        else .ok (msg', rest') := by
  rw [fieldsUntil, if_pos hlen]
  split
  · rename_i e he
    rw [hkey] at he
    cases he
  · rename_i tag' wireType' rest' he
    rw [hkey] at he
    cases he
    rfl

/-- One encoded field, whose decoder reads its value whole or fails: the loop goes on with the
bytes after it, from the message the decoder leaves. -/
lemma fieldsUntil_field {tag : ℕ} (htag : ValidTag tag) {wireType : WireType}
    {value tail : Bytes} {msg : M} {x : Except ε M}
    (hfield : field msg tag wireType (value ++ tail) = x.map (·, tail))
    (hlimit : limit ≤ tail.length) :
    prost.fieldsUntil keyError field limit msg (encodeKey tag wireType ++ (value ++ tail)) =
      x >>= fun m => prost.fieldsUntil keyError field limit m tail := by
  have hkeylen := List.length_pos_of_ne_nil (encodeKey_ne_nil tag wireType)
  rw [prost.fieldsUntil_of_decodeKey (by simp; omega) (prost.decodeKey_encodeKey htag _ _),
    hfield]
  cases x with
  | error e => rfl
  | ok m =>
    -- the decoder read the value and left the tail
    simp only [Except.map]
    rw [if_pos (by simp)]
    rfl

/-- A field that proto3 leaves out when it holds its default: when it is written its decoder
reads it to `next`, and when it is not the message is already `next`. -/
lemma fieldsUntil_optional {absent : Prop} [Decidable absent] {tag : ℕ} (htag : ValidTag tag)
    {wireType : WireType} {value tail : Bytes} {msg : M} (next : M)
    (hfield : ¬ absent → field msg tag wireType (value ++ tail) = .ok (next, tail))
    (hdefault : absent → next = msg) (hlimit : limit ≤ tail.length) :
    prost.fieldsUntil keyError field limit msg
        ((if absent then [] else encodeKey tag wireType ++ value) ++ tail) =
      prost.fieldsUntil keyError field limit next tail := by
  split_ifs with habsent
  · rw [hdefault habsent, List.nil_append]
  · have hok : field msg tag wireType (value ++ tail) =
        (Except.ok next : Except ε M).map (·, tail) :=
      hfield habsent
    rw [List.append_assoc, prost.fieldsUntil_field htag hok hlimit]
    rfl

/-- A run of encoded fields, each its key and a value its decoder reads whole, is read as a
fold in `Except` of what each decoder does.  The decoders need only agree with the fold on the
messages an invariant holds of, which the fold keeps; the loop then goes on with what follows,
which leaves at least `limit` bytes. -/
lemma fieldsUntil_encoded (inv : M → Prop) (tagOf : α → ℕ) (wireOf : α → WireType)
    (value : α → Bytes) (step : M → α → Except ε M) {as : List α}
    (htag : ∀ a ∈ as, ValidTag (tagOf a))
    (hfield : ∀ m, inv m → ∀ a ∈ as, ∀ tail,
      field m (tagOf a) (wireOf a) (value a ++ tail) = (step m a).map (·, tail))
    (hstep : ∀ m, inv m → ∀ a ∈ as, ∀ m', step m a = .ok m' → inv m')
    {msg : M} (hmsg : inv msg) {tail : Bytes} (hlimit : limit ≤ tail.length) :
    prost.fieldsUntil keyError field limit msg
        ((as.map fun a => encodeKey (tagOf a) (wireOf a) ++ value a).flatten ++ tail) =
      as.foldlM step msg >>= fun m => prost.fieldsUntil keyError field limit m tail := by
  induction as generalizing msg with
  | nil => rfl
  | cons a as ih =>
    -- the first field is read, and the run goes on from the message it leaves
    have hmem : a ∈ a :: as := List.mem_cons_self
    rw [List.map_cons, List.flatten_cons, List.append_assoc, List.append_assoc,
      prost.fieldsUntil_field (htag a hmem) (hfield msg hmsg a hmem _) (by simp; omega),
      List.foldlM_cons]
    cases hs : step msg a with
    | error e => rfl
    | ok m =>
      exact ih (fun a ha => htag a (List.mem_cons_of_mem _ ha))
        (fun m hm a ha => hfield m hm a (List.mem_cons_of_mem _ ha))
        (fun m hm a ha => hstep m hm a (List.mem_cons_of_mem _ ha)) (hstep msg hmsg a hmem m hs)

/-- `merge_loop` over a length-delimited message whose fields its decoder reads whole. -/
lemma mergeLoop_lengthDelimited
    {field : M → ℕ → WireType → Bytes → Except DecodeError (M × Bytes)}
    {msg : M} {body rest : Bytes} (hlen : body.length < 2 ^ 64) {x : Except DecodeError M}
    (hfields : prost.fieldsUntil id field rest.length msg (body ++ rest) = x.map (·, rest)) :
    prost.mergeLoop field msg (lengthDelimited body ++ rest) = x.map (·, rest) := by
  unfold mergeLoop
  rw [prost.decodeVarint_lengthDelimited hlen]
  simp only [List.length_append]
  rw [if_neg (by omega), show body.length + rest.length - body.length = rest.length by omega,
    hfields]
  cases x with
  | error e => rfl
  | ok m => simp [Except.map]

end Fields

end Decoder

end Protobuf

end Greptime
