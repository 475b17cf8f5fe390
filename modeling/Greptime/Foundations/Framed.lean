import Mathlib.Data.List.Forall2

/-!
# Reading items from a stream that comes in chunks

A framed reader keeps a buffer of the bytes read and not yet decoded.  It asks its decoder for
an item at the front of the buffer; the decoder answers with the item and the bytes after it,
or with nothing while the buffer does not hold a whole item, and then the reader appends the
next chunk of the stream.  At the end of the stream the buffer must be empty.

`read_encodings` is the law of such a reader: if the decoder reads an item back from its
encoding followed by anything, and waits on every strict prefix of an encoding (`Framing`),
then the encodings of items, cut into chunks anywhere, read back as the items.  The reader
runs on fuel, and enough fuel is one step for each item, each chunk and the end.  The
invariant is that the buffer followed by the chunks not yet read is the encoding of the items
not yet returned.

Nothing here names a program.
-/

namespace Greptime

namespace Framed

variable {α ε : Type}

/-- How a framed read fails: the decoder's error, or bytes left at the end of the stream. -/
inductive ReadError (ε : Type)
  | decode (e : ε)
  | bytesRemaining
  deriving DecidableEq

/-- The items read from `buffer` and then `chunks`, in `fuel` steps at most (`none` when the
fuel runs out). -/
def read (decode : List UInt8 → Except ε (Option (α × List UInt8))) :
    ℕ → List UInt8 → List (List UInt8) → Option (Except (ReadError ε) (List α))
  | 0, _, _ => none
  | fuel + 1, buffer, chunks =>
    match decode buffer with
    | .error e => some (.error (.decode e))
    | .ok (some (item, rest)) => (read decode fuel rest chunks).map fun r => r.map (item :: ·)
    | .ok none =>
      match chunks with
      | [] => if buffer = [] then some (.ok []) else some (.error .bytesRemaining)
      | chunk :: chunks => read decode fuel (buffer ++ chunk) chunks

/-- A decoder that reads back, up to `R`, the items of `encode` that are `valid`: an item from
its encoding followed by anything, nothing from a strict prefix of an encoding, and nothing
from no bytes. -/
structure Framing (encode : α → List UInt8) (decode : List UInt8 → Except ε (Option (α × List UInt8)))
    (valid : α → Prop) (R : α → α → Prop) : Prop where
  decode_encode : ∀ a, valid a → ∀ rest, ∃ a', R a a' ∧ decode (encode a ++ rest) = .ok (some (a', rest))
  decode_prefix : ∀ a, valid a → ∀ bs more, bs ++ more = encode a → more ≠ [] → decode bs = .ok none
  decode_nil : decode [] = .ok none

section Framing

variable {encode : α → List UInt8} {decode : List UInt8 → Except ε (Option (α × List UInt8))}
  {valid : α → Prop} {R : α → α → Prop}

/-- A buffer shorter than the next item's encoding, and a prefix of it, reads nothing. -/
lemma Framing.decode_short (hf : Framing encode decode valid R) {a : α} (ha : valid a)
    {buffer tail tail' : List UInt8} (h : buffer ++ tail = encode a ++ tail')
    (hshort : buffer.length < (encode a).length) : decode buffer = .ok none := by
  have htake : (encode a).take buffer.length = buffer := by
    have := congrArg (List.take buffer.length) h
    rwa [List.take_left, List.take_append_of_le_length (Nat.le_of_lt hshort), eq_comm] at this
  refine hf.decode_prefix a ha buffer ((encode a).drop buffer.length) ?_ ?_
  · calc buffer ++ (encode a).drop buffer.length
        = (encode a).take buffer.length ++ (encode a).drop buffer.length := by rw [htake]
      _ = encode a := List.take_append_drop _ _
  · simp only [ne_eq, List.drop_eq_nil_iff, Nat.not_le]
    exact hshort

/-- The encodings of valid items, whatever the chunks they come in, read back as the items, up
to `R`.  The induction is on the fuel, with the buffer followed by the unread chunks the
encoding of the items not yet read. -/
theorem read_encodings (hf : Framing encode decode valid R) (fuel : ℕ) (items : List α)
    (hvalid : ∀ a ∈ items, valid a) (buffer : List UInt8) (chunks : List (List UInt8))
    (hbytes : buffer ++ chunks.flatten = items.flatMap encode)
    (hfuel : items.length + chunks.length < fuel) :
    ∃ items', List.Forall₂ R items items' ∧ read decode fuel buffer chunks = some (.ok items') := by
  induction fuel generalizing items buffer chunks with
  | zero => omega
  | succ fuel ih =>
    cases items with
    | nil =>
      -- no item is left: the buffer and the chunks hold no bytes
      rw [List.flatMap_nil, List.append_eq_nil_iff] at hbytes
      obtain ⟨rfl, hflat⟩ := hbytes
      cases chunks with
      | nil => exact ⟨[], .nil, by simp [read, hf.decode_nil]⟩
      | cons chunk chunks =>
        rw [List.flatten_cons, List.append_eq_nil_iff] at hflat
        obtain ⟨rfl, hflat⟩ := hflat
        obtain ⟨items', hR, hread⟩ := ih [] (by simp) [] chunks (by simpa using hflat)
          (by simp at hfuel ⊢; omega)
        exact ⟨items', hR, by simp [read, hf.decode_nil, hread]⟩
    | cons a items =>
      have ha : valid a := hvalid a List.mem_cons_self
      have hrest : ∀ b ∈ items, valid b := fun b hb => hvalid b (List.mem_cons_of_mem a hb)
      rw [List.flatMap_cons] at hbytes
      by_cases hlong : (encode a).length ≤ buffer.length
      · -- the buffer holds the whole encoding of the next item
        have htake : buffer.take (encode a).length = encode a := by
          have := congrArg (List.take (encode a).length) hbytes
          rwa [List.take_append_of_le_length hlong, List.take_left] at this
        obtain ⟨rest, rfl⟩ : ∃ rest, buffer = encode a ++ rest :=
          ⟨buffer.drop (encode a).length, (List.take_append_drop _ buffer).symm.trans (by rw [htake])⟩
        obtain ⟨a', hRa, hdec⟩ := hf.decode_encode a ha rest
        obtain ⟨items', hR, hread⟩ := ih items hrest rest chunks
          (by simpa [List.append_assoc] using hbytes) (by simp at hfuel; omega)
        exact ⟨a' :: items', .cons hRa hR, by simp [read, hdec, hread, Except.map]⟩
      · -- the buffer is a strict prefix of the next item's encoding: read a chunk
        have hnone : decode buffer = .ok none := hf.decode_short ha hbytes (by omega)
        cases chunks with
        | nil =>
          have := congrArg List.length hbytes
          simp at this
          omega
        | cons chunk chunks =>
          obtain ⟨items', hR, hread⟩ := ih (a :: items) hvalid (buffer ++ chunk) chunks
            (by simpa [List.append_assoc] using hbytes) (by simp at hfuel ⊢; omega)
          exact ⟨items', hR, by simp [read, hnone, hread]⟩

end Framing

end Framed

end Greptime
