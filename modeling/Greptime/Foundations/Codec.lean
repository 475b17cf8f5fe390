import Greptime.Foundations.Bytes

/-!
# Self-delimiting byte codecs

A `Codec α` writes a value as bytes and reads one back from the front of a byte string,
returning the bytes after it.  Its two laws are fields, so that a codec without them cannot be
built:

* `de_ser`: reading the bytes of a value followed by any bytes gives the value and those bytes;
* `de_length_le`: a read never leaves more bytes than it was given.

The second law is what lets a loop of reads terminate on every input, not only on encodings.

The combinators are the conventions of an order-preserving (memcomparable) serializer of serde
data:

* `option` writes a tag byte, `0` for `None` and `1` before a value;
* `seq` writes each element after a `1` byte and ends the sequence with a `0` byte;
* `pair` writes the fields of a struct one after the other;
* `tag` writes the variant of a unit enum as one byte;
* `map` carries a codec along a function with a left inverse.

`fixed`, `char` and `string` write numbers of a fixed width little-endian and text by its
characters: codecs of plain data for examples, with no order to preserve.

Nothing here names a program.
-/

namespace Greptime

/-- A byte codec whose encodings delimit themselves. -/
structure Codec (α : Type) where
  ser : α → List UInt8
  de : List UInt8 → Option (α × List UInt8)
  de_ser : ∀ a rest, de (ser a ++ rest) = some (a, rest)
  de_length_le : ∀ {bs a rest}, de bs = some (a, rest) → rest.length ≤ bs.length

namespace Codec

variable {α β : Type}

/-! ## Options -/

/-- `None` as `0`, `Some a` as `1` and then `a`. -/
def optionSer (c : Codec α) : Option α → List UInt8
  | none => [0]
  | some a => 1 :: c.ser a

/-- Reading an option: an unknown tag byte is an error. -/
def optionDe (c : Codec α) : List UInt8 → Option (Option α × List UInt8)
  | [] => none
  | b :: rest =>
    if b = 0 then some (none, rest)
    else if b = 1 then
      match c.de rest with
      | some (a, rest') => some (some a, rest')
      | none => none
    else none

lemma optionDe_optionSer (c : Codec α) (a : Option α) (rest : List UInt8) :
    c.optionDe (c.optionSer a ++ rest) = some (a, rest) := by
  cases a with
  | none => rfl
  | some a => simp [optionSer, optionDe, c.de_ser]

/-- A read of an option takes its tag byte at least. -/
lemma optionDe_length_lt (c : Codec α) {bs : List UInt8} {a : Option α} {rest : List UInt8}
    (h : c.optionDe bs = some (a, rest)) : rest.length < bs.length := by
  match bs with
  | [] => simp [optionDe] at h
  | b :: bs =>
    simp only [optionDe] at h
    split_ifs at h with h0 h1
    · simp only [Option.some.injEq, Prod.mk.injEq] at h
      obtain ⟨-, rfl⟩ := h
      simp
    · split at h
      · rename_i a' rest' hde
        simp only [Option.some.injEq, Prod.mk.injEq] at h
        obtain ⟨-, rfl⟩ := h
        have := c.de_length_le hde
        simp only [List.length_cons]
        omega
      · cases h

lemma optionDe_length_le (c : Codec α) {bs : List UInt8} {a : Option α} {rest : List UInt8}
    (h : c.optionDe bs = some (a, rest)) : rest.length ≤ bs.length :=
  (c.optionDe_length_lt h).le

/-- serde's `Option<T>`. -/
def option (c : Codec α) : Codec (Option α) :=
  ⟨c.optionSer, c.optionDe, c.optionDe_optionSer, c.optionDe_length_le⟩

/-! ## Sequences -/

/-- Each element after a `1` byte, and a `0` byte at the end. -/
def seqSer (c : Codec α) : List α → List UInt8
  | [] => [0]
  | a :: as => 1 :: (c.ser a ++ seqSer c as)

-- h is read by the termination proof only
set_option linter.unusedVariables false in
/-- Reading a sequence: elements while the tag byte is `1`, up to a `0`. -/
def seqDe (c : Codec α) : List UInt8 → Option (List α × List UInt8)
  | [] => none
  | b :: rest =>
    if b = 0 then some ([], rest)
    else if b = 1 then
      match h : c.de rest with
      | some (a, rest') => (seqDe c rest').map fun (as, rest'') => (a :: as, rest'')
      | none => none
    else none
termination_by bs => bs.length
decreasing_by
  have := c.de_length_le h
  simp only [List.length_cons]
  omega

lemma seqDe_seqSer (c : Codec α) (as : List α) (rest : List UInt8) :
    c.seqDe (c.seqSer as ++ rest) = some (as, rest) := by
  induction as with
  | nil => simp [seqSer, seqDe]
  | cons a as ih =>
    rw [seqSer, List.cons_append, seqDe, if_neg (by decide), if_pos rfl, List.append_assoc]
    split
    · rename_i a' rest' hde
      simp only [c.de_ser, Option.some.injEq, Prod.mk.injEq] at hde
      obtain ⟨rfl, rfl⟩ := hde
      simp [ih]
    · rename_i hde
      simp [c.de_ser] at hde

@[simp] lemma length_seqSer (c : Codec α) (as : List α) :
    (c.seqSer as).length = (as.map fun a => (c.ser a).length + 1).sum + 1 := by
  induction as with
  | nil => rfl
  | cons a as ih =>
    simp only [seqSer, List.length_cons, List.length_append, ih, List.map_cons, List.sum_cons]
    omega

lemma seqDe_length_le (c : Codec α) {bs : List UInt8} {as : List α} {rest : List UInt8}
    (h : c.seqDe bs = some (as, rest)) : rest.length ≤ bs.length := by
  fun_induction c.seqDe bs generalizing as with
  | case1 => simp at h
  | case2 bs =>
    simp only [Option.some.injEq, Prod.mk.injEq] at h
    obtain ⟨-, rfl⟩ := h
    simp
  | case3 bs a rest' hde _ ih =>
    obtain ⟨⟨as', rest''⟩, hseq, hpair⟩ := Option.map_eq_some_iff.mp h
    cases hpair
    have h₁ := ih hseq
    have h₂ := c.de_length_le hde
    simp only [List.length_cons]
    omega
  | case4 => simp at h
  | case5 => simp at h

/-- serde's sequences, such as `Vec<u8>` and `&[u8]`. -/
def seq (c : Codec α) : Codec (List α) :=
  ⟨c.seqSer, c.seqDe, c.seqDe_seqSer, c.seqDe_length_le⟩

/-! ## Structs, enums, conversions -/

/-- The fields of a struct in order. -/
def pairDe (c : Codec α) (d : Codec β) (bs : List UInt8) : Option ((α × β) × List UInt8) := do
  let (a, rest) ← c.de bs
  let (b, rest') ← d.de rest
  pure ((a, b), rest')

lemma pairDe_length_le (c : Codec α) (d : Codec β) {bs : List UInt8} {ab : α × β}
    {rest : List UInt8} (h : pairDe c d bs = some (ab, rest)) : rest.length ≤ bs.length := by
  simp only [pairDe, Option.bind_eq_bind, Option.bind_eq_some_iff] at h
  obtain ⟨⟨a, rest₁⟩, hc, ⟨b, rest₂⟩, hd, hpair⟩ := h
  cases hpair
  exact Nat.le_trans (d.de_length_le hd) (c.de_length_le hc)

/-- A struct of two fields. -/
def pair (c : Codec α) (d : Codec β) : Codec (α × β) where
  ser ab := c.ser ab.1 ++ d.ser ab.2
  de := pairDe c d
  de_ser ab rest := by simp [pairDe, c.de_ser, d.de_ser]
  de_length_le h := pairDe_length_le c d h

/-- A unit enum: the variant's index as one byte; an unknown index is an error. -/
def tag (index : α → UInt8) (ofIndex : UInt8 → Option α)
    (ofIndex_index : ∀ a, ofIndex (index a) = some a) : Codec α where
  ser a := [index a]
  de
    | [] => none
    | b :: rest => (ofIndex b).map (·, rest)
  de_ser a rest := by simp [ofIndex_index]
  de_length_le {bs a rest} h := by
    match bs with
    | [] => simp at h
    | b :: bs =>
      obtain ⟨a', -, hpair⟩ := Option.map_eq_some_iff.mp h
      cases hpair
      simp

/-- A codec of `α` read as `β`: `β` is written through `g` and read back through `f`. -/
def map (c : Codec α) (f : α → β) (g : β → α) (f_g : ∀ b, f (g b) = b) : Codec β where
  ser b := c.ser (g b)
  de bs := (c.de bs).map fun (a, rest) => (f a, rest)
  de_ser b rest := by simp [c.de_ser, f_g]
  de_length_le h := by
    obtain ⟨⟨a, rest'⟩, hde, hpair⟩ := Option.map_eq_some_iff.mp h
    cases hpair
    exact c.de_length_le hde

@[simp] lemma ser_seq (c : Codec α) (as : List α) : c.seq.ser as = c.seqSer as := rfl

@[simp] lemma ser_pair (c : Codec α) (d : Codec β) (ab : α × β) :
    (c.pair d).ser ab = c.ser ab.1 ++ d.ser ab.2 := rfl

@[simp] lemma ser_map (c : Codec α) (f : α → β) (g : β → α) (f_g : ∀ b, f (g b) = b) (b : β) :
    (c.map f g f_g).ser b = c.ser (g b) := rfl

/-! ## Numbers and text -/

/-- A number below `256 ^ w` as its `w` bytes, least significant first. -/
def fixed (w : ℕ) : Codec (Fin (256 ^ w)) where
  ser i := Bytes.toLE w i
  de bs := if w ≤ bs.length then some (⟨Bytes.ofLE (bs.take w) % 256 ^ w,
    Nat.mod_lt _ (Nat.pos_of_ne_zero (by simp))⟩, bs.drop w) else none
  de_ser i rest := by
    have hlen := Bytes.length_toLE w i
    simp only [List.length_append, hlen, Nat.le_add_right, if_true, List.take_left' hlen,
      List.drop_left' hlen, Bytes.ofLE_toLE, Nat.mod_eq_of_lt i.isLt]
  de_length_le {bs a rest} h := by
    split at h
    · simp only [Option.some.injEq, Prod.mk.injEq] at h
      rw [← h.2, List.length_drop]
      omega
    · cases h

/-- A character as the four bytes of its code point. -/
def char : Codec Char :=
  (fixed 4).map (fun i => Char.ofNat i.val) (fun c => ⟨c.toNat, c.val.toNat_lt⟩) Char.ofNat_toNat

/-- A string as the sequence of its characters. -/
def string : Codec String :=
  (seq char).map String.ofList String.toList fun _ => String.ofList_toList

end Codec

end Greptime
