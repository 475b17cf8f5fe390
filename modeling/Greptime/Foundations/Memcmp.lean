import Greptime.Foundations.Codec
import Greptime.Foundations.Lex

/-!
# memcomparable: byte encodings that compare as their values

The memcomparable format writes serde data so that the bytes of two values, compared
lexicographically, compare as the values.  The bytes of a value also delimit themselves, so
the encodings of the fields of a record can be written one after the other and read back, and
the bytes of two records then compare field after field (`ser_append_lt_iff`).

* a `bool` is one byte, `0` or `1`;
* an unsigned integer is its bytes, most significant first (`toBE`);
* a signed integer is the bytes of its bits with the sign bit flipped, which is the value plus
  `2 ^ (N - 1)` read as an unsigned number;
* a byte string (`serialize_bytes`; a `str` is written by its UTF-8 bytes) is a flag byte, `0`
  for the empty string and `1` otherwise, and then its bytes in groups of eight, each group
  followed by `9` when more bytes follow and otherwise by the number of its bytes, the last
  group padded with zeros.

`Codec.option` and `Codec.seq` are the format's options and sequences.  Each codec comes with
the order its bytes keep (`OrderedBy`).

Nothing here names a program.
-/

namespace Greptime

namespace Memcmp

/-! ## Big-endian numbers -/

/-- The `w` low bytes of `n`, most significant first, as `put_uN` writes them. -/
def toBE : ℕ → ℕ → List UInt8
  | 0, _ => []
  | w + 1, n => UInt8.ofNat (n / 256 ^ w) :: toBE w (n % 256 ^ w)

/-- The number that bytes stand for, most significant first. -/
def ofBE : List UInt8 → ℕ
  | [] => 0
  | b :: bs => b.toNat * 256 ^ bs.length + ofBE bs

@[simp] lemma length_toBE (w n : ℕ) : (toBE w n).length = w := by
  induction w generalizing n with
  | zero => rfl
  | succ w ih => simp [toBE, ih]

lemma ofBE_lt (bs : List UInt8) : ofBE bs < 256 ^ bs.length := by
  induction bs with
  | nil => simp [ofBE]
  | cons b bs ih =>
    have hb : b.toNat < 256 := b.toNat_lt
    rw [ofBE, List.length_cons, Nat.pow_succ]
    calc b.toNat * 256 ^ bs.length + ofBE bs < (b.toNat + 1) * 256 ^ bs.length := by
          rw [Nat.succ_mul]
          omega
      _ ≤ 256 ^ bs.length * 256 := by
          rw [Nat.mul_comm]
          exact Nat.mul_le_mul_left _ hb

/-- The leading byte of a number of `w + 1` bytes. -/
lemma div_lt_of_lt_pow {n w : ℕ} (h : n < 256 ^ (w + 1)) : n / 256 ^ w < 256 :=
  Nat.div_lt_of_lt_mul (by rwa [Nat.pow_succ] at h)

lemma toNat_ofNat_of_lt {n : ℕ} (h : n < 256) : (UInt8.ofNat n).toNat = n := by
  rw [UInt8.toNat_ofNat']
  exact Nat.mod_eq_of_lt h

lemma ofBE_toBE {w n : ℕ} (h : n < 256 ^ w) : ofBE (toBE w n) = n := by
  induction w generalizing n with
  | zero =>
    rw [Nat.pow_zero, Nat.lt_one_iff] at h
    rw [h]
    rfl
  | succ w ih =>
    rw [toBE, ofBE, length_toBE, ih (Nat.mod_lt _ (Nat.pow_pos (by decide))),
      toNat_ofNat_of_lt (div_lt_of_lt_pow h)]
    exact Nat.div_add_mod' n (256 ^ w)

/-- Numbers compare by their quotients, and then by their remainders. -/
lemma lt_iff_div_mod {a b m : ℕ} (hm : 0 < m) :
    a < b ↔ a / m < b / m ∨ a / m = b / m ∧ a % m < b % m := by
  have ha := Nat.div_add_mod a m
  have hb := Nat.div_add_mod b m
  have hra := Nat.mod_lt a hm
  have hrb := Nat.mod_lt b hm
  constructor
  · intro hab
    rcases lt_trichotomy (a / m) (b / m) with h | h | h
    · exact .inl h
    · refine .inr ⟨h, ?_⟩
      rw [h] at ha
      omega
    · have hle : m * (b / m + 1) ≤ m * (a / m) := Nat.mul_le_mul_left m h
      rw [Nat.mul_succ] at hle
      omega
  · rintro (h | ⟨h, hr⟩)
    · have hle : m * (a / m + 1) ≤ m * (b / m) := Nat.mul_le_mul_left m h
      rw [Nat.mul_succ] at hle
      omega
    · rw [h] at ha
      omega

lemma ofNat_lt_ofNat_iff {x y : ℕ} (hx : x < 256) (hy : y < 256) :
    UInt8.ofNat x < UInt8.ofNat y ↔ x < y := by
  rw [UInt8.lt_iff_toNat_lt, toNat_ofNat_of_lt hx, toNat_ofNat_of_lt hy]

lemma ofNat_eq_ofNat_iff {x y : ℕ} (hx : x < 256) (hy : y < 256) :
    UInt8.ofNat x = UInt8.ofNat y ↔ x = y := by
  rw [← UInt8.toNat_inj, toNat_ofNat_of_lt hx, toNat_ofNat_of_lt hy]

/-- Numbers of `w` bytes compare as their bytes. -/
lemma toBE_lt_toBE_iff {w a b : ℕ} (ha : a < 256 ^ w) (hb : b < 256 ^ w) :
    toBE w a < toBE w b ↔ a < b := by
  induction w generalizing a b with
  | zero =>
    rw [Nat.pow_zero, Nat.lt_one_iff] at ha hb
    simp [toBE, ha, hb, List.not_lt_nil]
  | succ w ih =>
    have hm : 0 < 256 ^ w := Nat.pow_pos (by decide)
    rw [toBE, toBE, List.cons_lt_cons_iff, ih (Nat.mod_lt _ hm) (Nat.mod_lt _ hm),
      lt_iff_div_mod (a := a) (b := b) hm, ofNat_lt_ofNat_iff (div_lt_of_lt_pow ha) (div_lt_of_lt_pow hb),
      ofNat_eq_ofNat_iff (div_lt_of_lt_pow ha) (div_lt_of_lt_pow hb)]

/-! ## Codecs whose bytes compare as their values -/

variable {α : Type}

/-- The bytes of two values compare as `lt` compares the values. -/
def OrderedBy (c : Codec α) (lt : α → α → Prop) : Prop := ∀ a b, c.ser a < c.ser b ↔ lt a b

/-- The bytes of a value begin the bytes of no other value. -/
lemma eq_of_isPrefix (c : Codec α) {a b : α} (rest : List UInt8)
    (h : (c.ser a).IsPrefix (c.ser b ++ rest)) : a = b := by
  obtain ⟨t, ht⟩ := h
  have hde := c.de_ser a t
  rw [ht, c.de_ser b rest] at hde
  exact (Prod.mk.inj (Option.some.inj hde)).1.symm

/-- Bytes that begin with the bytes of two values compare as the values, and then as what
follows them. -/
lemma ser_append_lt_iff (c : Codec α) (a b : α) (x y : List UInt8) :
    c.ser a ++ x < c.ser b ++ y ↔ c.ser a < c.ser b ∨ a = b ∧ x < y := by
  by_cases hab : a = b
  · subst hab
    rw [Lex.append_lt_append_left_iff]
    simp [List.lt_irrefl]
  · rw [Lex.append_lt_append_of_not_isPrefix x y
      (fun h => hab (eq_of_isPrefix c [] (by simpa using h)))
      (fun h => hab (eq_of_isPrefix c [] (by simpa using h)).symm)]
    simp [hab]

/-- The bytes of two values are equal exactly when the values are. -/
lemma ser_inj (c : Codec α) {a b : α} (h : c.ser a = c.ser b) : a = b :=
  eq_of_isPrefix c [] (by simp [h])

lemma orderedBy_map {β : Type} {c : Codec α} {lt : α → α → Prop} (hc : OrderedBy c lt)
    (f : α → β) (g : β → α) (f_g : ∀ b, f (g b) = b) :
    OrderedBy (c.map f g f_g) (fun x y => lt (g x) (g y)) :=
  fun x y => hc (g x) (g y)

/-- `None` before every value, and values in the order `lt`. -/
def OptionLt (lt : α → α → Prop) : Option α → Option α → Prop
  | none, some _ => True
  | some a, some b => lt a b
  | _, _ => False

lemma orderedBy_option {c : Codec α} {lt : α → α → Prop} (hc : OrderedBy c lt) :
    OrderedBy c.option (OptionLt lt) := by
  intro a b
  cases a <;> cases b <;>
    simp [Codec.option, Codec.optionSer, OptionLt, List.cons_lt_cons_iff, List.not_lt_nil, hc _ _]

/-- A sequence of values compares as the values, one after the other, a sequence before the
longer ones it begins. -/
lemma orderedBy_seq [LT α] {c : Codec α} (hc : OrderedBy c (· < ·)) :
    OrderedBy c.seq (· < ·) := by
  intro as bs
  induction as generalizing bs with
  | nil => cases bs <;> simp [Codec.seqSer, List.cons_lt_cons_iff, List.not_lt_nil]
  | cons a as ih =>
    cases bs with
    | nil => simp [Codec.seqSer, List.cons_lt_cons_iff, List.not_lt_nil]
    | cons b bs =>
      have h11 : ¬ (1 : UInt8) < 1 := by decide
      have hrest := ih bs
      simp only [Codec.ser_seq] at hrest
      simp only [Codec.ser_seq, Codec.seqSer, List.cons_lt_cons_iff, h11, true_and, false_or,
        ser_append_lt_iff, hc a b, hrest]

/-! ## Numbers -/

/-- `bool`: one byte, `0` or `1`; another byte is an error. -/
def bool : Codec Bool where
  ser b := [if b then 1 else 0]
  de
    | [] => none
    | b :: rest => if b = 0 then some (false, rest) else if b = 1 then some (true, rest) else none
  de_ser b rest := by cases b <;> rfl
  de_length_le {bs a rest} h := by
    match bs with
    | [] => simp at h
    | b :: bs =>
      simp only at h
      split_ifs at h <;> simp_all

lemma orderedBy_bool : OrderedBy bool (· < ·) := by
  intro a b
  cases a <;> cases b <;> decide

/-- A number of `w` bytes, most significant first; fewer bytes are an error. -/
def fixedBE (w : ℕ) : Codec (Fin (256 ^ w)) where
  ser i := toBE w i
  de bs := if w ≤ bs.length then some (⟨ofBE (bs.take w), lt_of_lt_of_le (ofBE_lt _)
    (Nat.pow_le_pow_right (by decide) (List.length_take_le _ _))⟩, bs.drop w) else none
  de_ser i rest := by
    have hlen := length_toBE w i
    simp only [List.length_append, hlen, Nat.le_add_right, if_true, List.take_left' hlen,
      List.drop_left' hlen, ofBE_toBE i.isLt]
  de_length_le {bs a rest} h := by
    split at h
    · simp only [Option.some.injEq, Prod.mk.injEq] at h
      rw [← h.2, List.length_drop]
      exact Nat.sub_le _ _
    · cases h

lemma orderedBy_fixedBE (w : ℕ) : OrderedBy (fixedBE w) (· < ·) :=
  fun a b => toBE_lt_toBE_iff a.isLt b.isLt

lemma lt_pow_of_bitVec {k : ℕ} (v : BitVec (8 * k)) : v.toNat < 256 ^ k := by
  have h := v.isLt
  rwa [Nat.pow_mul] at h

/-- An unsigned integer of `k` bytes, most significant first. -/
def unsigned (k : ℕ) : Codec (BitVec (8 * k)) :=
  (fixedBE k).map (fun i => BitVec.ofNat (8 * k) i) (fun v => ⟨v.toNat, lt_pow_of_bitVec v⟩)
    fun v => by simp

lemma orderedBy_unsigned (k : ℕ) : OrderedBy (unsigned k) (fun a b => a.toNat < b.toNat) :=
  orderedBy_map (orderedBy_fixedBE k) _ _ _

/-- A signed value moved up by `2 ^ (N - 1)`, which is its bits with the sign bit flipped
(`v as uN ^ 1 << (N - 1)`): it is a number of `N` bits. -/
lemma flip_lt {k : ℕ} [NeZero k] (v : BitVec (8 * k)) :
    (v.toInt + 2 ^ (8 * k - 1)).toNat < 256 ^ k := by
  have hlt := BitVec.toInt_lt (x := v)
  have hk : 8 * k - 1 + 1 = 8 * k := by have := Nat.pos_of_neZero k; omega
  have hpow : 256 ^ k = 2 ^ (8 * k - 1) * 2 := by
    rw [← Nat.pow_succ, Nat.succ_eq_add_one, hk, Nat.pow_mul]
  have hpos : 0 < 2 ^ (8 * k - 1) := Nat.pow_pos (by decide)
  have hcast : ((2 ^ (8 * k - 1) : ℕ) : ℤ) = 2 ^ (8 * k - 1) := Int.natCast_pow 2 _
  rw [hpow]
  omega

/-- A signed integer of `k` bytes: its bits with the sign bit flipped, most significant
first. -/
def signed (k : ℕ) [NeZero k] : Codec (BitVec (8 * k)) :=
  (fixedBE k).map (fun i => BitVec.ofInt (8 * k) ((i : ℤ) - 2 ^ (8 * k - 1)))
    (fun v => ⟨(v.toInt + 2 ^ (8 * k - 1)).toNat, flip_lt v⟩) fun v => by
      have hle := BitVec.le_toInt (x := v)
      simp only
      rw [Int.toNat_of_nonneg (by omega), add_sub_cancel_right, BitVec.ofInt_toInt]

lemma orderedBy_signed (k : ℕ) [NeZero k] :
    OrderedBy (signed k) (fun a b => a.toInt < b.toInt) := by
  intro a b
  have ha := BitVec.le_toInt (x := a)
  have hb := BitVec.le_toInt (x := b)
  show (fixedBE k).ser ⟨_, flip_lt a⟩ < (fixedBE k).ser ⟨_, flip_lt b⟩ ↔ a.toInt < b.toInt
  rw [orderedBy_fixedBE k]
  simp only [Fin.mk_lt_mk]
  omega

/-! ## Byte strings -/

/-- A group of `serialize_bytes`: the first eight bytes, padded with zeros to eight. -/
def group (bs : List UInt8) : List UInt8 := bs.take 8 ++ List.replicate (8 - bs.length) 0

@[simp] lemma length_group (bs : List UInt8) : (group bs).length = 8 := by
  simp only [group, List.length_append, List.length_take, List.length_replicate]
  omega

/-- The byte after a group: `9` when more bytes follow, and otherwise the number of bytes in
the group (`len == v.len()` holds at the last group). -/
def groupEnd (bs : List UInt8) : UInt8 := if bs.length ≤ 8 then UInt8.ofNat bs.length else 9

lemma groupEnd_of_le {bs : List UInt8} (h : bs.length ≤ 8) : groupEnd bs = UInt8.ofNat bs.length :=
  if_pos h

lemma groupEnd_of_lt {bs : List UInt8} (h : 8 < bs.length) : groupEnd bs = 9 :=
  if_neg (by omega)

/-- The groups of `serialize_bytes` after its flag byte. -/
def groupsSer : List UInt8 → List UInt8
  | [] => []
  | b :: bs => group (b :: bs) ++ groupEnd (b :: bs) :: groupsSer ((b :: bs).drop 8)
termination_by l => l.length
decreasing_by
  simp only [List.length_drop, List.length_cons]
  omega

@[simp] lemma groupsSer_nil : groupsSer [] = [] := by
  rw [groupsSer]

lemma groupsSer_of_ne_nil {bs : List UInt8} (h : bs ≠ []) :
    groupsSer bs = group bs ++ groupEnd bs :: groupsSer (bs.drop 8) := by
  obtain ⟨b, bs, rfl⟩ := List.exists_cons_of_ne_nil h
  rw [groupsSer]

/-- Reading the groups, nine bytes at a time: a group followed by `9` goes on, a group
followed by `1` to `8` is the last and holds that many bytes, another byte is an error. -/
def groupsDe (bs : List UInt8) : Option (List UInt8 × List UInt8) :=
  match _h : bs.drop 8 with
  | [] => none
  | extra :: rest =>
    if extra = 9 then (groupsDe rest).map fun (more, tail) => (bs.take 8 ++ more, tail)
    else if 1 ≤ extra ∧ extra ≤ 8 then some (bs.take extra.toNat, rest)
    else none
termination_by bs.length
decreasing_by
  have hlen := congrArg List.length _h
  simp only [List.length_drop, List.length_cons] at hlen
  omega

lemma groupsDe_eq {bs : List UInt8} {extra : UInt8} {rest : List UInt8}
    (h : bs.drop 8 = extra :: rest) :
    groupsDe bs =
      if extra = 9 then (groupsDe rest).map fun (more, tail) => (bs.take 8 ++ more, tail)
      else if 1 ≤ extra ∧ extra ≤ 8 then some (bs.take extra.toNat, rest)
      else none := by
  rw [groupsDe]
  split
  · simp_all
  · rename_i extra' rest' h'
    obtain ⟨rfl, rfl⟩ : extra = extra' ∧ rest = rest' := by simpa [h] using h'
    rfl

/-- The count byte of a last group is one of `1` to `8`, so it is not `9`. -/
lemma count_spec {n : ℕ} (h1 : 1 ≤ n) (h8 : n ≤ 8) :
    UInt8.ofNat n ≠ 9 ∧ (1 ≤ UInt8.ofNat n ∧ UInt8.ofNat n ≤ 8) ∧ (UInt8.ofNat n).toNat = n := by
  have hn := toNat_ofNat_of_lt (show n < 256 by omega)
  refine ⟨fun h9 => ?_, ⟨?_, ?_⟩, hn⟩
  · have h := congrArg UInt8.toNat h9
    rw [hn] at h
    simp only [UInt8.reduceToNat] at h
    omega
  · rw [UInt8.le_iff_toNat_le, hn]
    exact h1
  · rw [UInt8.le_iff_toNat_le, hn]
    exact h8

/-- The groups of a nonempty string read back as the string, whatever follows them. -/
lemma groupsDe_groupsSer (bs : List UInt8) (h : bs ≠ []) (rest : List UInt8) :
    groupsDe (groupsSer bs ++ rest) = some (bs, rest) := by
  have hlen : bs.length ≠ 0 := fun h0 => h (List.eq_nil_of_length_eq_zero h0)
  rw [groupsSer_of_ne_nil h, List.append_assoc, List.cons_append,
    groupsDe_eq (List.drop_left' (length_group bs)), List.take_left' (length_group bs)]
  by_cases hle : bs.length ≤ 8
  · -- the last group: its count byte says how many of its bytes are the string's
    obtain ⟨h9, hcount, hn⟩ := count_spec (Nat.pos_of_ne_zero hlen) hle
    have htake : (group bs ++ UInt8.ofNat bs.length :: (groupsSer (bs.drop 8) ++ rest)).take
        bs.length = bs := by
      rw [List.take_append_of_le_length (by simpa using hle), group,
        List.take_of_length_le hle, List.take_left' rfl]
    rw [groupEnd_of_le hle, if_neg h9, if_pos hcount, hn, htake, List.drop_eq_nil_of_le hle,
      groupsSer_nil, List.nil_append]
  · have hmore : bs.drop 8 ≠ [] := by
      rw [Ne, List.drop_eq_nil_iff]
      omega
    rw [groupEnd_of_lt (by omega), if_pos rfl, groupsDe_groupsSer (bs.drop 8) hmore rest]
    have hgroup : group bs = bs.take 8 := by
      rw [group, Nat.sub_eq_zero_of_le (by omega), List.replicate_zero, List.append_nil]
    simp [hgroup]
termination_by bs.length
decreasing_by
  simp only [List.length_drop]
  omega

lemma groupsDe_length_le {bs more rest : List UInt8} (h : groupsDe bs = some (more, rest)) :
    rest.length ≤ bs.length := by
  match hdrop : bs.drop 8 with
  | [] =>
    rw [groupsDe, hdrop] at h
    cases h
  | extra :: rest' =>
    have hlen := congrArg List.length hdrop
    simp only [List.length_drop, List.length_cons] at hlen
    rw [groupsDe_eq hdrop] at h
    split_ifs at h
    · obtain ⟨⟨more', tail⟩, hde, heq⟩ := Option.map_eq_some_iff.mp h
      simp only [Prod.mk.injEq] at heq
      rw [← heq.2]
      have := groupsDe_length_le hde
      omega
    · simp only [Option.some.injEq, Prod.mk.injEq] at h
      rw [← h.2]
      omega
termination_by bs.length
decreasing_by
  have hlen := congrArg List.length hdrop
  simp only [List.length_drop, List.length_cons] at hlen
  omega

lemma groupsDe_of_drop_eq_nil {bs : List UInt8} (h : bs.drop 8 = []) : groupsDe bs = none := by
  rw [groupsDe]
  split
  · rfl
  · simp_all

/-- A byte string, as `serialize_bytes` writes it: a flag byte, `0` for the empty string and
`1` otherwise, then the groups. -/
def bytesSer (v : List UInt8) : List UInt8 := (if v.isEmpty then 0 else 1) :: groupsSer v

/-- Reading a byte string: after the flag `0` the empty string, after `1` the groups; another
flag is an error. -/
def bytesDe : List UInt8 → Option (List UInt8 × List UInt8)
  | [] => none
  | flag :: rest => if flag = 0 then some ([], rest) else if flag = 1 then groupsDe rest else none

/-- `serialize_bytes`, the encoding of `[u8]` and `str`. -/
def bytes : Codec (List UInt8) where
  ser := bytesSer
  de := bytesDe
  de_ser v rest := by
    cases v with
    | nil => simp [bytesSer, bytesDe]
    | cons b v => simp [bytesSer, bytesDe, groupsDe_groupsSer]
  de_length_le {bs a rest} h := by
    match bs with
    | [] => cases h
    | flag :: bs =>
      simp only [bytesDe] at h
      split_ifs at h
      · simp only [Option.some.injEq, Prod.mk.injEq] at h
        rw [← h.2, List.length_cons]
        omega
      · have := groupsDe_length_le h
        rw [List.length_cons]
        omega

/-- Skipping the groups, nine bytes at a time, as reading them does. -/
def groupsSkip (bs : List UInt8) : Option (List UInt8) :=
  match _h : bs.drop 8 with
  | [] => none
  | extra :: rest =>
    if extra = 9 then groupsSkip rest
    else if 1 ≤ extra ∧ extra ≤ 8 then some rest
    else none
termination_by bs.length
decreasing_by
  have hlen := congrArg List.length _h
  simp only [List.length_drop, List.length_cons] at hlen
  omega

/-- `Deserializer::skip_bytes`: the bytes after a byte string, passed over without keeping it. -/
def skipBytes : List UInt8 → Option (List UInt8)
  | [] => none
  | flag :: rest => if flag = 0 then some rest else if flag = 1 then groupsSkip rest else none

/-- Skipping stops where reading stops. -/
lemma groupsSkip_eq_map (bs : List UInt8) : groupsSkip bs = (groupsDe bs).map Prod.snd := by
  rw [groupsSkip]
  split
  · rename_i hdrop
    rw [groupsDe_of_drop_eq_nil hdrop]
    rfl
  · rename_i extra rest hdrop
    have hlen := congrArg List.length hdrop
    simp only [List.length_drop, List.length_cons] at hlen
    rw [groupsDe_eq hdrop]
    split_ifs
    · rw [groupsSkip_eq_map rest, Option.map_map]
      rfl
    · rfl
    · rfl
termination_by bs.length
decreasing_by
  simp only [List.length_drop, List.length_cons] at *
  omega

lemma skipBytes_eq_map (bs : List UInt8) : skipBytes bs = (bytes.de bs).map Prod.snd := by
  match bs with
  | [] => rfl
  | flag :: rest =>
    show skipBytes (flag :: rest) = (bytesDe (flag :: rest)).map Prod.snd
    simp only [skipBytes, bytesDe]
    split_ifs
    · rfl
    · exact groupsSkip_eq_map rest
    · rfl

lemma skipBytes_ser (v rest : List UInt8) : skipBytes (bytes.ser v ++ rest) = some rest := by
  rw [skipBytes_eq_map, bytes.de_ser]
  rfl

/-! ## The order of byte strings -/

/-- A codec that is strictly monotone for a trichotomous order keeps the order both ways. -/
lemma orderedBy_of_lt_imp {lt : α → α → Prop} {c : Codec α}
    (htri : ∀ a b, lt a b ∨ a = b ∨ lt b a) (hmono : ∀ a b, lt a b → c.ser a < c.ser b) :
    OrderedBy c lt := by
  intro a b
  refine ⟨fun h => ?_, hmono a b⟩
  rcases htri a b with hab | rfl | hba
  · exact hab
  · exact absurd h (List.lt_irrefl _)
  · exact absurd h (List.lt_asymm (hmono b a hba))

/-- Zeros are below every string at least as long. -/
lemma replicate_zero_le : ∀ {n : ℕ} {l : List UInt8}, n ≤ l.length → List.replicate n 0 ≤ l
  | 0, l, _ => List.nil_le l
  | n + 1, [], h => absurd h (by simp)
  | n + 1, x :: l, h => by
    rw [List.replicate_succ, List.cons_le_cons_iff]
    by_cases hx : x = 0
    · exact .inr ⟨hx.symm, replicate_zero_le (by simpa using h)⟩
    · exact .inl (UInt8.pos_iff_ne_zero.mpr hx)

lemma groupEnd_lt_groupEnd {a b : List UInt8} (hab : a.length < b.length) (ha : a.length ≤ 8) :
    groupEnd a < groupEnd b := by
  rw [groupEnd_of_le ha, UInt8.lt_iff_toNat_lt, toNat_ofNat_of_lt (by omega)]
  by_cases hb : b.length ≤ 8
  · rw [groupEnd_of_le hb, toNat_ofNat_of_lt (by omega)]
    exact hab
  · rw [groupEnd_of_lt (by omega)]
    show a.length < 9
    omega

/-- Strings whose first eight bytes differ within both compare as their groups. -/
lemma group_lt_group_of_not_isPrefix {a b : List UInt8} (h1 : ¬ (a.take 8).IsPrefix (b.take 8))
    (h2 : ¬ (b.take 8).IsPrefix (a.take 8)) : a < b ↔ group a < group b := by
  conv_lhs => rw [← List.take_append_drop 8 a, ← List.take_append_drop 8 b]
  rw [group, group, Lex.append_lt_append_of_not_isPrefix _ _ h1 h2,
    Lex.append_lt_append_of_not_isPrefix _ _ h1 h2]

/-- Where the first eight bytes of `a` begin those of `b`, the group of `a` is at most the group
of `b`: the zeros that pad it are below what `b` has there. -/
lemma group_le_group_of_isPrefix {a b : List UInt8} (h : (a.take 8).IsPrefix (b.take 8)) :
    group a ≤ group b := by
  obtain ⟨c, hc⟩ := h
  have hlen := congrArg List.length hc
  simp only [List.length_append, List.length_take] at hlen
  rw [group, group, ← hc, List.append_assoc, Lex.append_le_append_left_iff]
  exact replicate_zero_le (by simp only [List.length_append, List.length_replicate]; omega)

lemma nil_lt_of_ne_nil {l : List UInt8} (h : l ≠ []) : [] < l := by
  obtain ⟨x, l, rfl⟩ := List.exists_cons_of_ne_nil h
  exact List.nil_lt_cons x l

/-- The groups of two strings compare as the strings. -/
lemma groupsSer_lt_groupsSer (a b : List UInt8) (hab : a < b) : groupsSer a < groupsSer b := by
  have hb : b ≠ [] := by
    rintro rfl
    exact List.not_lt_nil _ hab
  by_cases ha : a = []
  · subst ha
    rw [groupsSer_nil, groupsSer_of_ne_nil hb]
    exact nil_lt_of_ne_nil (List.append_ne_nil_of_right_ne_nil _ (List.cons_ne_nil _ _))
  rw [groupsSer_of_ne_nil ha, groupsSer_of_ne_nil hb,
    Lex.append_lt_append_of_length_eq _ _ ((length_group a).trans (length_group b).symm)]
  by_cases hBA : (b.take 8).IsPrefix (a.take 8)
  · -- `b` has a full group, or it would begin `a`; the groups agree and the rest decides
    have hb8 : 8 ≤ b.length := by
      by_contra hlt
      rw [List.take_of_length_le (by omega)] at hBA
      exact (hBA.trans (List.take_prefix 8 a)).le hab
    have hA := hBA.length_le
    simp only [List.length_take] at hA
    have heq : a.take 8 = b.take 8 :=
      (hBA.eq_of_length (by simp only [List.length_take]; omega)).symm
    have hgroup : group a = group b := by
      rw [group, group, heq, Nat.sub_eq_zero_of_le (by omega), Nat.sub_eq_zero_of_le hb8]
    have hrest : a.drop 8 < b.drop 8 := by
      have h := hab
      rw [← List.take_append_drop 8 a, ← List.take_append_drop 8 b, heq] at h
      exact (Lex.append_lt_append_left_iff _).mp h
    have hb' : b.drop 8 ≠ [] := by
      intro h
      rw [h] at hrest
      exact List.not_lt_nil _ hrest
    rw [Ne, List.drop_eq_nil_iff] at hb'
    refine .inr ⟨hgroup, List.cons_lt_cons_iff.mpr ?_⟩
    rw [@groupEnd_of_lt b (by omega)]
    by_cases ha' : a.drop 8 = []
    · -- `a` is one full group: its count `8` is below the `9` of `b`
      rw [List.drop_eq_nil_iff] at ha'
      rw [groupEnd_of_le ha', show a.length = 8 by omega]
      exact .inl (by decide)
    · rw [List.drop_eq_nil_iff] at ha'
      rw [groupEnd_of_lt (by omega)]
      exact .inr ⟨rfl, groupsSer_lt_groupsSer _ _ hrest⟩
  · by_cases hAB : (a.take 8).IsPrefix (b.take 8)
    · -- the first bytes of `a` properly begin those of `b`: `a` ends within its group
      have hne : a.take 8 ≠ b.take 8 := fun h => hBA (h ▸ List.prefix_refl _)
      have hlt : (a.take 8).length < (b.take 8).length :=
        lt_of_le_of_ne hAB.length_le fun h => hne (hAB.eq_of_length h)
      simp only [List.length_take] at hlt
      rcases List.le_iff_lt_or_eq.mp (group_le_group_of_isPrefix hAB) with hlt' | heq
      · exact .inl hlt'
      · exact .inr ⟨heq, List.cons_lt_cons_iff.mpr
          (.inl (groupEnd_lt_groupEnd (by omega) (by omega)))⟩
    · exact .inl ((group_lt_group_of_not_isPrefix hAB hBA).mp hab)
termination_by a.length
decreasing_by
  have := List.length_pos_of_ne_nil ha
  simp only [List.length_drop]
  omega

lemma orderedBy_bytes : OrderedBy bytes (· < ·) := by
  refine orderedBy_of_lt_imp Std.lt_trichotomy fun a b hab => ?_
  have hb : b ≠ [] := by
    rintro rfl
    exact List.not_lt_nil _ hab
  show bytesSer a < bytesSer b
  rw [bytesSer, bytesSer, if_neg (show ¬ b.isEmpty = true by simpa using hb),
    List.cons_lt_cons_iff]
  by_cases ha : a = []
  · subst ha
    exact .inl (by decide)
  · rw [if_neg (show ¬ a.isEmpty = true by simpa using ha)]
    exact .inr ⟨rfl, groupsSer_lt_groupsSer a b hab⟩

/-! ## Strings -/

/-- The UTF-8 bytes of a string. -/
def utf8 (s : String) : List UInt8 := s.toByteArray.data.toList

lemma fromUTF8?_utf8 (s : String) : String.fromUTF8? ⟨(utf8 s).toArray⟩ = some s := by
  have hs : (⟨(utf8 s).toArray⟩ : ByteArray) = s.toByteArray := by
    simp [utf8]
  rw [hs, String.fromUTF8?, dif_pos s.isValidUTF8]
  rfl

/-- A `str`: its UTF-8 bytes as a byte string; bytes that are not UTF-8 are an error. -/
def str : Codec String where
  ser s := bytes.ser (utf8 s)
  de bs :=
    match bytes.de bs with
    | some (v, rest) => (String.fromUTF8? ⟨v.toArray⟩).map fun s => (s, rest)
    | none => none
  de_ser s rest := by
    simp only [bytes.de_ser, fromUTF8?_utf8, Option.map_some]
  de_length_le {bs a rest} h := by
    split at h
    · rename_i v rest' hde
      obtain ⟨s, -, heq⟩ := Option.map_eq_some_iff.mp h
      simp only [Prod.mk.injEq] at heq
      rw [← heq.2]
      exact bytes.de_length_le hde
    · cases h

lemma orderedBy_str : OrderedBy str (fun s t => utf8 s < utf8 t) :=
  fun s t => orderedBy_bytes (utf8 s) (utf8 t)

/-! ## Widths -/

/-- A codec whose reads take the first `w` bytes, whatever they read. -/
def Width (c : Codec α) (w : ℕ) : Prop :=
  ∀ {bs a rest}, c.de bs = some (a, rest) → w ≤ bs.length ∧ rest = bs.drop w

lemma width_map {β : Type} {c : Codec α} {w : ℕ} (hc : Width c w) (f : α → β) (g : β → α)
    (f_g : ∀ b, f (g b) = b) : Width (c.map f g f_g) w := by
  intro bs b rest h
  obtain ⟨⟨a, rest'⟩, hde, hpair⟩ := Option.map_eq_some_iff.mp h
  cases hpair
  exact hc hde

lemma width_pair {β : Type} {c : Codec α} {d : Codec β} {v w : ℕ} (hc : Width c v)
    (hd : Width d w) : Width (c.pair d) (v + w) := by
  intro bs ab rest h
  simp only [Codec.pair, Codec.pairDe, Option.bind_eq_bind, Option.bind_eq_some_iff] at h
  obtain ⟨⟨a, rest₁⟩, hca, ⟨b, rest₂⟩, hdb, hpair⟩ := h
  cases hpair
  obtain ⟨hv, rfl⟩ := hc hca
  obtain ⟨hw, rfl⟩ := hd hdb
  rw [List.length_drop] at hw
  exact ⟨by omega, List.drop_drop⟩

lemma width_tag (index : α → UInt8) (ofIndex : UInt8 → Option α)
    (ofIndex_index : ∀ a, ofIndex (index a) = some a) :
    Width (Codec.tag index ofIndex ofIndex_index) 1 := by
  intro bs a rest h
  match bs with
  | [] => cases h
  | b :: bs =>
    obtain ⟨a', -, hpair⟩ := Option.map_eq_some_iff.mp h
    cases hpair
    simp

lemma width_bool : Width bool 1 := by
  intro bs a rest h
  match bs with
  | [] => cases h
  | b :: bs =>
    simp only [bool] at h
    split_ifs at h <;> simp_all

lemma width_fixedBE (w : ℕ) : Width (fixedBE w) w := by
  intro bs a rest h
  simp only [fixedBE] at h
  split at h
  · simp only [Option.some.injEq, Prod.mk.injEq] at h
    exact ⟨by assumption, h.2.symm⟩
  · cases h

lemma width_unsigned (k : ℕ) : Width (unsigned k) k :=
  width_map (width_fixedBE k) _ _ _

lemma width_signed (k : ℕ) [NeZero k] : Width (signed k) k :=
  width_map (width_fixedBE k) _ _ _

/-! ## Comparing bytes -/

/-- `[u8]::cmp` is the lexicographic order of bytes. -/
lemma compare_bytes_eq_lt : ∀ {l₁ l₂ : List UInt8}, compare l₁ l₂ = .lt ↔ l₁ < l₂
  | [], [] => by decide
  | [], _ :: _ => iff_of_true rfl (List.nil_lt_cons _ _)
  | _ :: _, [] =>
    iff_of_false nofun (List.not_lt_nil _)
  | x :: xs, y :: ys => by
    have h : compare (x :: xs) (y :: ys) = (compare x y).then (compare xs ys) :=
      List.compareLex_cons_cons
    rw [h, Ordering.then_eq_lt, List.cons_lt_cons_iff, Std.compare_eq_lt, Std.compare_eq_iff_eq,
      compare_bytes_eq_lt]

lemma compare_bytes_eq_gt {l₁ l₂ : List UInt8} : compare l₁ l₂ = .gt ↔ l₂ < l₁ := by
  rw [Std.OrientedCmp.gt_iff_lt, compare_bytes_eq_lt]

/-- A codec ordered by a comparison compares its bytes as the comparison does. -/
lemma compare_ser {c : Codec α} {cmp : α → α → Ordering}
    (hc : OrderedBy c fun a b => cmp a b = .lt) (hswap : ∀ a b, (cmp a b).swap = cmp b a)
    (heq : ∀ a b, cmp a b = .eq → a = b) (a b : α) : compare (c.ser a) (c.ser b) = cmp a b := by
  cases h : cmp a b with
  | lt => exact compare_bytes_eq_lt.mpr ((hc a b).mpr h)
  | eq =>
    rw [heq a b h]
    exact Std.compare_self
  | gt =>
    have hba : cmp b a = .lt := by rw [← hswap, h]; rfl
    exact compare_bytes_eq_gt.mpr ((hc b a).mpr hba)

/-- Bytes that begin with parts neither of which begins the other compare as the parts. -/
lemma compare_append_of_not_isPrefix {u v : List UInt8} (x y : List UInt8) (hu : ¬ u <+: v)
    (hv : ¬ v <+: u) : compare (u ++ x) (v ++ y) = compare u v := by
  cases h : compare u v with
  | lt =>
    exact compare_bytes_eq_lt.mpr
      ((Lex.append_lt_append_of_not_isPrefix x y hu hv).mpr (compare_bytes_eq_lt.mp h))
  | eq => exact absurd (Std.compare_eq_iff_eq.mp h ▸ List.prefix_refl u) hu
  | gt =>
    exact compare_bytes_eq_gt.mpr
      ((Lex.append_lt_append_of_not_isPrefix y x hv hu).mpr (compare_bytes_eq_gt.mp h))

/-- Bytes that begin alike compare as what follows. -/
lemma compare_append_left : ∀ (u : List UInt8) (x y : List UInt8),
    compare (u ++ x) (u ++ y) = compare x y
  | [], _, _ => rfl
  | b :: u, x, y => by
    have h : compare (b :: (u ++ x)) (b :: (u ++ y)) = (compare b b).then (compare (u ++ x) (u ++ y)) :=
      List.compareLex_cons_cons
    rw [List.cons_append, List.cons_append, h, Std.compare_self, compare_append_left u x y]
    rfl

end Memcmp

end Greptime
