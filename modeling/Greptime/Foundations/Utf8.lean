import Mathlib.Data.List.Basic

/-!
# Well-formed UTF-8

The well-formed byte sequences of a code point, as the Unicode standard's table lists them:
a lead byte, and the ranges its continuation bytes must fall in (`continuations`).  `valid`
is the test of `str::from_utf8`.  `lossy` is `String::from_utf8_lossy`: it keeps the
well-formed sequences and replaces each ill-formed one with U+FFFD, where an ill-formed
sequence is the longest prefix of a well-formed one that the bytes begin with, and at least
one byte.

Nothing here names a program.
-/

namespace Greptime

namespace Utf8

/-- The ranges the continuation bytes after a lead byte must fall in; `none` for a byte that
leads no sequence. -/
def continuations (b : UInt8) : Option (List (UInt8 × UInt8)) :=
  if b < 0x80 then some []
  else if b < 0xC2 then none
  else if b < 0xE0 then some [(0x80, 0xBF)]
  else if b = 0xE0 then some [(0xA0, 0xBF), (0x80, 0xBF)]
  else if b < 0xED then some [(0x80, 0xBF), (0x80, 0xBF)]
  else if b = 0xED then some [(0x80, 0x9F), (0x80, 0xBF)]
  else if b < 0xF0 then some [(0x80, 0xBF), (0x80, 0xBF)]
  else if b = 0xF0 then some [(0x90, 0xBF), (0x80, 0xBF), (0x80, 0xBF)]
  else if b < 0xF4 then some [(0x80, 0xBF), (0x80, 0xBF), (0x80, 0xBF)]
  else if b = 0xF4 then some [(0x80, 0x8F), (0x80, 0xBF), (0x80, 0xBF)]
  else none

/-- How many bytes, from the first, fall in the ranges, one range each. -/
def matching : List (UInt8 × UInt8) → List UInt8 → ℕ
  | r :: rs, b :: bs => if r.1 ≤ b ∧ b ≤ r.2 then matching rs bs + 1 else 0
  | _, _ => 0

/-- The first sequence of the bytes: its length, and whether it is well formed. -/
def firstSequence : List UInt8 → ℕ × Bool
  | [] => (0, true)
  | b :: bs =>
    match continuations b with
    | none => (1, false)
    | some rs => (matching rs bs + 1, matching rs bs = rs.length)

lemma firstSequence_pos (b : UInt8) (bs : List UInt8) : 1 ≤ (firstSequence (b :: bs)).1 := by
  cases h : continuations b <;> simp [firstSequence, h]

/-- `str::from_utf8` succeeds. -/
def valid : List UInt8 → Bool
  | [] => true
  | b :: bs =>
    (firstSequence (b :: bs)).2 && valid ((b :: bs).drop (firstSequence (b :: bs)).1)
termination_by l => l.length
decreasing_by
  have := firstSequence_pos b bs
  simp only [List.length_drop, List.length_cons]
  omega

/-- The bytes of `String::from_utf8_lossy`. -/
def lossy : List UInt8 → List UInt8
  | [] => []
  | b :: bs =>
    (if (firstSequence (b :: bs)).2 then (b :: bs).take (firstSequence (b :: bs)).1
      else [0xEF, 0xBF, 0xBD]) ++ lossy ((b :: bs).drop (firstSequence (b :: bs)).1)
termination_by l => l.length
decreasing_by
  have := firstSequence_pos b bs
  simp only [List.length_drop, List.length_cons]
  omega

/-- Overlong, surrogate, past U+10FFFF, and the last four-byte scalar. -/
example : valid [0xC0, 0x80] = false ∧ valid [0xE0, 0x80, 0x80] = false ∧
    valid [0xED, 0xA0, 0x80] = false ∧ valid [0xF4, 0x90, 0x80, 0x80] = false ∧
    valid [0xF4, 0x8F, 0xBF, 0xBF] = true := by
  simp [valid, firstSequence, continuations, matching]

end Utf8

end Greptime
