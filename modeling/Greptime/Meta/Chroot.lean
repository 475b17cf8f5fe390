import Greptime.Foundations.Lex
import Mathlib.Data.List.Induction
import Mathlib.Data.List.TakeWhile

/-!
# Key ranges under a chroot (`common_meta::kv_backend::chroot`)

A key-value request names its keys the etcd way: a `key` and a `range_end`, where an empty
`range_end` means the one key, `range_end = [0]` every key from `key` on, `key = range_end = [0]`
every key, and otherwise the keys in `[key, range_end)`.  `to_range` turns the pair into the
bounds of a `BTreeMap` range, which the memory backend visits in key order.

`ChrootKvBackend` keeps the keys of one tenant under a `root`: it prepends the root to a
request's key and range end, asks the inner backend, and strips the root off the keys it gets
back.  The open end `[0]` becomes the first string above every string that begins with the root:
the root, incremented with carry from its last byte.  A byte that wraps to `0x00` stays in
place, so for a root `a\xff` that string is `b\x00`, and the key `b`, which is below it but does
not begin with the root, is in the range.  `chroot_range_leaks_outside_root` is that key:
the range selects it and `key_strip_root` then panics on it.

For a root whose last byte is below `0xff`, `selects_chroot` says what the chroot selects:
exactly the root followed by what the request selects, except the empty key of a request for
every key (the chroot starts that request at `root ++ [0]`).  `chrootRange_eq` is the same for
a whole range of the memory backend.  `selects_toRange_getPrefixEndKey` says that
`get_prefix_end_key` closes a prefix: the range from a prefix to its end key holds exactly the
keys that begin with it.
-/

namespace Greptime

namespace KvBackend

/-- `std::ops::Bound<Vec<u8>>`. -/
inductive Bound
  | included (key : List UInt8)
  | excluded (key : List UInt8)
  | unbounded
  deriving DecidableEq

/-- Whether `k` is on the inner side of a start bound. -/
def Bound.admitsFrom : Bound → List UInt8 → Bool
  | .included b, k => decide (b ≤ k)
  | .excluded b, k => decide (b < k)
  | .unbounded, _ => true

/-- Whether `k` is on the inner side of an end bound. -/
def Bound.admitsUpTo : Bound → List UInt8 → Bool
  | .included b, k => decide (k ≤ b)
  | .excluded b, k => decide (k < b)
  | .unbounded, _ => true

/-- The keys a `BTreeMap` range `(start, end)` visits. -/
def selects (range : Bound × Bound) (k : List UInt8) : Bool :=
  range.1.admitsFrom k && range.2.admitsUpTo k

/-- `rpc::store::to_range`. -/
def toRange (key rangeEnd : List UInt8) : Bound × Bound :=
  match key, rangeEnd with
  | _, [] => (.included key, .included key)
  | [0], [0] => (.unbounded, .unbounded)
  | _, [0] => (.included key, .unbounded)
  | _, _ => (.included key, .excluded rangeEnd)

/-- `ChrootKvBackend::key_prepend_root`. -/
def keyPrependRoot (root key : List UInt8) : List UInt8 := root ++ key

/-- The carry loop of `range_end_prepend_root`: from the last byte on, add one with wrapping
until a byte does not wrap to `0`.  The flag says whether one did not (`ok`). -/
def incrementWithCarry : List UInt8 → List UInt8 × Bool
  | [] => ([], false)
  | b :: rest =>
    let (rest', ok) := incrementWithCarry rest
    if ok then (b :: rest', true) else ((b + 1) :: rest', b + 1 != 0)

/-- `ChrootKvBackend::range_end_prepend_root`. -/
def rangeEndPrependRoot (root rangeEnd : List UInt8) : List UInt8 :=
  if rangeEnd = [0] then
    let (newEnd, ok) := incrementWithCarry root
    if ok then newEnd else [0]
  else if rangeEnd ≠ [] then root ++ rangeEnd
  else []

/-- `ChrootKvBackend::key_strip_root` in a release build: `split_off(root.len())`, which panics
(`none`) on a key shorter than the root; the `debug_assert` is not there. -/
def keyStripRoot (root key : List UInt8) : Option (List UInt8) :=
  if root.length ≤ key.length then some (key.drop root.length) else none

/-- `util::get_prefix_end_key`: the last byte below `0xff`, incremented, after the bytes before
it; `[0]` when every byte is `0xff`. -/
def getPrefixEndKey (key : List UInt8) : List UInt8 :=
  match key.reverse.dropWhile (· == 0xFF) with
  | [] => [0]
  | v :: rest => rest.reverse ++ [v + 1]

/-- The keys a `MemoryKvBackend` holding `keys` (in key order) returns for a range request
without a limit. -/
def rangeKeys (keys : List (List UInt8)) (key rangeEnd : List UInt8) : List (List UInt8) :=
  keys.filter (selects (toRange key rangeEnd))

/-- `ChrootKvBackend::range` over a memory backend: the request under the root, and the root
stripped off every key returned; `none` where a strip panics. -/
def chrootRange (root : List UInt8) (keys : List (List UInt8)) (key rangeEnd : List UInt8) :
    Option (List (List UInt8)) :=
  (rangeKeys keys (keyPrependRoot root key) (rangeEndPrependRoot root rangeEnd)).mapM
    (keyStripRoot root)

/-! ## Bytes -/

lemma byte_not_lt_top (y : UInt8) : ¬ (0xFF : UInt8) < y := by
  rw [UInt8.lt_iff_toNat_lt]
  have := y.toNat_lt
  simp only [UInt8.reduceToNat]
  omega

lemma byte_succ_ne_zero {v : UInt8} (hv : v ≠ 0xFF) : v + 1 ≠ 0 := by
  rw [ne_eq, ← UInt8.toNat_inj] at hv ⊢
  have := v.toNat_lt
  simp only [UInt8.toNat_add, UInt8.reduceToNat] at hv ⊢
  omega

lemma byte_lt_succ {v : UInt8} (hv : v ≠ 0xFF) : v < v + 1 := by
  rw [ne_eq, ← UInt8.toNat_inj] at hv
  rw [UInt8.lt_iff_toNat_lt, UInt8.toNat_add]
  have := v.toNat_lt
  simp only [UInt8.reduceToNat] at hv ⊢
  omega

lemma byte_eq_of_between {v c : UInt8} (hlo : ¬ c < v) (hhi : c < v + 1) : c = v := by
  rw [← UInt8.toNat_inj]
  rw [UInt8.lt_iff_toNat_lt] at hlo
  rw [UInt8.lt_iff_toNat_lt, UInt8.toNat_add] at hhi
  have := v.toNat_lt
  simp only [UInt8.reduceToNat] at hhi
  omega

/-! ## The bounds of a request -/

@[simp] lemma toRange_nil (key : List UInt8) : toRange key [] = (.included key, .included key) := by
  cases key <;> rfl

lemma toRange_zero_of_ne {key : List UInt8} (h : key ≠ [0]) :
    toRange key [0] = (.included key, .unbounded) := by
  unfold toRange
  split <;> simp_all

lemma toRange_of_ne {key rangeEnd : List UInt8} (h : rangeEnd ≠ []) (h0 : rangeEnd ≠ [0]) :
    toRange key rangeEnd = (.included key, .excluded rangeEnd) := by
  unfold toRange
  split <;> simp_all

/-! ## The end keys -/

lemma incrementWithCarry_append {v : UInt8} (hv : v ≠ 0xFF) :
    ∀ q : List UInt8, incrementWithCarry (q ++ [v]) = (q ++ [v + 1], true)
  | [] => by simp [incrementWithCarry, byte_succ_ne_zero hv]
  | x :: q => by simp [incrementWithCarry, incrementWithCarry_append hv q]

/-- Every string is all `0xff`, or its last byte below `0xff` is followed by bytes `0xff`. -/
lemma forall_top_or_exists_append (key : List UInt8) :
    (∀ x ∈ key, x = 0xFF) ∨
      ∃ q v f, key = q ++ [v] ++ f ∧ v ≠ 0xFF ∧ ∀ x ∈ f, x = 0xFF := by
  induction key using List.reverseRecOn with
  | nil => simp
  | append_singleton key x ih =>
    by_cases hx : x = 0xFF
    · rcases ih with hall | ⟨q, v, f, rfl, hv, hf⟩
      · left
        intro y hy
        rcases List.mem_append.mp hy with hy | hy
        · exact hall y hy
        · rw [List.mem_singleton.mp hy, hx]
      · right
        refine ⟨q, v, f ++ [x], by simp, hv, fun y hy => ?_⟩
        rcases List.mem_append.mp hy with hy | hy
        · exact hf y hy
        · rw [List.mem_singleton.mp hy, hx]
    · right
      exact ⟨key, x, [], by simp, hx, by simp⟩

lemma getPrefixEndKey_of_forall {key : List UInt8} (h : ∀ x ∈ key, x = 0xFF) :
    getPrefixEndKey key = [0] := by
  have hdrop : key.reverse.dropWhile (· == 0xFF) = [] :=
    List.dropWhile_eq_nil_iff.mpr (by simpa using h)
  simp [getPrefixEndKey, hdrop]

lemma getPrefixEndKey_append {q f : List UInt8} {v : UInt8} (hv : v ≠ 0xFF)
    (hf : ∀ x ∈ f, x = 0xFF) : getPrefixEndKey (q ++ [v] ++ f) = q ++ [v + 1] := by
  have hdropf : f.reverse.dropWhile (· == 0xFF) = [] :=
    List.dropWhile_eq_nil_iff.mpr (by simpa using hf)
  have hdrop : (q ++ [v] ++ f).reverse.dropWhile (· == 0xFF) = v :: q.reverse := by
    rw [List.reverse_append, List.dropWhile_append, hdropf]
    simp [hv]
  rw [getPrefixEndKey, hdrop]
  exact congrArg (· ++ [v + 1]) (List.reverse_reverse q)

lemma append_succ_ne_zero (q : List UInt8) {v : UInt8} (hv : v ≠ 0xFF) :
    q ++ [v + 1] ≠ [0] := by
  intro h
  have hlast := congrArg List.getLast? h
  simp only [List.getLast?_append, List.getLast?_singleton, Option.some_or,
    Option.some.injEq] at hlast
  exact byte_succ_ne_zero hv hlast

/-- `get_prefix_end_key` closes a prefix: from a prefix up to its end key are exactly the keys
that begin with it. -/
theorem selects_toRange_getPrefixEndKey (p k : List UInt8) :
    selects (toRange p (getPrefixEndKey p)) k = true ↔ p.IsPrefix k := by
  rcases forall_top_or_exists_append p with hall | ⟨q, v, f, rfl, hv, hf⟩
  · -- no byte below `0xff`: the keys from `p` on
    have hp : p ≠ [0] := by
      rintro rfl
      exact absurd (hall 0 (List.mem_singleton_self 0)) (by decide)
    rw [getPrefixEndKey_of_forall hall, toRange_zero_of_ne hp]
    simp only [selects, Bound.admitsFrom, Bound.admitsUpTo, Bool.and_true, decide_eq_true_eq]
    exact Lex.le_iff_isPrefix_of_top fun x hx y => by rw [hall x hx]; exact byte_not_lt_top y
  · rw [getPrefixEndKey_append hv hf, toRange_of_ne (by simp) (append_succ_ne_zero q hv)]
    simp only [selects, Bound.admitsFrom, Bound.admitsUpTo, Bool.and_eq_true, decide_eq_true_eq]
    have hsucc := Lex.le_lt_succ_iff_isPrefix q (byte_lt_succ hv)
      (fun _ hlo hhi => byte_eq_of_between hlo hhi) (k := k)
    have htop : ∀ x ∈ f, ∀ y, ¬ x < y := fun x hx y => by
      rw [hf x hx]
      exact byte_not_lt_top y
    constructor
    · rintro ⟨hlo, hhi⟩
      -- `k` begins with `q ++ [v]`; what follows is at or above the `0xff`s of `f`
      obtain ⟨c, rfl⟩ := hsucc.mp
        ⟨List.le_trans (List.IsPrefix.le (List.prefix_append _ _)) hlo, hhi⟩
      rw [Lex.append_le_append_left_iff, Lex.le_iff_isPrefix_of_top htop] at hlo
      exact List.prefix_append_right_inj (q ++ [v]) |>.mpr hlo
    · intro hpre
      exact ⟨List.IsPrefix.le hpre,
        (hsucc.mpr ((List.prefix_append _ _).trans hpre)).2⟩

/-! ## Under a root whose last byte is below `0xff` -/

section Chroot

variable {q : List UInt8} {v : UInt8}

lemma rangeEndPrependRoot_nil (root : List UInt8) : rangeEndPrependRoot root [] = [] := by
  simp [rangeEndPrependRoot]

lemma rangeEndPrependRoot_zero (hv : v ≠ 0xFF) :
    rangeEndPrependRoot (q ++ [v]) [0] = q ++ [v + 1] := by
  simp [rangeEndPrependRoot, incrementWithCarry_append hv q]

lemma rangeEndPrependRoot_of_ne (root : List UInt8) {rangeEnd : List UInt8}
    (h : rangeEnd ≠ []) (h0 : rangeEnd ≠ [0]) :
    rangeEndPrependRoot root rangeEnd = root ++ rangeEnd := by
  simp [rangeEndPrependRoot, h, h0]

lemma zero_le_iff_ne_nil (k : List UInt8) : [0] ≤ k ↔ k ≠ [] := by
  cases k with
  | nil => simp
  | cons c k =>
    simp only [List.cons_le_cons_iff, List.nil_le, and_true, ne_eq, reduceCtorEq, not_false_eq_true,
      iff_true]
    by_cases h : c = 0
    · exact Or.inr h.symm
    · left
      rw [UInt8.lt_iff_toNat_lt]
      rw [← UInt8.toNat_inj] at h
      simp only [UInt8.reduceToNat] at h ⊢
      omega

/-- A request for one key selects that key. -/
lemma selects_toRange_nil (key k : List UInt8) : selects (toRange key []) k = true ↔ k = key := by
  simp only [toRange_nil, selects, Bound.admitsFrom, Bound.admitsUpTo, Bool.and_eq_true,
    decide_eq_true_eq]
  constructor
  · rintro ⟨hlo, hhi⟩
    exact List.le_antisymm hhi hlo
  · rintro rfl
    exact ⟨List.le_refl _, List.le_refl _⟩

/-- A request from a key on: under the root, up to the root incremented. -/
lemma selects_from (hv : v ≠ 0xFF) (key k' : List UInt8) :
    selects (toRange (q ++ [v] ++ key) (q ++ [v + 1])) k' = true ↔
      ∃ k, k' = q ++ [v] ++ k ∧ key ≤ k := by
  rw [toRange_of_ne (by simp) (append_succ_ne_zero q hv)]
  simp only [selects, Bound.admitsFrom, Bound.admitsUpTo, Bool.and_eq_true, decide_eq_true_eq]
  have hsucc := Lex.le_lt_succ_iff_isPrefix q (byte_lt_succ hv)
    (fun _ hlo hhi => byte_eq_of_between hlo hhi) (k := k')
  constructor
  · rintro ⟨hlo, hhi⟩
    obtain ⟨c, rfl⟩ := hsucc.mp
      ⟨List.le_trans (List.IsPrefix.le (List.prefix_append _ _)) hlo, hhi⟩
    exact ⟨c, rfl, (Lex.append_le_append_left_iff _).mp hlo⟩
  · rintro ⟨k, rfl, hk⟩
    exact ⟨(Lex.append_le_append_left_iff _).mpr hk, (hsucc.mpr (List.prefix_append _ _)).2⟩

/-- A request between two keys: the root followed by the keys between them. -/
lemma selects_between (root : List UInt8) (hroot : root ≠ []) (key : List UInt8)
    {rangeEnd : List UInt8} (h : rangeEnd ≠ []) (k' : List UInt8) :
    selects (toRange (root ++ key) (root ++ rangeEnd)) k' = true ↔
      ∃ k, k' = root ++ k ∧ key ≤ k ∧ k < rangeEnd := by
  have h0 : root ++ rangeEnd ≠ [0] := by
    intro heq
    obtain ⟨x, xs, rfl⟩ := List.exists_cons_of_ne_nil hroot
    simp only [List.cons_append, List.cons.injEq, List.append_eq_nil_iff] at heq
    exact h heq.2.2
  rw [toRange_of_ne (by simp [h]) h0]
  simp only [selects, Bound.admitsFrom, Bound.admitsUpTo, Bool.and_eq_true, decide_eq_true_eq]
  constructor
  · rintro ⟨hlo, hhi⟩
    obtain ⟨c, rfl⟩ := Lex.exists_append_of_le_of_lt root hlo hhi
    exact ⟨c, rfl, (Lex.append_le_append_left_iff _).mp hlo,
      (Lex.append_lt_append_left_iff _).mp hhi⟩
  · rintro ⟨k, rfl, hlo, hhi⟩
    exact ⟨(Lex.append_le_append_left_iff _).mpr hlo, (Lex.append_lt_append_left_iff _).mpr hhi⟩

/-- Under a root whose last byte is below `0xff`, a request selects exactly the root followed
by what it selects without the chroot, except the empty key of a request for every key. -/
theorem selects_chroot (hv : v ≠ 0xFF) (key rangeEnd k' : List UInt8) :
    selects (toRange (keyPrependRoot (q ++ [v]) key) (rangeEndPrependRoot (q ++ [v]) rangeEnd)) k'
        = true ↔
      ∃ k, k' = q ++ [v] ++ k ∧ selects (toRange key rangeEnd) k = true ∧
        ¬ (key = [0] ∧ rangeEnd = [0] ∧ k = []) := by
  unfold keyPrependRoot
  by_cases hnil : rangeEnd = []
  · subst hnil
    simp only [rangeEndPrependRoot_nil, selects_toRange_nil, reduceCtorEq, false_and, and_false,
      not_false_eq_true, and_true]
    exact ⟨fun h => ⟨key, h, rfl⟩, fun ⟨k, hk, hkey⟩ => hkey ▸ hk⟩
  by_cases hzero : rangeEnd = [0]
  · subst hzero
    rw [rangeEndPrependRoot_zero hv, selects_from hv]
    by_cases hkey : key = [0]
    · -- every key: the chroot starts at `root ++ [0]`, past the root itself
      subst hkey
      simp only [zero_le_iff_ne_nil, toRange, selects, Bound.admitsFrom, Bound.admitsUpTo,
        Bool.and_self, true_and]
    · simp only [toRange_zero_of_ne hkey, selects, Bound.admitsFrom, Bound.admitsUpTo,
        Bool.and_true, decide_eq_true_eq, hkey, false_and, not_false_eq_true, and_true]
  · rw [rangeEndPrependRoot_of_ne _ hnil hzero, selects_between _ (by simp) key hnil,
      toRange_of_ne hnil hzero]
    simp only [selects, Bound.admitsFrom, Bound.admitsUpTo, Bool.and_eq_true, decide_eq_true_eq,
      hzero, false_and, and_false, not_false_eq_true, and_true]

/-- The keys of the backend under `root`, with the root taken off: what a tenant of the chroot
holds. -/
def underRoot (root : List UInt8) (keys : List (List UInt8)) : List (List UInt8) :=
  keys.filterMap fun k' => if root.IsPrefix k' then some (k'.drop root.length) else none

lemma underRoot_cons_append (root k : List UInt8) (keys : List (List UInt8)) :
    underRoot root ((root ++ k) :: keys) = k :: underRoot root keys := by
  simp [underRoot]

lemma underRoot_cons_of_outside {root k' : List UInt8} (h : ¬ root.IsPrefix k')
    (keys : List (List UInt8)) : underRoot root (k' :: keys) = underRoot root keys := by
  simp [underRoot, h]

/-- A range of the chroot over a memory backend is a range of the tenant's keys, in the same
order and with no strip that panics, except the empty key of a request for every key. -/
theorem chrootRange_eq (hv : v ≠ 0xFF) (key rangeEnd : List UInt8) :
    ∀ keys : List (List UInt8), chrootRange (q ++ [v]) keys key rangeEnd =
      some ((underRoot (q ++ [v]) keys).filter fun k =>
        selects (toRange key rangeEnd) k && !decide (key = [0] ∧ rangeEnd = [0] ∧ k = []))
  | [] => rfl
  | k' :: keys => by
    have ih := chrootRange_eq hv key rangeEnd keys
    unfold chrootRange rangeKeys at ih ⊢
    by_cases hsel : selects (toRange (keyPrependRoot (q ++ [v]) key)
        (rangeEndPrependRoot (q ++ [v]) rangeEnd)) k' = true
    · -- a selected key is the root followed by a key the request selects
      obtain ⟨k, rfl, hk, hne⟩ := (selects_chroot hv key rangeEnd k').mp hsel
      have hstrip : keyStripRoot (q ++ [v]) (q ++ [v] ++ k) = some k := by
        simp [keyStripRoot]
      rw [List.filter_cons_of_pos hsel, List.mapM_cons, hstrip, ih, underRoot_cons_append,
        List.filter_cons_of_pos (by simp [hk, hne])]
      rfl
    · rw [List.filter_cons_of_neg hsel, ih]
      by_cases hpre : (q ++ [v]).IsPrefix k'
      · -- under the root, but not a key the request selects
        obtain ⟨k, rfl⟩ := hpre
        have hnot := mt (selects_chroot hv key rangeEnd (q ++ [v] ++ k)).mpr hsel
        rw [underRoot_cons_append, List.filter_cons_of_neg]
        simp only [Bool.and_eq_true, Bool.not_eq_eq_eq_not, Bool.not_true, decide_eq_false_iff_not]
        exact fun ⟨hk, hne⟩ => hnot ⟨k, rfl, hk, hne⟩
      · rw [underRoot_cons_of_outside hpre]

theorem chrootRange_eq_tenant :
    (7 : UInt8) ≠ 0xFF ∧
      chrootRange ([1] ++ [7]) [[1, 7, 2], [1, 8], [1, 7], [1, 7, 5]] [2] [6] =
        some ((underRoot ([1] ++ [7]) [[1, 7, 2], [1, 8], [1, 7], [1, 7, 5]]).filter fun k =>
          selects (toRange [2] [6]) k && !decide ([2] = [0] ∧ [6] = [0] ∧ k = [])) :=
  ⟨by decide, chrootRange_eq (by decide) [2] [6] [[1, 7, 2], [1, 8], [1, 7], [1, 7, 5]]⟩

end Chroot

/-- The root `a\xff`: its open end is `b\x00`, so a request for every key also selects the key
`b`, which is outside the root, and stripping the root off it panics. -/
theorem chroot_range_leaks_outside_root :
    selects (toRange (keyPrependRoot [0x61, 0xFF] [0]) (rangeEndPrependRoot [0x61, 0xFF] [0]))
        [0x62] = true ∧
      ¬ [0x61, (0xFF : UInt8)].IsPrefix [0x62] ∧
      chrootRange [0x61, 0xFF] [[0x62]] [0] [0] = none :=
  ⟨by decide, by decide, by decide⟩

end KvBackend

end Greptime
