import Mathlib.Data.List.TakeWhile
import Mathlib.Data.List.Lex
import Mathlib.Data.Prod.Lex
import Mathlib.Data.Int.ConditionallyCompleteOrder
import Mathlib.Data.Nat.Digits.Lemmas
import Mathlib.Order.Fin.Basic
import Mathlib.Tactic.Linarith

/-!
# Tags, their order and their rendering

A version of an object carries a tag: an `int` called `z` and the id of the client that created the
version. Tags travel between processes, and key the object tables of the servers, as the string
`z_id`. This module has the tag type of `algo_utils.h`, the two comparison functions, the rendering
and its parser, the maximum of a list of tags and the tag that follows one.

The order meant by the protocols is `z` first and then the id by byte order. It is the
`LinearOrder` of `Tag`. `compareTags` and `compareTagPtrs` return the result of `strcmp` when the
two `z` agree, and C promises only the sign of that result: `Strcmp` is any such function. Both
comparisons then have the sign the order asks for (`compareTagsWith_neg_iff`,
`compareTagsWith_pos_iff`), while the value `-1` is returned on part of the smaller pairs only
(`compareTags_eq_neg_one_iff`), and the same holds of the value `1`. That is why `get_max_tag`,
which tests for `1`, does not always return the greatest tag (`getMaxTag_isGreatest_iff`). Code that
tests for the sign sees one order everywhere (`comparisons_agree`).

Strings are the bytes before the terminator, and `int` is `Int32`; `Tag.number` is its value. What C
leaves undefined has no result: a version number above `INT_MAX`, and a string that the buffer of
`string_to_tag` for the number does not hold. The buffers that whole strings are copied to belong to
the functions that have them.
-/

set_option autoImplicit false
set_option relaxedAutoImplicit false

namespace Colas

/-- A byte. -/
abbrev Byte := Fin 256

instance neZero_byte : NeZero 256 := ⟨by decide⟩

/-- A C string: its bytes before the terminator. -/
abbrev CString := List Byte

/-- The content of a `zframe_t`. -/
abbrev Frame := List Byte

/-- `BUFSIZE`. -/
def bufsize : ℕ := 100

/-- The bytes of a string of ASCII characters. -/
def ascii (characters : List Char) : CString :=
  characters.map fun c ↦ Fin.ofNat 256 c.toNat

/-- `Tag`: a version number and the id of the client that made the version. -/
structure Tag where
  /-- The version number. -/
  z : Int32
  /-- The id of the client. -/
  id : CString
  deriving DecidableEq

/-- The version number as an integer. -/
def Tag.number (tag : Tag) : ℤ := tag.z.toInt

@[simp] theorem Tag.number_neg_one (id : CString) : (⟨-1, id⟩ : Tag).number = -1 :=
  show (-1 : Int32).toInt = -1 by decide

/-- `init_tag`: the tag of an object nobody has written. -/
def initTag : Tag := ⟨0, ascii ['c', 'l', 'i', 'e', 'n', 't', '_', '0']⟩

/-! ### The order of tags -/

/-- The pair by which tags are ordered. -/
def Tag.key (tag : Tag) : ℤ ×ₗ CString := toLex (tag.number, tag.id)

theorem Tag.key_injective : Function.Injective Tag.key := by
  rintro ⟨z, id⟩ ⟨z', id'⟩ h
  obtain ⟨rfl, rfl⟩ := by simpa [Tag.key, Tag.number, Int32.toInt_inj] using h
  rfl

/-- Tags are ordered by `z` first and then by id, byte by byte. -/
instance Tag.instLinearOrder : LinearOrder Tag :=
  LinearOrder.lift' Tag.key Tag.key_injective

theorem Tag.lt_iff (a b : Tag) : a < b ↔ a.number < b.number ∨ a.number = b.number ∧ a.id < b.id :=
  Prod.Lex.toLex_lt_toLex

/-- A tag that is at most another has at most its version number. -/
theorem Tag.number_le_of_le {a b : Tag} (h : a ≤ b) : a.number ≤ b.number := by
  rcases h.lt_or_eq with hlt | rfl
  · rcases (Tag.lt_iff a b).mp hlt with hz | ⟨hz, -⟩
    · exact hz.le
    · exact hz.le
  · exact le_rfl

theorem Tag.monotone_number : Monotone Tag.number := fun _ _ h ↦ Tag.number_le_of_le h

/-! ### Comparison -/

/-- `strcmp`, of which C promises only the sign of the result: it is negative, zero or positive
when the first string is smaller than, equal to or greater than the second in byte order. -/
structure Strcmp where
  /-- The result of the comparison. -/
  compare : CString → CString → ℤ
  /-- It is negative exactly on pairs in ascending order. -/
  neg_iff : ∀ a b, compare a b < 0 ↔ a < b
  /-- It is zero exactly on equal strings. -/
  zero_iff : ∀ a b, compare a b = 0 ↔ a = b

/-- The difference of the first bytes in which two strings differ, where the terminator counts as
`-1`, below every byte. -/
def byteDifference : CString → CString → ℤ
  | [], [] => 0
  | [], b :: _ => -(b.val + 1)
  | a :: _, [] => a.val + 1
  | a :: s, b :: t => if a = b then byteDifference s t else a.val - b.val

/-- The sign of `byteDifference` is the byte order. -/
theorem byteDifference_sign (s t : CString) :
    (byteDifference s t < 0 ↔ s < t) ∧ (byteDifference s t = 0 ↔ s = t) := by
  induction s, t using byteDifference.induct with
  | case1 => simp [byteDifference]
  | case2 b t =>
    have hlt : ([] : CString) < b :: t := List.nil_lt_cons b t
    simp only [byteDifference, hlt, iff_true, reduceCtorEq, iff_false]
    omega
  | case3 a s =>
    have hlt : ¬ a :: s < ([] : CString) := List.not_lt_nil _
    simp only [byteDifference, hlt, iff_false, reduceCtorEq]
    omega
  | case4 s a t ih =>
    simpa [byteDifference, List.cons_lt_cons_iff] using ih
  | case5 a s b t hne =>
    have hval : (a.val : ℤ) ≠ b.val := fun h ↦ hne (Fin.ext (by exact_mod_cast h))
    simp only [byteDifference, if_false, List.cons_lt_cons_iff, Fin.lt_def, hne, false_and,
      or_false, List.cons.injEq, iff_false]
    exact ⟨⟨fun h ↦ by omega, fun h ↦ by omega⟩, by omega⟩

/-- A `strcmp` that returns the difference of the first bytes that differ. -/
def Strcmp.difference : Strcmp where
  compare := byteDifference
  neg_iff := fun s t ↦ (byteDifference_sign s t).1
  zero_iff := fun s t ↦ (byteDifference_sign s t).2

/-- A `strcmp` that returns only `-1`, `0` and `1`. -/
def Strcmp.sign : Strcmp where
  compare := fun s t ↦ (byteDifference s t).sign
  neg_iff := fun s t ↦ by rw [Int.sign_neg_iff, (byteDifference_sign s t).1]
  zero_iff := fun s t ↦ by rw [Int.sign_eq_zero_iff_zero, (byteDifference_sign s t).2]

/-- The body that the two comparison functions share; they differ in the value they return when
the first version number is smaller. -/
def compareTagsWith (less : ℤ) (strcmp : Strcmp) (a b : Tag) : ℤ :=
  if a.z < b.z then less else if a.z > b.z then 1 else strcmp.compare a.id b.id

/-- `compare_tags`. -/
def compareTags (strcmp : Strcmp) (a b : Tag) : ℤ := compareTagsWith (-1) strcmp a b

/-- `compare_tag_ptrs`. -/
def compareTagPtrs (strcmp : Strcmp) (a b : Tag) : ℤ := compareTagsWith (-2) strcmp a b

/-- The comparison of the version numbers is that of their values. -/
theorem compareTagsWith_eq (less : ℤ) (strcmp : Strcmp) (a b : Tag) :
    compareTagsWith less strcmp a b = if a.number < b.number then less
      else if b.number < a.number then 1 else strcmp.compare a.id b.id :=
  if_congr Int32.lt_iff_toInt_lt rfl (if_congr Int32.lt_iff_toInt_lt rfl rfl)

section Comparison

variable {less : ℤ} (hless : less < 0) (strcmp : Strcmp) (a b : Tag)
include hless

/-- The result is negative exactly when the first tag is smaller. -/
theorem compareTagsWith_neg_iff : compareTagsWith less strcmp a b < 0 ↔ a < b := by
  rw [Tag.lt_iff, compareTagsWith_eq]
  split_ifs with hlt hgt
  · exact iff_of_true hless (Or.inl hlt)
  · refine iff_of_false (by norm_num) ?_
    rintro (h | ⟨h, -⟩) <;> omega
  · have heq : a.number = b.number := by omega
    rw [strcmp.neg_iff]
    simp [heq]

/-- The result is zero exactly on equal tags. -/
theorem compareTagsWith_zero_iff : compareTagsWith less strcmp a b = 0 ↔ a = b := by
  rw [compareTagsWith_eq]
  split_ifs with hlt hgt
  · exact iff_of_false hless.ne fun h ↦ by rw [h] at hlt; exact lt_irrefl _ hlt
  · exact iff_of_false one_ne_zero fun h ↦ by rw [h] at hgt; exact lt_irrefl _ hgt
  · have heq : a.number = b.number := by omega
    rw [strcmp.zero_iff]
    exact ⟨fun h ↦ Tag.key_injective (by rw [Tag.key, Tag.key, heq, h]), congrArg Tag.id⟩

/-- The result is positive exactly when the first tag is greater. -/
theorem compareTagsWith_pos_iff : 0 < compareTagsWith less strcmp a b ↔ b < a := by
  have hneg := compareTagsWith_neg_iff hless strcmp a b
  have hzero := compareTagsWith_zero_iff hless strcmp a b
  constructor
  · intro hpos
    refine lt_of_le_of_ne (not_lt.mp fun h ↦ ?_) fun h ↦ ?_
    · exact absurd (hneg.mpr h) (by omega)
    · exact absurd (hzero.mpr h.symm) (by omega)
  · intro hlt
    have hnot := mt hneg.mp (not_lt.mpr hlt.le)
    have hne := mt hzero.mp hlt.ne'
    omega

/-- The sign of the result is that of the order. -/
theorem compareTagsWith_sign : (compareTagsWith less strcmp a b).sign =
    if a < b then -1 else if b < a then 1 else 0 := by
  split_ifs with hlt hgt
  · exact Int.sign_eq_neg_one_of_neg ((compareTagsWith_neg_iff hless strcmp a b).mpr hlt)
  · exact Int.sign_eq_one_of_pos ((compareTagsWith_pos_iff hless strcmp a b).mpr hgt)
  · have heq : a = b := le_antisymm (not_lt.mp hgt) (not_lt.mp hlt)
    rw [(compareTagsWith_zero_iff hless strcmp a b).mpr heq, Int.sign_zero]

end Comparison

section CompareTags

variable (strcmp : Strcmp) (a b : Tag)

theorem compareTags_neg_iff : compareTags strcmp a b < 0 ↔ a < b :=
  compareTagsWith_neg_iff (by norm_num) strcmp a b

theorem compareTags_pos_iff : 0 < compareTags strcmp a b ↔ b < a :=
  compareTagsWith_pos_iff (by norm_num) strcmp a b

theorem compareTags_nonneg_iff : 0 ≤ compareTags strcmp a b ↔ b ≤ a := by
  rw [← not_lt, compareTags_neg_iff, not_lt]

theorem compareTagPtrs_neg_iff : compareTagPtrs strcmp a b < 0 ↔ a < b :=
  compareTagsWith_neg_iff (by norm_num) strcmp a b

/-- `compare_tags` returns `-1` on a pair with smaller first version number, and on a pair with
equal version numbers only if `strcmp` happens to return `-1`. -/
theorem compareTags_eq_neg_one_iff :
    compareTags strcmp a b = -1 ↔
      a.number < b.number ∨ a.number = b.number ∧ strcmp.compare a.id b.id = -1 := by
  rw [compareTags, compareTagsWith_eq]
  split_ifs with hlt hgt
  · simp [hlt]
  · simp only [false_iff]
    rintro (h | ⟨h, -⟩) <;> omega
  · have heq : a.number = b.number := by omega
    simp [heq]

/-- A pair on which `compare_tags` returns `-1` is ascending. -/
theorem lt_of_compareTags_eq_neg_one (h : compareTags strcmp a b = -1) : a < b :=
  (compareTags_neg_iff strcmp a b).mp (by omega)

/-- A pair on which `compare_tags` does not return `-1` has descending version numbers. -/
theorem number_le_of_compareTags_ne_neg_one (h : compareTags strcmp a b ≠ -1) :
    b.number ≤ a.number := by
  rw [Ne, compareTags_eq_neg_one_iff] at h
  by_contra hlt
  exact h (Or.inl (by omega))

/-- A `strcmp` that returns only signs makes every negative result `-1`. -/
theorem compareTags_sign_eq_neg_one (h : compareTags Strcmp.sign a b < 0) :
    compareTags Strcmp.sign a b = -1 := by
  rw [compareTags, compareTagsWith_eq] at h ⊢
  split_ifs at h ⊢ with hlt hgt
  · rfl
  · exact absurd h (by norm_num)
  · exact Int.sign_eq_neg_one_of_neg (Int.sign_neg_iff.mp h)

end CompareTags

/-- The two comparison functions have the sign of one strict order, in which two tags are level only
if they are equal, even if processes have different functions `strcmp`. -/
theorem comparisons_agree (strcmp strcmp' : Strcmp) :
    (∀ a b, (compareTags strcmp a b).sign = (compareTagPtrs strcmp' a b).sign) ∧
      (∀ a b, (compareTags strcmp b a).sign = -(compareTags strcmp a b).sign) ∧
      (∀ a b c, compareTags strcmp a b < 0 → compareTags strcmp b c < 0 →
        compareTags strcmp a c < 0) ∧
      (∀ a b, compareTags strcmp a b = 0 ↔ a.z = b.z ∧ a.id = b.id) ∧
      ∀ a b, (compareTags strcmp a b < 0 ↔ a < b) ∧ (compareTagPtrs strcmp' a b < 0 ↔ a < b) := by
  have hless : (-1 : ℤ) < 0 := by norm_num
  have hless' : (-2 : ℤ) < 0 := by norm_num
  refine ⟨fun a b ↦ ?_, fun a b ↦ ?_, fun a b c hab hbc ↦ ?_, fun a b ↦ ?_, fun a b ↦
    ⟨compareTags_neg_iff strcmp a b, compareTagPtrs_neg_iff strcmp' a b⟩⟩
  · rw [compareTags, compareTagPtrs, compareTagsWith_sign hless, compareTagsWith_sign hless']
  · rw [compareTags, compareTags, compareTagsWith_sign hless, compareTagsWith_sign hless]
    rcases lt_trichotomy a b with hlt | rfl | hgt
    · simp [hlt, hlt.le]
    · simp
    · simp [hgt, hgt.le]
  · rw [compareTags_neg_iff] at hab hbc ⊢
    exact hab.trans hbc
  · rw [compareTags, compareTagsWith_zero_iff hless]
    obtain ⟨z, id⟩ := a
    obtain ⟨z', id'⟩ := b
    exact iff_of_eq (Tag.mk.injEq z id z' id')

/-! ### Rendering and parsing -/

/-- The byte `_` between the version number and the id. -/
def underscore : Byte := 95

/-- The digits that `%d` prints for a natural number. -/
def digitString (n : ℕ) : CString :=
  if n = 0 then [48] else (Nat.digits 10 n).reverse.map fun d ↦ Fin.ofNat 256 (48 + d)

/-- What `%d` prints for an integer. -/
def decimal : ℤ → CString
  | .ofNat n => digitString n
  | .negSucc n => 45 :: digitString (n + 1)

/-- `isspace`. -/
def isSpace (b : Byte) : Bool := b = 32 || (9 ≤ b && b ≤ 13)

/-- `isdigit`. -/
def isDigit (b : Byte) : Bool := 48 ≤ b && b ≤ 57

/-- The value of the digits at the start of a string. -/
def digitsValue (s : CString) : ℤ :=
  (s.takeWhile isDigit).foldl (fun value b ↦ 10 * value + (b.val - 48)) 0

/-- The number at the start of a string: leading white space, an optional sign, and digits up to the
first other byte. -/
def atoiValue (s : CString) : ℤ :=
  let rest := s.dropWhile isSpace
  if rest.head? = some 45 then -digitsValue rest.tail
  else if rest.head? = some 43 then digitsValue rest.tail
  else digitsValue rest

/-- `atoi`, which is `(int) strtol`: of a number that no `int` holds the low 32 bits are left. The
buffer of `string_to_tag` has no room for a number that no `long` holds. -/
def atoi (s : CString) : Int32 := Int32.ofInt (atoiValue s)

/-- `tag_to_string`. -/
def tagToString (tag : Tag) : CString := decimal tag.number ++ underscore :: tag.id

/-- `tag_ptr_to_string`. -/
def tagPtrToString (tag : Tag) : CString := decimal tag.number ++ underscore :: tag.id

/-- The size of `temp_buf` in `string_to_tag`. -/
def tempBufSize : ℕ := 16

/-- `string_to_tag`: the number before the first `_` and the id after it. On a string without `_`
the scan runs past the terminator, and with too many bytes before the `_` it runs out of `temp_buf`;
then there is no result. -/
def stringToTag (s : CString) : Option Tag :=
  if underscore ∈ s ∧ (s.takeWhile (· ≠ underscore)).length < tempBufSize then
    some ⟨atoi (s.takeWhile (· ≠ underscore)), (s.dropWhile (· ≠ underscore)).tail⟩
  else none

/-- The byte that prints a digit. -/
theorem val_digitByte {d : ℕ} (hd : d < 10) : (Fin.ofNat 256 (48 + d)).val = 48 + d := by
  rw [Fin.val_ofNat, Nat.mod_eq_of_lt (by omega)]

/-- Every byte that prints a natural number is a digit. -/
theorem isDigit_of_mem_digitString {n : ℕ} {b : Byte} (hb : b ∈ digitString n) :
    isDigit b = true := by
  unfold digitString at hb
  split_ifs at hb with hzero
  · obtain rfl := List.mem_singleton.mp hb
    decide
  · obtain ⟨d, hd, rfl⟩ := List.mem_map.mp hb
    have hlt : d < 10 := Nat.digits_lt_base (by norm_num) (List.mem_reverse.mp hd)
    have hval := val_digitByte hlt
    simp only [isDigit, Bool.and_eq_true, decide_eq_true_eq, Fin.le_def, hval]
    exact ⟨by norm_num, by simp; omega⟩

/-- Reading the digits of a list from the least significant one, as they stand before they are
reversed, gives the number they are the digits of. -/
theorem foldr_digitByte {digits : List ℕ} (hlt : ∀ d ∈ digits, d < 10) :
    digits.foldr (fun d (value : ℤ) ↦ 10 * value + ((Fin.ofNat 256 (48 + d)).val - 48)) 0 =
      (Nat.ofDigits 10 digits : ℕ) := by
  induction digits with
  | nil => rfl
  | cons d rest ih =>
    have hd := val_digitByte (hlt d List.mem_cons_self)
    rw [List.foldr_cons, ih fun e he ↦ hlt e (List.mem_cons_of_mem _ he), hd, Nat.ofDigits_cons]
    push_cast
    ring

/-- Reading back the digits of a number gives the number. -/
theorem digitsValue_digitString (n : ℕ) : digitsValue (digitString n) = n := by
  have hall : (digitString n).takeWhile isDigit = digitString n :=
    List.takeWhile_eq_self_iff.mpr fun _ hb ↦ isDigit_of_mem_digitString hb
  rw [digitsValue, hall, digitString]
  split_ifs with hzero
  · simp [hzero]
  · rw [List.foldl_map, List.foldl_reverse,
      foldr_digitByte fun d hd ↦ Nat.digits_lt_base (by norm_num) hd, Nat.ofDigits_digits]

/-- A digit is not white space. -/
theorem isSpace_of_isDigit {b : Byte} (hdigit : isDigit b = true) : isSpace b = false := by
  simp only [isDigit, isSpace, Bool.and_eq_true, Bool.or_eq_false_iff, Bool.and_eq_false_iff,
    decide_eq_true_eq, decide_eq_false_iff_not, Fin.le_def, Fin.ext_iff] at hdigit ⊢
  have hlow : (48 : ℕ) ≤ b.val := hdigit.1
  refine ⟨fun h ↦ ?_, Or.inr fun h ↦ ?_⟩
  · have h32 : b.val = 32 := h
    omega
  · have h13 : b.val ≤ 13 := h
    omega

/-- A number's digits start with a digit. -/
theorem exists_cons_digitString (n : ℕ) :
    ∃ b rest, digitString n = b :: rest ∧ isDigit b = true := by
  have hne : digitString n ≠ [] := by
    unfold digitString
    split_ifs with hzero
    · simp
    · simp [Nat.digits_ne_nil_iff_ne_zero.mpr hzero]
  obtain ⟨b, rest, hcons⟩ := List.exists_cons_of_ne_nil hne
  exact ⟨b, rest, hcons, isDigit_of_mem_digitString (hcons ▸ List.mem_cons_self)⟩

/-- The number at the start of what `%d` printed is the printed one. -/
theorem atoiValue_decimal (z : ℤ) : atoiValue (decimal z) = z := by
  cases z with
  | ofNat n =>
    obtain ⟨b, rest, hcons, hdigit⟩ := exists_cons_digitString n
    have hspace := isSpace_of_isDigit hdigit
    have hminus : b ≠ 45 := by rintro rfl; exact absurd hdigit (by decide)
    have hplus : b ≠ 43 := by rintro rfl; exact absurd hdigit (by decide)
    have hvalue := digitsValue_digitString n
    rw [hcons] at hvalue
    simp [atoiValue, decimal, hcons, hspace, hminus, hplus, hvalue]
  | negSucc n =>
    have hvalue := digitsValue_digitString (n + 1)
    have hspace : isSpace 45 = false := by decide
    simp only [atoiValue, decimal, List.dropWhile_cons, hspace, Bool.false_eq_true, if_false,
      List.head?_cons, if_true, List.tail_cons, hvalue]
    omega

/-- `atoi` reads back what `%d` printed. -/
theorem atoi_decimal (tag : Tag) : atoi (decimal tag.number) = tag.z := by
  rw [atoi, atoiValue_decimal, Tag.number, Int32.ofInt_toInt]

/-- A number with at most so many digits. -/
theorem length_digitString_le {n digits : ℕ} (hdigits : 0 < digits) (hn : n < 10 ^ digits) :
    (digitString n).length ≤ digits := by
  rw [digitString]
  split_ifs with hzero
  · exact hdigits
  · rw [List.length_map, List.length_reverse]
    exact Nat.digits_length_le_iff (by norm_num) n |>.mpr hn

/-- An `int` is printed in at most 11 bytes. -/
theorem length_decimal_le {z : ℤ} (hlow : -2 ^ 31 ≤ z) (hhigh : z < 2 ^ 31) :
    (decimal z).length ≤ 11 := by
  cases z with
  | ofNat n =>
    have hn : n < 10 ^ 10 := by
      have hn' : (n : ℤ) < 2 ^ 31 := hhigh
      omega
    exact (length_digitString_le (by norm_num) hn).trans (by norm_num)
  | negSucc n =>
    have hn : n + 1 < 10 ^ 10 := by omega
    have hdigits := length_digitString_le (by norm_num) hn
    rw [decimal, List.length_cons]
    omega

/-- The version number of a tag is printed in at most 11 bytes. -/
theorem Tag.length_decimal_le (tag : Tag) : (decimal tag.number).length ≤ 11 :=
  Colas.length_decimal_le (Int32.le_toInt tag.z) (Int32.toInt_lt tag.z)

/-- What `%d` prints has no `_`. -/
theorem ne_underscore_of_mem_decimal {z : ℤ} {b : Byte} (hb : b ∈ decimal z) :
    b ≠ underscore := by
  have hdigit : ∀ n, b ∈ digitString n → b ≠ underscore := by
    rintro n hmem rfl
    exact absurd (isDigit_of_mem_digitString hmem) (by decide)
  cases z with
  | ofNat n => exact hdigit n hb
  | negSucc n =>
    rcases List.mem_cons.mp hb with rfl | hmem
    · decide
    · exact hdigit (n + 1) hmem

/-- Parsing the rendering of a tag gives the tag. -/
@[simp] theorem stringToTag_tagToString (tag : Tag) :
    stringToTag (tagToString tag) = some tag := by
  have hbefore : ∀ b ∈ decimal tag.number, decide (b ≠ underscore) = true := fun b hb ↦ by
    simpa using ne_underscore_of_mem_decimal hb
  have hmem : underscore ∈ tagToString tag := by simp [tagToString]
  have htake : (tagToString tag).takeWhile (· ≠ underscore) = decimal tag.number := by
    rw [tagToString, List.takeWhile_append_of_pos hbefore]
    simp
  have hbuffer : ((tagToString tag).takeWhile (· ≠ underscore)).length < tempBufSize := by
    rw [htake]
    exact tag.length_decimal_le.trans_lt (by decide)
  rw [stringToTag, if_pos ⟨hmem, hbuffer⟩, htake, tagToString,
    List.dropWhile_append_of_pos hbefore]
  simp [atoi_decimal]

/-- Tags with one rendering are one tag. -/
theorem tagToString_injective : Function.Injective tagToString := fun a b h ↦ by
  have hparse := congrArg stringToTag h
  simpa using hparse

/-! ### The next tag -/

/-- The tag with which a writer follows the greatest one that it has found: `z + 1` and its own id.
At `INT_MAX` the addition overflows, and there is no result. -/
def Tag.next (maxTag : Tag) (clientId : CString) : Option Tag :=
  if maxTag.z < Int32.maxValue then some ⟨maxTag.z + 1, clientId⟩ else none

/-- The next tag has the next number. -/
theorem Tag.next_eq_some_iff {maxTag tag : Tag} {clientId : CString} :
    maxTag.next clientId = some tag ↔ tag.number = maxTag.number + 1 ∧ tag.id = clientId := by
  have hlow := Int32.le_toInt maxTag.z
  have hmax : maxTag.z < Int32.maxValue ↔ maxTag.number < 2 ^ 31 - 1 := by
    rw [Int32.lt_iff_toInt_lt, Int32.toInt_maxValue, Tag.number]
  have hadd : maxTag.number < 2 ^ 31 - 1 → (maxTag.z + 1).toInt = maxTag.number + 1 := by
    intro hlt
    rw [Int32.toInt_add, Int32.toInt_one, Tag.number]
    rw [Tag.number] at hlt
    exact Int.bmod_eq_of_le (by simpa using hlow.trans (by omega)) (by omega)
  obtain ⟨z, id⟩ := tag
  rw [Tag.next, Option.ite_none_right_eq_some, hmax, Option.some.injEq, Tag.mk.injEq]
  change _ ↔ z.toInt = maxTag.number + 1 ∧ id = clientId
  constructor
  · rintro ⟨hlt, rfl, rfl⟩
    exact ⟨hadd hlt, rfl⟩
  · rintro ⟨hz, rfl⟩
    have hlt : maxTag.number < 2 ^ 31 - 1 := by
      have hhigh := Int32.toInt_lt z
      omega
    exact ⟨hlt, Int32.toInt_inj.mp ((hadd hlt).trans hz.symm), rfl⟩

/-- A tag below `INT_MAX` has a next one. -/
theorem Tag.exists_next {maxTag : Tag} (hmax : maxTag.number < 2 ^ 31 - 1) (clientId : CString) :
    ∃ tag, maxTag.next clientId = some tag :=
  ⟨⟨Int32.ofInt (maxTag.number + 1), clientId⟩, Tag.next_eq_some_iff.mpr
    ⟨Int32.toInt_ofInt_of_le (by have hlow := Int32.le_toInt maxTag.z; rw [Tag.number]; omega)
      (by omega), rfl⟩⟩

/-! ### The maximum of a list -/

/-- One turn of the loop of `get_max_tag`. The maximum is replaced when `compare_tag_ptrs` returns
exactly `1`. -/
def keepGreater (strcmp : Strcmp) (maxTag tag : Tag) : Tag :=
  if compareTagPtrs strcmp tag maxTag = 1 then tag else maxTag

/-- `get_max_tag`: scan the list from the head with a maximum that starts below every tag. The id
of that first maximum is not compared with the id of a tag whose version number is not
negative. -/
def getMaxTag (strcmp : Strcmp) (tagList : List Tag) : Tag :=
  tagList.foldl (keepGreater strcmp) ⟨-1, []⟩

/-- One turn of the loop keeps the maximum or takes the tag. -/
theorem keepGreater_eq_or (strcmp : Strcmp) (maxTag tag : Tag) :
    keepGreater strcmp maxTag tag = maxTag ∨ keepGreater strcmp maxTag tag = tag := by
  unfold keepGreater
  split_ifs
  · exact Or.inr rfl
  · exact Or.inl rfl

/-- After one turn of the loop the version number is at least the old one and the tag's. -/
theorem number_le_keepGreater (strcmp : Strcmp) (maxTag tag : Tag) :
    maxTag.number ≤ (keepGreater strcmp maxTag tag).number ∧
      tag.number ≤ (keepGreater strcmp maxTag tag).number := by
  unfold keepGreater compareTagPtrs
  split_ifs with hgt
  · have hlt : maxTag < tag :=
      (compareTagsWith_pos_iff (by norm_num : (-2 : ℤ) < 0) strcmp tag maxTag).mp (by omega)
    exact ⟨Tag.number_le_of_le hlt.le, le_rfl⟩
  · refine ⟨le_rfl, ?_⟩
    by_contra hlt
    refine hgt ?_
    rw [compareTagsWith_eq, if_neg (by omega), if_pos (by omega)]

/-- The scan of `get_max_tag` from any maximum ends in the old maximum or in an element, with a
version number that bounds those of the old maximum and of every element. -/
theorem foldl_keepGreater (strcmp : Strcmp) (tagList : List Tag) (start : Tag) :
    (tagList.foldl (keepGreater strcmp) start = start ∨
        tagList.foldl (keepGreater strcmp) start ∈ tagList) ∧
      start.number ≤ (tagList.foldl (keepGreater strcmp) start).number ∧
        ∀ tag ∈ tagList, tag.number ≤ (tagList.foldl (keepGreater strcmp) start).number := by
  induction tagList generalizing start with
  | nil => simp
  | cons head rest ih =>
    obtain ⟨hmem, hle, hall⟩ := ih (keepGreater strcmp start head)
    obtain ⟨hstart, hhead⟩ := number_le_keepGreater strcmp start head
    rw [List.foldl_cons]
    refine ⟨?_, hstart.trans hle, ?_⟩
    · rcases hmem with hnext | hnext
      · rcases keepGreater_eq_or strcmp start head with h | h
        · exact Or.inl (hnext.trans h)
        · exact Or.inr (List.mem_cons.mpr (Or.inl (hnext.trans h)))
      · exact Or.inr (List.mem_cons_of_mem _ hnext)
    · intro tag htag
      rcases List.mem_cons.mp htag with rfl | htag
      · exact hhead.trans hle
      · exact hall tag htag

/-- `get_max_tag` of a nonempty list of tags with nonnegative version numbers is an element of the
list. -/
theorem getMaxTag_mem (strcmp : Strcmp) {tagList : List Tag} (hne : tagList ≠ [])
    (hnonneg : ∀ tag ∈ tagList, 0 ≤ tag.number) : getMaxTag strcmp tagList ∈ tagList := by
  obtain ⟨hmem, -, hall⟩ := foldl_keepGreater strcmp tagList ⟨-1, []⟩
  refine hmem.resolve_left fun heq ↦ ?_
  obtain ⟨tag, htag⟩ := List.exists_mem_of_ne_nil _ hne
  have hbound : tag.number ≤ -1 := by simpa [heq] using hall tag htag
  have hz := hnonneg tag htag
  omega

/-- The version number of `get_max_tag` is at least the one that the scan starts from. -/
theorem neg_one_le_getMaxTag (strcmp : Strcmp) (tagList : List Tag) :
    -1 ≤ (getMaxTag strcmp tagList).number :=
  (foldl_keepGreater strcmp tagList ⟨-1, []⟩).2.1

/-- The version number of `get_max_tag` bounds those of the list. -/
theorem number_le_getMaxTag (strcmp : Strcmp) {tagList : List Tag} {tag : Tag}
    (htag : tag ∈ tagList) : tag.number ≤ (getMaxTag strcmp tagList).number :=
  (foldl_keepGreater strcmp tagList ⟨-1, []⟩).2.2 tag htag

/-! ### When the maximum of a list is the greatest tag -/

section Greatest

variable {strcmp : Strcmp} {tagList : List Tag} {greatest : Tag}

/-- `compare_tag_ptrs` returns exactly `1` on the greatest tag and this one, unless they are one
tag. -/
def Yields (strcmp : Strcmp) (greatest tag : Tag) : Prop :=
  tag ≠ greatest → compareTagPtrs strcmp greatest tag = 1

/-- A tag with a smaller version number is replaced by the greatest one. -/
theorem yields_of_number_lt {tag : Tag} (h : tag.number < greatest.number) :
    Yields strcmp greatest tag := by
  intro _
  rw [compareTagPtrs, compareTagsWith_eq, if_neg (by omega), if_pos h]

/-- Once the scan has the greatest tag, it keeps it. -/
theorem keepGreater_greatest {tag : Tag} (hle : tag ≤ greatest) :
    keepGreater strcmp greatest tag = greatest := by
  refine if_neg fun hone ↦ not_lt.mpr hle ?_
  exact (compareTagsWith_pos_iff (by norm_num : (-2 : ℤ) < 0) strcmp tag greatest).mp
    (show 0 < compareTagPtrs strcmp tag greatest by omega)

/-- A maximum that yields to the greatest tag is replaced when the scan reaches that tag. -/
theorem keepGreater_of_yields {tag : Tag} (h : Yields strcmp greatest tag) :
    keepGreater strcmp tag greatest = greatest := by
  by_cases heq : tag = greatest
  · rw [heq]
    exact keepGreater_greatest le_rfl
  · exact if_pos (h heq)

/-- If all tags yield to the greatest one, the scan ends in it. -/
theorem foldl_keepGreater_eq (hle : ∀ tag ∈ tagList, tag ≤ greatest)
    (hyields : ∀ tag ∈ tagList, Yields strcmp greatest tag) {start : Tag}
    (hstart : Yields strcmp greatest start) (hmem : start = greatest ∨ greatest ∈ tagList) :
    tagList.foldl (keepGreater strcmp) start = greatest := by
  induction tagList generalizing start with
  | nil => exact hmem.resolve_right List.not_mem_nil
  | cons head rest ih =>
    rw [List.foldl_cons]
    refine ih (fun tag htag ↦ hle tag (List.mem_cons_of_mem _ htag))
      (fun tag htag ↦ hyields tag (List.mem_cons_of_mem _ htag)) ?_ ?_
    · rcases keepGreater_eq_or strcmp start head with h | h <;> rw [h]
      · exact hstart
      · exact hyields head List.mem_cons_self
    · rcases hmem with rfl | hmem
      · exact Or.inl (keepGreater_greatest (hle head List.mem_cons_self))
      · rcases List.mem_cons.mp hmem with rfl | hrest
        · exact Or.inl (keepGreater_of_yields hstart)
        · exact Or.inr hrest

/-- If some tag does not yield to the greatest one, the scan of the order that starts with it and
has the greatest tag next ends in another tag. -/
theorem exists_order_of_not_yields {tag : Tag} (htag : tag ∈ tagList) (hz : 0 ≤ tag.number)
    (h : ¬ Yields strcmp greatest tag) :
    ∃ order, order.Perm tagList ∧ getMaxTag strcmp order ≠ greatest := by
  obtain ⟨hne, hcompare⟩ := Classical.not_imp.mp h
  set others := tagList.erase tag with hothers
  refine ⟨tag :: (others.filter (· = greatest) ++ others.filter fun t ↦ ¬ t = greatest), ?_, ?_⟩
  · have hsplit : (others.filter (· = greatest) ++ others.filter fun t ↦ ¬ t = greatest).Perm
        others := by
      simpa using List.filter_append_perm (fun t ↦ decide (t = greatest)) others
    exact (hsplit.cons tag).trans (List.perm_cons_erase htag).symm
  · have hfirst : keepGreater strcmp ⟨-1, []⟩ tag = tag :=
      keepGreater_of_yields (yields_of_number_lt (show (-1 : ℤ) < tag.number by omega))
    have hcopies : ∀ copies : List Tag, (∀ t ∈ copies, t = greatest) →
        copies.foldl (keepGreater strcmp) tag = tag := by
      intro copies hall
      induction copies with
      | nil => rfl
      | cons head rest ih =>
        rw [List.foldl_cons, hall head List.mem_cons_self, keepGreater, if_neg hcompare]
        exact ih fun t ht ↦ hall t (List.mem_cons_of_mem _ ht)
    rw [getMaxTag, List.foldl_cons, hfirst, List.foldl_append,
      hcopies _ fun t ht ↦ by simpa using List.of_mem_filter ht]
    rcases (foldl_keepGreater strcmp (others.filter fun t ↦ ¬ t = greatest) tag).1 with heq | hmem
    · rw [heq]
      exact hne
    · simpa using List.of_mem_filter hmem

/-- `get_max_tag` returns the greatest tag of a list, in whatever order the list is, exactly if
`strcmp` returns `1` on the id of the greatest tag and every other id with the same version
number. -/
theorem getMaxTag_isGreatest_iff (strcmp : Strcmp) (hne : tagList ≠ [])
    (hnonneg : ∀ tag ∈ tagList, 0 ≤ tag.number) :
    (∀ order : List Tag, order.Perm tagList →
        IsGreatest {tag | tag ∈ tagList} (getMaxTag strcmp order)) ↔
      ∀ greatest tag, IsGreatest {tag | tag ∈ tagList} greatest → tag ∈ tagList →
        tag.number = greatest.number → tag ≠ greatest → strcmp.compare greatest.id tag.id = 1 := by
  have hties : ∀ {greatest tag : Tag}, tag.number = greatest.number →
      compareTagPtrs strcmp greatest tag = strcmp.compare greatest.id tag.id := by
    intro greatest tag hz
    rw [compareTagPtrs, compareTagsWith_eq, if_neg (by omega), if_neg (by omega)]
  constructor
  · intro h greatest tag hgreatest htag hz hother
    by_contra hcompare
    have hnot : ¬ Yields strcmp greatest tag := by
      rw [Yields, hties hz]
      exact fun hone ↦ hcompare (hone hother)
    obtain ⟨order, hperm, hmax⟩ := exists_order_of_not_yields htag (hnonneg tag htag) hnot
    exact hmax ((h order hperm).unique hgreatest)
  · intro h order hperm
    obtain ⟨greatest, hmem, hupper⟩ : ∃ greatest ∈ tagList, ∀ tag ∈ tagList, tag ≤ greatest := by
      simpa using tagList.toFinset.exists_max_image id (List.toFinset_nonempty_iff _ |>.mpr hne)
    have hgreatest : IsGreatest {tag | tag ∈ tagList} greatest := ⟨hmem, hupper⟩
    have hyields : ∀ tag ∈ tagList, Yields strcmp greatest tag := by
      intro tag htag
      rcases (Tag.number_le_of_le (hupper tag htag)).lt_or_eq with hlt | hz
      · exact yields_of_number_lt hlt
      · exact fun hother ↦ (hties hz).trans (h greatest tag hgreatest htag hz hother)
    have hstart : (-1 : ℤ) < greatest.number :=
      lt_of_lt_of_le (by norm_num) (hnonneg greatest hmem)
    have hscan : getMaxTag strcmp order = greatest :=
      foldl_keepGreater_eq (fun tag htag ↦ hupper tag (hperm.mem_iff.mp htag))
        (fun tag htag ↦ hyields tag (hperm.mem_iff.mp htag))
        (yields_of_number_lt hstart)
        (Or.inr (hperm.mem_iff.mpr hmem))
    rw [hscan]
    exact hgreatest

end Greatest

/-- Two tags with one version number, as two concurrent writers create them. -/
def tiedTags : List Tag := [⟨1, ascii ['w', '1']⟩, ⟨1, ascii ['w', '3']⟩]

theorem tiedTags_lt : (⟨1, ascii ['w', '1']⟩ : Tag) < ⟨1, ascii ['w', '3']⟩ :=
  (Tag.lt_iff _ _).mpr (Or.inr ⟨rfl, by decide⟩)

/-- With a `strcmp` that returns only signs `get_max_tag` returns the greater of the two. -/
theorem getMaxTag_isGreatest_tied :
    IsGreatest {tag | tag ∈ tiedTags} (getMaxTag Strcmp.sign tiedTags) := by
  refine (getMaxTag_isGreatest_iff Strcmp.sign (show tiedTags ≠ [] by decide)
    (by decide)).mpr ?_ tiedTags (List.Perm.refl _)
  rintro greatest tag ⟨hmem, hupper⟩ htag - hother
  have hgreatest : greatest = ⟨1, ascii ['w', '3']⟩ := by
    rcases List.mem_pair.mp hmem with rfl | rfl
    · exact absurd (hupper (show ⟨1, ascii ['w', '3']⟩ ∈ tiedTags by decide))
        (not_le.mpr tiedTags_lt)
    · rfl
  subst hgreatest
  rcases List.mem_pair.mp htag with rfl | rfl
  · decide
  · exact absurd rfl hother

/-- With a `strcmp` that returns the difference of two bytes, `get_max_tag` keeps the first of the
two tags, which is not the greatest. -/
theorem not_isGreatest_getMaxTag : (∀ tag ∈ tiedTags, 0 ≤ tag.number) ∧
    ¬ IsGreatest {tag | tag ∈ tiedTags} (getMaxTag Strcmp.difference tiedTags) := by
  have hscan : getMaxTag Strcmp.difference tiedTags = ⟨1, ascii ['w', '1']⟩ := by decide
  refine ⟨by decide, fun hgreatest ↦ ?_⟩
  rw [hscan] at hgreatest
  exact not_lt.mpr (hgreatest.2 (show ⟨1, ascii ['w', '3']⟩ ∈ tiedTags by decide)) tiedTags_lt

end Colas
