import Colas.BaseProcess.Frames
import Colas.BaseProcess.ObjectStore

/-!
# Parsing tags in the memory of C

`string_to_tag` copies the bytes before the first `_` to a buffer of 16 bytes and those after it to
the id of a tag. Here its two loops read the bytes of the string one by one and write to buffers of
a size; a read behind the terminator and a write outside of a buffer or of the block for the tag are
the absence of a result. As long as there is one, it is that of `stringToTag`
(`stringToTag_of_stringToTagInto`).

On the strings that `tag_to_string` makes there is a result (`tag_roundTrip`). On the strings that
can arrive in a frame there is one if the string has a `_` early enough and the block is that of a
tag, which the block that `ABD_get_max_tag_phase` allocates is not. `get_object_tag` parses a copy
of the string, and has less room for it than the handler that stored it as a key
(`parsedInBounds_iff`).
-/

set_option autoImplicit false
set_option relaxedAutoImplicit false

namespace Colas

/-! ### The loops -/

/-- A loop of `string_to_tag`: the bytes before the stop byte are copied to a buffer behind those
that it has copied before. With what has been copied comes what is behind the stop byte. -/
def copyUntil (stop : Byte) (capacity : ℕ) (copied : CString) :
    List Byte → Option (CString × List Byte)
  | [] => none
  | b :: rest =>
    if b = stop then some (copied, rest)
    else if copied.length < capacity then copyUntil stop capacity (copied ++ [b]) rest
    else none

/-- A loop and the terminator that is written behind the copy. -/
def copyField (stop : Byte) (capacity : ℕ) (bytes : List Byte) : Option (CString × List Byte) := do
  let (copied, rest) ← copyUntil stop capacity [] bytes
  if copied.length < capacity then some (copied, rest) else none

/-- `sizeof(int)`, behind which the id stands in a `Tag`. -/
def sizeofInt : ℕ := 4

/-- The size of `id`. -/
def idSize : ℕ := 100

/-- `sizeof(Tag)`. -/
def sizeofTag : ℕ := sizeofInt + idSize

/-- `string_to_tag` into a block of a size. -/
def stringToTagInto (size : ℕ) (str : CString) : Option Tag := do
  let (tempBuf, q) ← copyField underscore tempBufSize (str ++ [0])
  if sizeofInt ≤ size then
    let (id, _) ← copyField 0 (min idSize (size - sizeofInt)) q
    some ⟨atoi tempBuf, id⟩
  else none

section Loops

variable {stop : Byte} {capacity : ℕ} {copied before : CString} {bytes rest : List Byte}

/-- A loop stops at the stop byte if the copy fits. -/
theorem copyUntil_append (hstop : stop ∉ before) (hfits : copied.length + before.length ≤ capacity)
    (rest : List Byte) :
    copyUntil stop capacity copied (before ++ stop :: rest) = some (copied ++ before, rest) := by
  induction before generalizing copied with
  | nil => simp [copyUntil]
  | cons b before ih =>
    obtain ⟨hb, hbefore⟩ := List.ne_and_not_mem_of_not_mem_cons hstop
    rw [List.length_cons] at hfits
    rw [List.cons_append, copyUntil, if_neg hb.symm, if_pos (by omega), ih hbefore (by simp; omega)]
    simp

/-- What a loop has copied is what it has read before the stop byte. -/
theorem eq_of_copyUntil (h : copyUntil stop capacity copied bytes = some (before, rest)) :
    ∃ field, before = copied ++ field ∧ stop ∉ field ∧ bytes = field ++ stop :: rest := by
  induction bytes generalizing copied with
  | nil => cases h
  | cons b bytes ih =>
    rw [copyUntil] at h
    split_ifs at h with hb hfits
    · obtain ⟨rfl, rfl⟩ := Prod.mk.inj (Option.some.inj h)
      exact ⟨[], by simp, List.not_mem_nil, by simp [hb]⟩
    · obtain ⟨field, hfield, hstop, hbytes⟩ := ih h
      refine ⟨b :: field, by simp [hfield], ?_, by simp [hbytes]⟩
      exact List.not_mem_cons_of_ne_of_not_mem (Ne.symm hb) hstop

theorem copyField_append (hstop : stop ∉ before) (hfits : before.length < capacity)
    (rest : List Byte) :
    copyField stop capacity (before ++ stop :: rest) = some (before, rest) := by
  have hloop : copyUntil stop capacity [] (before ++ stop :: rest) = some ([] ++ before, rest) :=
    copyUntil_append hstop (by simpa using hfits.le) rest
  rw [copyField, hloop]
  exact if_pos hfits

theorem copyField_eq_some_iff : copyField stop capacity bytes = some (before, rest) ↔
    stop ∉ before ∧ before.length < capacity ∧ bytes = before ++ stop :: rest := by
  constructor
  · intro h
    simp only [copyField, Option.bind_eq_bind, Option.bind_eq_some_iff,
      Option.ite_none_right_eq_some, Option.some.injEq] at h
    obtain ⟨⟨copied, behind⟩, hloop, hfits, hresult⟩ := h
    obtain ⟨rfl, rfl⟩ := Prod.mk.inj hresult
    obtain ⟨field, rfl, hstop, hbytes⟩ := eq_of_copyUntil hloop
    exact ⟨hstop, hfits, hbytes⟩
  · rintro ⟨hstop, hfits, rfl⟩
    exact copyField_append hstop hfits rest

end Loops

/-! ### When a string is parsed -/

section Strings

variable {str : CString} {size : ℕ} {tag : Tag}

theorem takeWhile_append_underscore {before : CString} (h : underscore ∉ before)
    (behind : CString) :
    (before ++ underscore :: behind).takeWhile (· ≠ underscore) = before ∧
      (before ++ underscore :: behind).dropWhile (· ≠ underscore) = underscore :: behind := by
  have hall : ∀ b ∈ before, decide (b ≠ underscore) = true := fun b hb ↦ by
    simpa using fun heq : b = underscore ↦ h (heq ▸ hb)
  rw [List.takeWhile_append_of_pos hall, List.dropWhile_append_of_pos hall]
  simp

/-- What a string is parsed to, and that nothing is written outside. -/
theorem stringToTagInto_eq_some_iff (hstr : 0 ∉ str) : stringToTagInto size str = some tag ↔
    ∃ before, underscore ∉ before ∧ str = before ++ underscore :: tag.id ∧
      before.length < tempBufSize ∧ tag.id.length < min idSize (size - sizeofInt) ∧
        sizeofInt ≤ size ∧ tag.z = atoi before := by
  constructor
  · intro h
    simp only [stringToTagInto, Option.bind_eq_bind, Option.bind_eq_some_iff,
      Option.ite_none_right_eq_some, Option.some.injEq] at h
    obtain ⟨⟨before, q⟩, hversion, hint, ⟨id, behind⟩, hid, rfl⟩ := h
    obtain ⟨hbefore, hbuffer, hsplit⟩ := copyField_eq_some_iff.mp hversion
    obtain ⟨hnul, hfits, rfl⟩ := copyField_eq_some_iff.mp hid
    -- the terminator that ends the id is that of the string
    have hwhole : str ++ 0 :: [] = (before ++ underscore :: id) ++ 0 :: behind := by
      rw [List.append_assoc, List.cons_append]
      exact hsplit
    obtain ⟨hstring, -, -⟩ :=
      (List.append_cons_inj_of_notMem hstr List.not_mem_nil).mp hwhole
    exact ⟨before, hbefore, hstring, hbuffer, hfits, hint, rfl⟩
  · rintro ⟨before, hbefore, rfl, hbuffer, hfits, hint, hz⟩
    have hid : 0 ∉ tag.id := fun hmem ↦
      hstr (List.mem_append_right _ (List.mem_cons_of_mem _ hmem))
    rw [stringToTagInto, List.append_assoc, List.cons_append, copyField_append hbefore hbuffer]
    simp only [Option.bind_eq_bind, Option.bind_some, if_pos hint, copyField_append hid hfits, ← hz]

/-- If nothing is read or written outside, `string_to_tag` is `stringToTag`. -/
theorem stringToTag_of_stringToTagInto (hstr : 0 ∉ str) (h : stringToTagInto size str = some tag) :
    stringToTag str = some tag := by
  obtain ⟨before, hbefore, rfl, hbuffer, -, -, hz⟩ := (stringToTagInto_eq_some_iff hstr).mp h
  obtain ⟨htake, hdrop⟩ := takeWhile_append_underscore hbefore tag.id
  rw [stringToTag, htake, if_pos ⟨List.mem_append_right _ List.mem_cons_self, hbuffer⟩, hdrop, ← hz,
    List.tail_cons]

/-- A string of at most 99 bytes is parsed into a tag if it has a `_` behind at most 15 bytes. -/
theorem isSome_stringToTagInto_iff (hstr : 0 ∉ str) (hlength : str.length ≤ 99) :
    (stringToTagInto sizeofTag str).isSome = true ↔
      underscore ∈ str ∧ (str.takeWhile (· ≠ underscore)).length < tempBufSize := by
  rw [Option.isSome_iff_exists]
  constructor
  · rintro ⟨tag, htag⟩
    obtain ⟨before, hbefore, rfl, hbuffer, -⟩ := (stringToTagInto_eq_some_iff hstr).mp htag
    refine ⟨List.mem_append_right _ List.mem_cons_self, ?_⟩
    rwa [(takeWhile_append_underscore hbefore tag.id).1]
  · rintro ⟨hmem, hbuffer⟩
    obtain ⟨before, id, rfl, hbefore⟩ := List.eq_append_cons_of_mem hmem
    rw [(takeWhile_append_underscore hbefore id).1] at hbuffer
    refine ⟨⟨atoi before, id⟩, (stringToTagInto_eq_some_iff hstr).mpr
      ⟨before, hbefore, rfl, hbuffer, ?_, by decide, rfl⟩⟩
    rw [List.length_append, List.length_cons] at hlength
    change id.length < 100
    omega

end Strings

/-! ### Strings that are renderings -/

section Renderings

/-- A tag with a string for its id and a rendering that fits into the smallest buffer. -/
structure Tag.Fits (tag : Tag) : Prop where
  /-- The id is a string. -/
  id : 0 ∉ tag.id
  /-- The rendering is shorter than 64 bytes. -/
  length : (tagToString tag).length < 64

/-- What `%d` prints has no terminator. -/
theorem ne_zero_of_mem_decimal {z : ℤ} {b : Byte} (hb : b ∈ decimal z) : b ≠ 0 := by
  have hdigit : ∀ n, b ∈ digitString n → b ≠ 0 := by
    rintro n hmem rfl
    exact absurd (isDigit_of_mem_digitString hmem) (by decide)
  cases z with
  | ofNat n => exact hdigit n hb
  | negSucc n =>
    rcases List.mem_cons.mp hb with rfl | hmem
    · decide
    · exact hdigit (n + 1) hmem

/-- `string_to_tag` reads back what `tag_to_string` has printed, inside of all buffers,
`tag_ptr_to_string` prints the same, and tags are level exactly if their renderings are equal. -/
theorem tag_roundTrip (strcmp : Strcmp) {a : Tag} (ha : a.Fits) (b : Tag) :
    stringToTagInto sizeofTag (tagToString a) = some a ∧ tagPtrToString a = tagToString a ∧
      (compareTags strcmp a b = 0 ↔ tagToString a = tagToString b) := by
  refine ⟨?_, rfl, ?_⟩
  · have hstr : 0 ∉ tagToString a := by
      intro hmem
      rcases List.mem_append.mp hmem with hz | hid
      · exact ne_zero_of_mem_decimal hz rfl
      · rcases List.mem_cons.mp hid with hsep | hid
        · exact absurd hsep (by decide)
        · exact ha.id hid
    have hlength := ha.length
    rw [tagToString, List.length_append, List.length_cons] at hlength
    refine (stringToTagInto_eq_some_iff hstr).mpr ⟨decimal a.number, fun hmem ↦
      ne_underscore_of_mem_decimal hmem rfl, rfl, a.length_decimal_le.trans_lt (by decide), ?_,
      by decide, (atoi_decimal a).symm⟩
    change a.id.length < 100
    omega
  · rw [compareTags, compareTagsWith_zero_iff (by norm_num)]
    exact tagToString_injective.eq_iff.symm

/-- The smallest `int`, and an id with digits and `_`. -/
def edgeTag : Tag := ⟨-2147483648, ascii ['0', '_', 'w', '_', '1']⟩

theorem tag_roundTrip_edgeTag :
    stringToTagInto sizeofTag (tagToString edgeTag) = some edgeTag ∧
      tagPtrToString edgeTag = tagToString edgeTag ∧
      (compareTags Strcmp.difference edgeTag initTag = 0 ↔
        tagToString edgeTag = tagToString initTag) :=
  tag_roundTrip Strcmp.difference
    ⟨by decide, by decide +kernel⟩ initTag

end Renderings

/-! ### Where tags are parsed -/

/-- The functions that hand a string to `string_to_tag`, directly or through `get_tag_frame`. -/
inductive CallSite
  /-- `algorithm_ABD_WRITE_VALUE`. -/
  | abdWriteValue
  /-- `ABD_get_max_tag_phase`. -/
  | abdGetMaxTagPhase
  /-- `ABD_get_max_tag_value_phase`. -/
  | abdGetMaxTagValuePhase
  /-- `algorithm_SODAW_WRITE_PUT`. -/
  | sodawWritePut
  /-- `algorithm_SODAW_READ_COMPLETE`. -/
  | sodawReadComplete
  /-- `algorithm_SODAW_READ_DISPERSE`, for both of its tags. -/
  | sodawReadDisperse
  /-- `algorithm_SODAW_READ_VALUE`. -/
  | sodawReadValueAtServer
  /-- `SODAW_write_get_or_read_get_phase`. -/
  | sodawWriteGetOrReadGetPhase
  /-- `SODAW_read_value`. -/
  | sodawReadValue
  /-- `get_object_tag`. -/
  | getObjectTag
  deriving DecidableEq

/-- The size of the block for the tag: a `Tag`, or in `ABD_get_max_tag_phase` the `sizeof(TAG)` of
the string `"TAG"`. -/
def CallSite.size : CallSite → ℕ
  | .abdGetMaxTagPhase => 4
  | .abdWriteValue | .abdGetMaxTagValuePhase | .sodawWritePut | .sodawReadComplete
  | .sodawReadDisperse | .sodawReadValueAtServer | .sodawWriteGetOrReadGetPhase | .sodawReadValue
  | .getObjectTag => sizeofTag

/-- The size of the buffer with the string that is parsed: the one for the strings of a message, or
`tag_str` of `get_object_tag`, to which `strcpy` copies a key that has come in a message before. -/
def CallSite.strSize : CallSite → ℕ
  | .getObjectTag => tagStrSize
  | .abdWriteValue | .abdGetMaxTagPhase | .abdGetMaxTagValuePhase | .sodawWritePut
  | .sodawReadComplete | .sodawReadDisperse | .sodawReadValueAtServer
  | .sodawWriteGetOrReadGetPhase | .sodawReadValue => bufsize

/-- A frame is read into a buffer and, copied to another one where the site does so, parsed without
a read behind the terminator or a write outside of a buffer, and the block is large enough for every
tag. -/
def ParsedInBounds (site : CallSite) (frames : FrameTable) (name : FrameName) : Prop :=
  (∃ tagStr tag, getStringFrame bufsize frames name = some tagStr ∧
    tagStr.length < site.strSize ∧ stringToTagInto site.size tagStr = some tag) ∧
      sizeofTag ≤ site.size

section CallSites

variable {frames : FrameTable} {name : FrameName} {frame : Frame}

/-- The block is large enough for a tag everywhere but in `ABD_get_max_tag_phase`. -/
theorem sizeofTag_le_size_iff {site : CallSite} :
    sizeofTag ≤ site.size ↔ site ≠ .abdGetMaxTagPhase := by
  cases site <;> decide

theorem size_of_sizeofTag_le {site : CallSite} (h : sizeofTag ≤ site.size) :
    site.size = sizeofTag := by
  cases site with
  | abdGetMaxTagPhase => exact absurd h (by decide)
  | _ => rfl

/-- A frame of at most 99 bytes fits into the buffer for strings. -/
theorem getStringFrame_of_length_le (hframe : frames.lookup name = some frame)
    (hlength : frame.length ≤ 99) :
    getStringFrame bufsize frames name = some (frame.takeWhile (· ≠ 0)) := by
  rw [getStringFrame, hframe]
  exact if_pos (Nat.lt_succ_of_le hlength)

/-- A string of at most 99 bytes fits into the buffer unless it is copied to the smaller one. -/
theorem length_lt_strSize_iff {site : CallSite} {tagStr : CString} (hlength : tagStr.length ≤ 99) :
    tagStr.length < site.strSize ↔ (site = .getObjectTag → tagStr.length < tagStrSize) := by
  have hfits : tagStr.length < bufsize := Nat.lt_succ_of_le hlength
  cases site <;> simp [CallSite.strSize, hfits]

/-- Whatever the bytes of a frame, it is parsed inside of all buffers exactly if a `_` stands behind
at most 15 bytes and before the first terminator, the block is not the one that
`ABD_get_max_tag_phase` allocates, and in `get_object_tag` the string has less than 64 bytes. -/
theorem parsedInBounds_iff (site : CallSite) (hframe : frames.lookup name = some frame)
    (hlength : frame.length ≤ 99) : ParsedInBounds site frames name ↔
      underscore ∈ frame.takeWhile (· ≠ 0) ∧
        ((frame.takeWhile (· ≠ 0)).takeWhile (· ≠ underscore)).length < tempBufSize ∧
          (site = .getObjectTag → (frame.takeWhile (· ≠ 0)).length < tagStrSize) ∧
            site ≠ .abdGetMaxTagPhase := by
  have hstr : (0 : Byte) ∉ frame.takeWhile (· ≠ 0) := fun hmem ↦ by
    simpa using List.mem_takeWhile_imp hmem
  have hshort : (frame.takeWhile (· ≠ 0)).length ≤ 99 :=
    (List.takeWhile_prefix _).length_le.trans hlength
  have hparsed := isSome_stringToTagInto_iff hstr hshort
  have hread := getStringFrame_of_length_le hframe hlength
  rw [ParsedInBounds, sizeofTag_le_size_iff, ← and_assoc, ← and_assoc, ← hparsed,
    ← length_lt_strSize_iff hshort, Option.isSome_iff_exists]
  refine and_congr_left fun hsite ↦ ?_
  rw [size_of_sizeofTag_le (sizeofTag_le_size_iff.mpr hsite), hread]
  constructor
  · rintro ⟨tagStr, tag, heq, hfits, htag⟩
    obtain rfl := Option.some.inj heq
    exact ⟨⟨tag, htag⟩, hfits⟩
  · rintro ⟨⟨tag, htag⟩, hfits⟩
    exact ⟨_, tag, rfl, hfits, htag⟩

end CallSites

/-- A table with a frame for the tag. -/
def tagFrames (frame : Frame) : FrameTable := AList.singleton .tag frame

theorem parsedInBounds_abdWriteValue :
    ParsedInBounds .abdWriteValue (tagFrames (ascii ['1', '_', 'w'])) .tag :=
  (parsedInBounds_iff .abdWriteValue
    (show (tagFrames (ascii ['1', '_', 'w'])).lookup .tag = some (ascii ['1', '_', 'w']) from rfl)
    (by decide)).mpr (by decide)

/-- The tag `1_w` is written outside of the block of `ABD_get_max_tag_phase`, the empty string and
a number without `_` are read behind the terminator, and neither sixteen zeros before the `_` nor,
in `get_object_tag`, a string of 64 bytes fit into their buffers. -/
theorem not_parsedInBounds :
    stringToTagInto (CallSite.size .abdGetMaxTagPhase) (ascii ['1', '_', 'w']) = none ∧
      ¬ ParsedInBounds .abdGetMaxTagPhase (tagFrames (ascii ['1', '_', 'w'])) .tag ∧
      ¬ ParsedInBounds .abdWriteValue (tagFrames []) .tag ∧
      ¬ ParsedInBounds .abdWriteValue (tagFrames (ascii ['1'])) .tag ∧
      ¬ ParsedInBounds .abdWriteValue
        (tagFrames (List.replicate 16 48 ++ ascii ['_', 'w'])) .tag ∧
      ¬ ParsedInBounds .getObjectTag
        (tagFrames (ascii ['1', '_'] ++ List.replicate 62 119)) .tag := by
  have hnone : ∀ {frame : Frame}, frame.length ≤ 99 →
      stringToTagInto sizeofTag (frame.takeWhile (· ≠ 0)) = none →
        ¬ ParsedInBounds .abdWriteValue (tagFrames frame) .tag := by
    rintro frame hlength hnone ⟨⟨tagStr, tag, hread, -, htag⟩, -⟩
    rw [getStringFrame_of_length_le rfl hlength] at hread
    obtain rfl := Option.some.inj hread
    exact absurd (hnone.symm.trans htag) (by simp)
  have hlong : ¬ ParsedInBounds .getObjectTag
      (tagFrames (ascii ['1', '_'] ++ List.replicate 62 119)) .tag := by
    rintro ⟨⟨tagStr, tag, hread, hfits, -⟩, -⟩
    rw [getStringFrame_of_length_le rfl (by decide)] at hread
    obtain rfl := Option.some.inj hread
    exact absurd hfits (by decide +kernel)
  exact ⟨by decide, fun h ↦ absurd h.2 (by decide), hnone (by decide) (by decide),
    hnone (by decide) (by decide), hnone (by decide) (by decide), hlong⟩

end Colas
