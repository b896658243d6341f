import Mathlib.Data.List.AList
import Colas.Utilities.Tag

/-!
# The object tables of a server

Both server algorithms keep their objects in a hash table of hash tables: the outer table is keyed
by object name, the inner one by the rendering of a tag. `zhash_t` is Mathlib's `AList` of entries
with pairwise different keys; `zhashInsert` is `zhash_insert`, which leaves an entry that exists
unchanged. `storePayload` and `createObject` are the functions of `server.c`, `getObjectTag`,
`getObjectFrame` and `hasObject` those of `algo_utils.c`. A failed assertion, a null pointer, a
buffer that overflows and an uninitialised value that the code goes on to use are the absence of a
result.

What the tables are for is simpler: every object has one version, a tag with a frame. `contents`
reads that map off the tables, with the initial version for an object that has no table yet, and
`WellFormed` says that every inner table has exactly one entry under the rendering of a tag.
`contents_createObject` and `replaceVersion_eq` describe the operations of the tables as operations
on that map, and everything above this module uses the tables through them.
-/

set_option autoImplicit false
set_option relaxedAutoImplicit false

namespace Colas

/-- `zhash_t`, whose keys are strings. -/
abbrev ZHash (α : Type) := AList fun _ : CString ↦ α

/-- `zhash_insert`: a new key gets the item; a key that is present keeps its item, and the result
is `-1`. -/
def zhashInsert {α : Type} (table : ZHash α) (key : CString) (item : α) : ZHash α × ℤ :=
  if key ∈ table then (table, -1) else (table.insert key item, 0)

/-- The item of a table with one entry is found under its key. -/
theorem lookup_singleton_self {α : Type} (key : CString) (item : α) :
    (AList.singleton key item : ZHash α).lookup key = some item := by
  rw [← AList.insert_empty, AList.lookup_insert]

/-- Deleting the key of a table with one entry empties it. -/
theorem erase_singleton_self {α : Type} (key : CString) (item : α) :
    (AList.singleton key item : ZHash α).erase key = ∅ :=
  AList.ext (List.kerase_cons_eq rfl)

/-- The objects of a server: a table of versions for each object name. -/
abbrev ObjectTable := ZHash (ZHash Frame)

/-- The counters of `Server_Status` that the handlers update, read as exact numbers. -/
structure ServerStatus where
  /-- `metadata_memory`. -/
  metadataMemory : ℤ
  /-- `data_memory`. -/
  dataMemory : ℤ
  deriving DecidableEq

/-- `INSERT_DATA_POLICY`. -/
inductive InsertDataPolicy
  | force
  | yield
  deriving DecidableEq

/-- `has_object`. -/
def hasObject (objects : ObjectTable) (name : CString) : Bool := (objects.lookup name).isSome

/-- The size of `tag_str` in `get_object_tag`. -/
def tagStrSize : ℕ := 64

/-- `get_object_tag`: the tag rendered by the first key of the object's table. The key is copied to
`tag_str` first, and there is no result if it does not fit. -/
def getObjectTag (objects : ObjectTable) (name : CString) : Option Tag := do
  let single ← objects.lookup name
  let key ← single.keys.head?
  if key.length < tagStrSize then stringToTag key else none

/-- `get_object_frame`: the frame stored under the rendering of a tag. -/
def getObjectFrame (objects : ObjectTable) (name : CString) (tag : Tag) : Option Frame := do
  let single ← objects.lookup name
  single.lookup (tagToString tag)

/-- `store_payload`: insert a payload into the object's table, which is made if it is missing. An
entry under the same tag is kept under `yield` and replaced under `force`. -/
def storePayload (objects : ObjectTable) (name : CString) (tag : Tag) (payload : Frame)
    (policy : InsertDataPolicy) : ObjectTable × ℤ :=
  let tagStr := tagToString tag
  let single := (objects.lookup name).getD ∅
  if tagStr ∈ single ∧ policy = .yield then (objects.insert name single, -1)
  else
    let single := if policy = .force then single.erase tagStr else single
    let result := zhashInsert single tagStr payload
    (objects.insert name result.1, result.2)

/-- `create_object`, whose two branches, for ABD and for SODAW, have the same body: an object that
is missing gets the server's initial data, as they are, under the initial tag. -/
def createObject (objects : ObjectTable) (status : ServerStatus) (name : CString)
    (initData : Frame) : ObjectTable × ServerStatus :=
  if hasObject objects name then (objects, status)
  else
    ((storePayload objects name initTag initData .yield).1,
      { metadataMemory := status.metadataMemory + (tagToString initTag).length
        dataMemory := status.dataMemory + initData.length })

/-- The part that the write handlers of both algorithms share: the entry of the object's table is
deleted and the new version inserted. The old key comes with the result, for the counters. -/
def replaceVersion (objects : ObjectTable) (name tagStr : CString) (payload : Frame) :
    Option (ObjectTable × CString) := do
  let single ← objects.lookup name
  let key ← single.keys.head?
  let _item ← single.lookup key
  some (objects.insert name (zhashInsert (single.erase key) tagStr payload).1, key)

/-! ### The map from objects to versions -/

/-- The version of an object: the first entry of its table, and the initial version if there is
none. -/
def contents (initData : Frame) (objects : ObjectTable) (name : CString) : Tag × Frame :=
  match (objects.lookup name).bind fun single ↦ single.entries.head? with
  | some entry => ((stringToTag entry.1).getD initTag, entry.2)
  | none => (initTag, initData)

/-- Every object has one version, under the rendering of its tag. -/
def WellFormed (objects : ObjectTable) : Prop :=
  ∀ name single, objects.lookup name = some single →
    ∃ tag frame, single = AList.singleton (tagToString tag) frame

variable {objects : ObjectTable} {name : CString} (initData : Frame)

theorem wellFormed_empty : WellFormed ∅ := fun name single h ↦ by simp at h

theorem contents_of_lookup_none (h : objects.lookup name = none) :
    contents initData objects name = (initTag, initData) := by
  simp [contents, h]

theorem contents_of_lookup_singleton {tag : Tag} {frame : Frame}
    (h : objects.lookup name = some (AList.singleton (tagToString tag) frame)) :
    contents initData objects name = (tag, frame) := by
  simp [contents, h]

/-- An object that exists has its version as the only entry of its table. -/
theorem WellFormed.lookup_eq (h : WellFormed objects) (hname : hasObject objects name = true) :
    objects.lookup name = some (AList.singleton (tagToString (contents initData objects name).1)
      (contents initData objects name).2) := by
  obtain ⟨single, hsingle⟩ := Option.isSome_iff_exists.mp hname
  obtain ⟨tag, frame, rfl⟩ := h name single hsingle
  rw [contents_of_lookup_singleton initData hsingle, hsingle]

/-- The rendering of the tag fits into `tag_str` of `get_object_tag`. -/
def Tag.Short (tag : Tag) : Prop := (tagToString tag).length < tagStrSize

instance (tag : Tag) : Decidable tag.Short :=
  inferInstanceAs (Decidable ((tagToString tag).length < tagStrSize))

theorem short_initTag : initTag.Short := by decide

/-- `get_object_tag` finds the tag of the version if its rendering fits into the buffer. -/
theorem WellFormed.getObjectTag_eq (h : WellFormed objects)
    (hname : hasObject objects name = true) : getObjectTag objects name =
      if (tagToString (contents initData objects name).1).length < tagStrSize then
        some (contents initData objects name).1
      else none := by
  simp [getObjectTag, h.lookup_eq initData hname]

theorem WellFormed.getObjectTag_of_short (h : WellFormed objects)
    (hname : hasObject objects name = true) (hshort : (contents initData objects name).1.Short) :
    getObjectTag objects name = some (contents initData objects name).1 :=
  (h.getObjectTag_eq initData hname).trans (if_pos hshort)

theorem WellFormed.getObjectTag_of_not_short (h : WellFormed objects)
    (hname : hasObject objects name = true) (hlong : ¬ (contents initData objects name).1.Short) :
    getObjectTag objects name = none :=
  (h.getObjectTag_eq initData hname).trans (if_neg hlong)

/-- `get_object_frame`, asked for the tag of the version, finds its frame. -/
theorem WellFormed.getObjectFrame_eq (h : WellFormed objects)
    (hname : hasObject objects name = true) :
    getObjectFrame objects name (contents initData objects name).1 =
      some (contents initData objects name).2 := by
  simp [getObjectFrame, h.lookup_eq initData hname, lookup_singleton_self]

/-- Storing one version under the rendering of its tag updates the map of versions. -/
theorem contents_insert_singleton (tag : Tag) (frame : Frame) :
    contents initData (objects.insert name (AList.singleton (tagToString tag) frame)) =
      Function.update (contents initData objects) name (tag, frame) := by
  funext other
  by_cases hother : other = name
  · subst hother
    rw [Function.update_self,
      contents_of_lookup_singleton initData (AList.lookup_insert objects)]
  · rw [Function.update_of_ne hother]
    simp [contents, AList.lookup_insert_ne hother]

/-- Storing one version keeps every object at one version. -/
theorem WellFormed.insert_singleton (h : WellFormed objects) (tag : Tag) (frame : Frame) :
    WellFormed (objects.insert name (AList.singleton (tagToString tag) frame)) := by
  intro other single hlookup
  by_cases hother : other = name
  · subst hother
    rw [AList.lookup_insert, Option.some.injEq] at hlookup
    exact ⟨tag, frame, hlookup.symm⟩
  · rw [AList.lookup_insert_ne hother] at hlookup
    exact h other single hlookup

/-- `store_payload` for an object that is missing makes a table with the one entry. -/
theorem storePayload_of_lookup_none (hnone : objects.lookup name = none) (tag : Tag)
    (payload : Frame) (policy : InsertDataPolicy) :
    (storePayload objects name tag payload policy).1 =
      objects.insert name (AList.singleton (tagToString tag) payload) := by
  have herase : (∅ : ZHash Frame).erase (tagToString tag) = ∅ := rfl
  simp [storePayload, hnone, zhashInsert, herase]

/-- `create_object` does not change the map of versions. -/
theorem contents_createObject (status : ServerStatus) :
    contents initData (createObject objects status name initData).1 =
      contents initData objects := by
  unfold createObject
  split_ifs with hname
  · rfl
  · have hnone : objects.lookup name = none := by simpa [hasObject] using hname
    rw [storePayload_of_lookup_none hnone, contents_insert_singleton,
      ← contents_of_lookup_none initData hnone, Function.update_eq_self]

/-- `create_object` keeps every object at one version. -/
theorem WellFormed.createObject (h : WellFormed objects) (status : ServerStatus) :
    WellFormed (createObject objects status name initData).1 := by
  unfold Colas.createObject
  split_ifs with hname
  · exact h
  · have hnone : objects.lookup name = none := by simpa [hasObject] using hname
    rw [storePayload_of_lookup_none hnone]
    exact h.insert_singleton initTag initData

/-- `create_object` adds the object and no other. -/
theorem hasObject_createObject_iff (status : ServerStatus) {other : CString} :
    hasObject (createObject objects status name initData).1 other = true ↔
      other = name ∨ hasObject objects other = true := by
  unfold createObject
  split_ifs with hname
  · exact ⟨Or.inr, fun h ↦ h.elim (fun heq ↦ heq ▸ hname) id⟩
  · have hnone : objects.lookup name = none := by simpa [hasObject] using hname
    rw [storePayload_of_lookup_none hnone, hasObject]
    by_cases hother : other = name
    · rw [hother, AList.lookup_insert]
      exact ⟨fun _ ↦ Or.inl rfl, fun _ ↦ rfl⟩
    · rw [AList.lookup_insert_ne hother]
      exact ⟨Or.inr, fun h ↦ h.resolve_left hother⟩

/-- After `create_object` the object exists. -/
theorem hasObject_createObject (status : ServerStatus) :
    hasObject (createObject objects status name initData).1 name = true :=
  (hasObject_createObject_iff initData status).mpr (Or.inl rfl)

/-- Replacing a version neither adds an object nor removes one. -/
theorem hasObject_replaceVersion_iff {tagStr key : CString} {payload : Frame}
    {objects' : ObjectTable} (h : replaceVersion objects name tagStr payload = some (objects', key))
    {other : CString} : hasObject objects' other = true ↔ hasObject objects other = true := by
  simp only [replaceVersion, Option.bind_eq_bind, Option.bind_eq_some_iff, Option.some.injEq,
    Prod.mk.injEq] at h
  obtain ⟨single, hsingle, key', -, item, -, rfl, rfl⟩ := h
  by_cases hname : other = name
  · rw [hasObject, hasObject, hname, AList.lookup_insert, hsingle]
    exact Iff.rfl
  · rw [hasObject, hasObject, AList.lookup_insert_ne hname]

/-- Replacing the version of an object that exists succeeds, updates the map of versions and keeps
every object at one version. -/
theorem WellFormed.replaceVersion_eq (h : WellFormed objects)
    (hname : hasObject objects name = true) (tag : Tag) (payload : Frame) :
    ∃ objects', replaceVersion objects name (tagToString tag) payload =
        some (objects', tagToString (contents initData objects name).1) ∧
      contents initData objects' = Function.update (contents initData objects) name (tag, payload) ∧
        WellFormed objects' := by
  have hinsert : ∀ (key : CString) (frame : Frame),
      (zhashInsert ((AList.singleton key frame : ZHash Frame).erase key) (tagToString tag)
        payload).1 = AList.singleton (tagToString tag) payload := fun key frame ↦ by
    rw [erase_singleton_self]
    simp [zhashInsert]
  refine ⟨objects.insert name (AList.singleton (tagToString tag) payload), ?_,
    contents_insert_singleton initData tag payload, h.insert_singleton tag payload⟩
  simp [replaceVersion, h.lookup_eq initData hname, lookup_singleton_self, hinsert]

end Colas
