import Colas.BaseProcess.Client
import Colas.BaseProcess.ObjectStore

/-!
# The ABD server

`algorithmABD` is `algorithm_ABD` with its three handlers. A request names its phase; the result is
the new state of the server and the one response it sends to the requester. The response repeats
the object, and carries the tag that the handler put into the frames: the stored tag for `GET_TAG`
and `GET_TAG_VALUE`, the tag of the request for `WRITE_VALUE`.

`WRITE_VALUE` adopts the new version when `compare_tags` of the stored tag and the new one returns
exactly `-1`, and acknowledges in both cases. Through the map of versions the handlers are one line
each (`algorithmABD_eq`): `GET_TAG` and `GET_TAG_VALUE` read the version of the object and
`WRITE_VALUE` replaces it if the comparison says so. No assertion of a handler fails, but all of
them start with `get_object_tag`, so that none has a result once the key of the object is too long
for its buffer (`short_of_algorithmABD`).
-/

set_option autoImplicit false
set_option relaxedAutoImplicit false

namespace Colas.Abd

/-- The phases of the ABD protocol. -/
inductive Phase
  | getTag
  | getTagValue
  | writeValue
  deriving DecidableEq

/-- The state of an ABD server: `hash_object_ABD` and the counters. -/
structure Server where
  /-- `hash_object_ABD`. -/
  objects : ObjectTable
  /-- `status`. -/
  status : ServerStatus

/-- The server before its first message. -/
def Server.initial : Server := ⟨∅, ⟨0, 0⟩⟩

/-- `strlen((char *)item)` of a pointer to a `zframe_t`: the object starts with the four bytes of
its type tag `0x0002cafe`, lowest byte first, and the fourth is zero. -/
def frameObjectStrlen : ℕ := 3

/-- `algorithm_ABD_WRITE_VALUE`. -/
def algorithmABDWriteValue (strcmp : Strcmp) (server : Server) (request : Body) :
    Option (Server × Body) := do
  let tag ← stringToTag request.tag
  let localTag ← getObjectTag server.objects request.object
  if compareTags strcmp localTag tag = -1 then
    let (objects, key) ←
      replaceVersion server.objects request.object request.tag request.payload
    some ({ objects := objects
            status :=
              { metadataMemory :=
                  server.status.metadataMemory - key.length + request.tag.length
                dataMemory :=
                  server.status.dataMemory - frameObjectStrlen + request.payload.length } },
      { object := request.object, tag := request.tag, payload := [] })
  else some (server, { object := request.object, tag := request.tag, payload := [] })

/-- `algorithm_ABD_GET_TAG`. -/
def algorithmABDGetTag (server : Server) (request : Body) : Option (Server × Body) := do
  let tag ← getObjectTag server.objects request.object
  some (server, { object := request.object, tag := tagToString tag, payload := [] })

/-- `algorithm_ABD_GET_TAG_VALUE`. -/
def algorithmABDGetTagValue (server : Server) (request : Body) : Option (Server × Body) := do
  let tag ← getObjectTag server.objects request.object
  let single ← server.objects.lookup request.object
  if single.keys.length = 1 then
    let key ← single.keys.head?
    let frame ← single.lookup key
    some (server, { object := request.object, tag := tagToString tag, payload := frame })
  else none

/-- `algorithm_ABD`: make the object if it is missing and call the handler of the phase. -/
def algorithmABD (strcmp : Strcmp) (initData : Frame) (server : Server) (phase : Phase)
    (request : Body) : Option (Server × Body) :=
  let created := createObject server.objects server.status request.object initData
  let server : Server := ⟨created.1, created.2⟩
  match phase with
  | .getTag => algorithmABDGetTag server request
  | .writeValue => algorithmABDWriteValue strcmp server request
  | .getTagValue => algorithmABDGetTagValue server request

/-! ### The server as a map from objects to versions -/

/-- The version that a server holds of an object. -/
def Server.version (initData : Frame) (server : Server) (object : CString) : Tag × Frame :=
  contents initData server.objects object

/-- The response to a request at a server with this map of versions. -/
def response (version : CString → Tag × Frame) (phase : Phase) (request : Body) : Body :=
  match phase with
  | .getTag => ⟨request.object, tagToString (version request.object).1, []⟩
  | .getTagValue =>
    ⟨request.object, tagToString (version request.object).1, (version request.object).2⟩
  | .writeValue => ⟨request.object, request.tag, []⟩

/-- The request is a `WRITE_VALUE` whose tag, `tag`, the server adopts. -/
def Adopts (strcmp : Strcmp) (version : CString → Tag × Frame) (phase : Phase) (request : Body)
    (tag : Tag) : Prop :=
  phase = .writeValue ∧ compareTags strcmp (version request.object).1 tag = -1

instance (strcmp : Strcmp) (version : CString → Tag × Frame) (phase : Phase) (request : Body)
    (tag : Tag) : Decidable (Adopts strcmp version phase request tag) := by
  unfold Adopts
  infer_instance

variable {server : Server}

/-- On a request that carries the rendering of a tag when its phase is `WRITE_VALUE`, for an object
with a short tag, a server with one version for each object sends the response for its map of
versions, replaces the version of the object exactly when it adopts the tag, and has again one
version for each object. -/
theorem algorithmABD_eq (strcmp : Strcmp) (initData : Frame) (hstore : WellFormed server.objects)
    {phase : Phase} {request : Body} {tag : Tag}
    (htag : phase = .writeValue → request.tag = tagToString tag)
    (hshort : (server.version initData request.object).1.Short) :
    ∃ server', algorithmABD strcmp initData server phase request =
        some (server', response (server.version initData) phase request) ∧
      WellFormed server'.objects ∧
      server'.version initData =
        if Adopts strcmp (server.version initData) phase request tag then
          Function.update (server.version initData) request.object (tag, request.payload)
        else server.version initData := by
  set created := createObject server.objects server.status request.object initData
  have hcreated : WellFormed created.1 := hstore.createObject initData server.status
  have hname : hasObject created.1 request.object = true :=
    hasObject_createObject initData server.status
  have hversion : contents initData created.1 = server.version initData :=
    contents_createObject initData server.status
  have htagEq := hcreated.getObjectTag_of_short initData hname (by rwa [hversion])
  rw [hversion] at htagEq
  cases phase with
  | getTag =>
    refine ⟨⟨created.1, created.2⟩, ?_, hcreated, ?_⟩
    · simp [algorithmABD, algorithmABDGetTag, created, htagEq, response]
    · rw [if_neg (by simp [Adopts])]
      exact hversion
  | getTagValue =>
    refine ⟨⟨created.1, created.2⟩, ?_, hcreated, ?_⟩
    · have hlookup := hcreated.lookup_eq initData hname
      rw [hversion] at hlookup
      simp [algorithmABD, algorithmABDGetTagValue, created, htagEq, hlookup, response,
        lookup_singleton_self]
    · rw [if_neg (by simp [Adopts])]
      exact hversion
  | writeValue =>
    have hrequest := htag rfl
    by_cases hadopts : compareTags strcmp (server.version initData request.object).1 tag = -1
    · obtain ⟨objects', hreplace, hcontents, hwell⟩ :=
        hcreated.replaceVersion_eq initData hname tag request.payload
      rw [hversion] at hreplace
      let status : ServerStatus :=
        { metadataMemory := created.2.metadataMemory -
            (tagToString (server.version initData request.object).1).length + request.tag.length
          dataMemory := created.2.dataMemory - frameObjectStrlen + request.payload.length }
      refine ⟨⟨objects', status⟩, ?_, hwell, ?_⟩
      · simp [algorithmABD, algorithmABDWriteValue, hrequest, created, htagEq, hadopts, hreplace,
          response, status]
      · rw [if_pos ⟨rfl, hadopts⟩, ← hversion]
        exact hcontents
    · refine ⟨⟨created.1, created.2⟩, ?_, hcreated, ?_⟩
      · simp [algorithmABD, algorithmABDWriteValue, hrequest, created, htagEq, hadopts, response]
      · rw [if_neg fun h ↦ hadopts h.2]
        exact hversion

/-- A request is handled only if the tag of its object is short. -/
theorem short_of_algorithmABD {strcmp : Strcmp} {initData : Frame}
    (hstore : WellFormed server.objects) {phase : Phase} {request : Body} {result : Server × Body}
    (h : algorithmABD strcmp initData server phase request = some result) :
    (server.version initData request.object).1.Short := by
  by_contra hlong
  have hcontents : contents initData (createObject server.objects server.status request.object
      initData).1 = contents initData server.objects := contents_createObject initData server.status
  rw [Server.version, ← hcontents] at hlong
  have hnone := (hstore.createObject initData server.status).getObjectTag_of_not_short initData
    (hasObject_createObject initData server.status) hlong
  cases phase with
  | getTag => simp [algorithmABD, algorithmABDGetTag, hnone] at h
  | getTagValue => simp [algorithmABD, algorithmABDGetTagValue, hnone] at h
  | writeValue => simp [algorithmABD, algorithmABDWriteValue, hnone] at h

/-- What a server has done with a request that it has handled. -/
theorem eq_of_algorithmABD {strcmp : Strcmp} {initData : Frame} (hstore : WellFormed server.objects)
    {phase : Phase} {request reply : Body} {tag : Tag} {server' : Server}
    (htag : phase = .writeValue → request.tag = tagToString tag)
    (h : algorithmABD strcmp initData server phase request = some (server', reply)) :
    reply = response (server.version initData) phase request ∧ WellFormed server'.objects ∧
      server'.version initData =
        if Adopts strcmp (server.version initData) phase request tag then
          Function.update (server.version initData) request.object (tag, request.payload)
        else server.version initData := by
  obtain ⟨server'', hserver, hwell, hversion⟩ :=
    algorithmABD_eq strcmp initData hstore htag (short_of_algorithmABD hstore h)
  obtain ⟨rfl, rfl⟩ := Prod.mk.inj (Option.some.inj (h.symm.trans hserver))
  exact ⟨rfl, hwell, hversion⟩

/-- The request is a `WRITE_VALUE` that the handler adopts, for whatever the objects hold. -/
def AdoptsRequest (strcmp : Strcmp) (objects : ObjectTable) (phase : Phase) (request : Body) :
    Prop :=
  phase = .writeValue ∧ (stringToTag request.tag).any (fun tag ↦
    (getObjectTag objects request.object).any fun localTag ↦
      compareTags strcmp localTag tag = -1) = true

instance (strcmp : Strcmp) (objects : ObjectTable) (phase : Phase) (request : Body) :
    Decidable (AdoptsRequest strcmp objects phase request) :=
  inferInstanceAs (Decidable (phase = .writeValue ∧ _ = true))

/-- What a request that is handled leaves: the object has been made, and the version of a request
that is adopted replaces the old one and is counted. -/
theorem algorithmABD_cases {strcmp : Strcmp} {initData : Frame} {server' : Server} {phase : Phase}
    {request reply : Body}
    (h : algorithmABD strcmp initData server phase request = some (server', reply)) :
    (reply.object = request.object ∧ (phase = .writeValue → reply.tag = request.tag)) ∧
      ∃ created, createObject server.objects server.status request.object initData = created ∧
        (AdoptsRequest strcmp created.1 phase request ∧ (∃ objects key,
            replaceVersion created.1 request.object request.tag request.payload =
              some (objects, key) ∧
            server' = ⟨objects, created.2.metadataMemory - key.length + request.tag.length,
              created.2.dataMemory - frameObjectStrlen + request.payload.length⟩) ∨
          ¬ AdoptsRequest strcmp created.1 phase request ∧ server' = ⟨created.1, created.2⟩) := by
  cases phase with
  | getTag =>
    simp only [algorithmABD, algorithmABDGetTag, Option.bind_eq_bind, Option.bind_eq_some_iff,
      Option.some.injEq, Prod.mk.injEq] at h
    obtain ⟨tag, -, rfl, rfl⟩ := h
    exact ⟨⟨rfl, fun hwrite ↦ by cases hwrite⟩, _, rfl,
      Or.inr ⟨fun hadopts ↦ (by cases hadopts.1), rfl⟩⟩
  | getTagValue =>
    simp only [algorithmABD, algorithmABDGetTagValue, Option.bind_eq_bind, Option.bind_eq_some_iff,
      Option.ite_none_right_eq_some, Option.some.injEq, Prod.mk.injEq] at h
    obtain ⟨tag, -, single, -, -, key, -, frame, -, rfl, rfl⟩ := h
    exact ⟨⟨rfl, fun hwrite ↦ by cases hwrite⟩, _, rfl,
      Or.inr ⟨fun hadopts ↦ (by cases hadopts.1), rfl⟩⟩
  | writeValue =>
    simp only [algorithmABD, algorithmABDWriteValue, Option.bind_eq_bind,
      Option.bind_eq_some_iff] at h
    obtain ⟨tag, htag, localTag, hlocal, h⟩ := h
    have hiff : AdoptsRequest strcmp
        (createObject server.objects server.status request.object initData).1 .writeValue request ↔
          compareTags strcmp localTag tag = -1 := by
      simp [AdoptsRequest, htag, hlocal]
    split_ifs at h with hadopts
    · simp only [Option.bind_eq_some_iff, Option.some.injEq, Prod.mk.injEq] at h
      obtain ⟨⟨objects, key⟩, hreplace, rfl, rfl⟩ := h
      exact ⟨⟨rfl, fun _ ↦ rfl⟩, _, rfl,
        Or.inl ⟨hiff.mpr hadopts, objects, key, hreplace, rfl⟩⟩
    · simp only [Option.some.injEq, Prod.mk.injEq] at h
      obtain ⟨rfl, rfl⟩ := h
      exact ⟨⟨rfl, fun _ ↦ rfl⟩, _, rfl, Or.inr ⟨mt hiff.mp hadopts, rfl⟩⟩

/-- A request adds the object that it names and no other. -/
theorem hasObject_algorithmABD {strcmp : Strcmp} {initData : Frame} {server' : Server}
    {phase : Phase} {request reply : Body}
    (h : algorithmABD strcmp initData server phase request = some (server', reply))
    {other : CString} : hasObject server'.objects other = true ↔
      other = request.object ∨ hasObject server.objects other = true := by
  have hadds : hasObject (createObject server.objects server.status request.object initData).1
      other = true ↔ other = request.object ∨ hasObject server.objects other = true :=
    hasObject_createObject_iff initData server.status
  obtain ⟨-, created, rfl, ⟨-, objects, key, hreplace, rfl⟩ | ⟨-, rfl⟩⟩ := algorithmABD_cases h
  · exact (hasObject_replaceVersion_iff hreplace).trans hadds
  · exact hadds

/-- A response repeats the object of the request, and to a `WRITE_VALUE` its tag. -/
theorem response_of_algorithmABD {strcmp : Strcmp} {initData : Frame} {server' : Server}
    {phase : Phase} {request reply : Body}
    (h : algorithmABD strcmp initData server phase request = some (server', reply)) :
    reply.object = request.object ∧ (phase = .writeValue → reply.tag = request.tag) :=
  (algorithmABD_cases h).1

end Colas.Abd
