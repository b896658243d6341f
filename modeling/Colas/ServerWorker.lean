import Colas.Abd.Server
import Colas.Library.Weight
import Colas.Sodaw.Tables

/-!
# The memory that a server reports

A server process has one loop, `server_worker`, and one record of counters for both algorithms. A
message goes to `algorithm_ABD` or to `algorithm_SODAW` by its `ALGORITHM`; each keeps its objects
in a table of its own. `data_memory` is to be the number of bytes of all frames that are stored, and
`metadata_memory` the number of characters of all tags that they are stored under (`Accounted`).

Objects that are made are counted as they are stored. When ABD replaces a version, it subtracts the
length of a string that begins at the `zframe_t` of the old frame, which is `3`, and not the size of
the frame. When SODAW replaces a version, it counts nothing. So the counters are right in all states
of a run exactly if ABD replaces only frames of three bytes, and SODAW only versions whose frame and
tag are as long as the new ones (`accounted_iff`).
-/

set_option autoImplicit false
set_option relaxedAutoImplicit false

namespace Colas

open TransitionSystem

/-- The state of a server process. -/
structure ServerProcess where
  /-- `hash_object_ABD`. -/
  objectsABD : ObjectTable
  /-- `hash_object_SODAW`. -/
  objectsSODAW : ObjectTable
  /-- The reader tables of SODAW. -/
  tables : Sodaw.Tables
  /-- `status`. -/
  status : ServerStatus

/-- A server process before its first message. -/
def ServerProcess.initial : ServerProcess := ⟨∅, ∅, ⟨∅, ∅, ∅⟩, ⟨0, 0⟩⟩

/-- A message, by its `ALGORITHM` and its `PHASE`. -/
inductive ServerMessage
  /-- A request of ABD. -/
  | abd (phase : Abd.Phase) (request : Body)
  /-- A message of ABD with any other `PHASE`, about the object. -/
  | abdOther (object : CString)
  /-- A message of SODAW. -/
  | sodaw (message : Sodaw.Message)
  /-- A message with any other `ALGORITHM`. -/
  | other

/-- What is sent on a message. -/
inductive ServerOutput
  /-- The response of ABD. -/
  | abd (response : Body)
  /-- What SODAW sends. -/
  | sodaw (output : Sodaw.Output)
  /-- Nothing. -/
  | none

namespace ServerProcess

/-- The server of ABD in a process. -/
def abd (process : ServerProcess) : Abd.Server := ⟨process.objectsABD, process.status⟩

/-- The server of SODAW in a process. -/
def sodaw (process : ServerProcess) : Sodaw.Server :=
  ⟨process.objectsSODAW, process.status, process.tables⟩

/-- The objects of ABD when `algorithm_ABD` has made the object. -/
def createdABD (args : Sodaw.ServerArgs) (process : ServerProcess) (object : CString) :
    ObjectTable × ServerStatus :=
  createObject process.objectsABD process.status object args.initData

/-- A turn of the loop of `server_worker`. -/
def serverWorker (strcmp : Strcmp) (args : Sodaw.ServerArgs) (process : ServerProcess) :
    ServerMessage → Option (ServerProcess × ServerOutput)
  | .abd phase request => do
    let (server, response) ← Abd.algorithmABD strcmp args.initData process.abd phase request
    some ({ process with objectsABD := server.objects, status := server.status }, .abd response)
  | .abdOther object =>
    let (objects, status) := process.createdABD args object
    some ({ process with objectsABD := objects, status := status }, .none)
  | .sodaw message => do
    let (server, output) ← process.sodaw.handle strcmp args message
    some ({ process with
      objectsSODAW := server.objects
      tables := server.tables
      status := server.status }, .sodaw output)
  | .other => some (process, .none)

/-- The state of a process after a message. -/
def step (strcmp : Strcmp) (args : Sodaw.ServerArgs) (process : ServerProcess)
    (message : ServerMessage) : Option ServerProcess :=
  (process.serverWorker strcmp args message).map Prod.fst

end ServerProcess

/-! ### What the tables weigh -/

/-- The sum over all versions of all objects. -/
def tableSize (w : CString → Frame → ℕ) (objects : ObjectTable) : ℕ :=
  AList.weight (fun _ single ↦ AList.weight w single) objects

/-- The bytes of a version. -/
def frameBytes (_key : CString) (frame : Frame) : ℕ := frame.length

/-- The characters of the tag of a version. -/
def keyLength (key : CString) (_frame : Frame) : ℕ := key.length

/-- What `data_memory` has beside the bytes of a table. -/
def dataRest (objects : ObjectTable) (status : ServerStatus) : ℤ :=
  status.dataMemory - tableSize frameBytes objects

/-- What `metadata_memory` has beside the tags of a table. -/
def metadataRest (objects : ObjectTable) (status : ServerStatus) : ℤ :=
  status.metadataMemory - tableSize keyLength objects

/-- The counters are those of all versions of both tables. -/
structure Accounted (process : ServerProcess) : Prop where
  /-- `data_memory`. -/
  data : process.status.dataMemory =
    tableSize frameBytes process.objectsABD + tableSize frameBytes process.objectsSODAW
  /-- `metadata_memory`. -/
  metadata : process.status.metadataMemory =
    tableSize keyLength process.objectsABD + tableSize keyLength process.objectsSODAW

/-- Every object has one version, under whatever key. -/
def OneVersion (objects : ObjectTable) : Prop :=
  ∀ name single, objects.lookup name = some single →
    ∃ key frame, single = AList.singleton key frame

/-- The version that `replaceVersion` replaces, with its key. -/
def oldVersion (objects : ObjectTable) (name : CString) : Option (CString × Frame) := do
  let single ← objects.lookup name
  let key ← single.keys.head?
  let frame ← single.lookup key
  some (key, frame)

section Store

variable {objects objects' : ObjectTable} {name tagStr key : CString} {payload initData : Frame}
  {status : ServerStatus}

theorem oneVersion_empty : OneVersion ∅ := fun name single h ↦ by simp at h

theorem OneVersion.insert_singleton (h : OneVersion objects) (name key : CString) (frame : Frame) :
    OneVersion (objects.insert name (AList.singleton key frame)) := by
  intro other single hlookup
  by_cases hother : other = name
  · subst hother
    rw [AList.lookup_insert, Option.some.injEq] at hlookup
    exact ⟨key, frame, hlookup.symm⟩
  · rw [AList.lookup_insert_ne hother] at hlookup
    exact h other single hlookup

/-- What `create_object` leaves. -/
theorem createObject_cases (objects : ObjectTable) (status : ServerStatus) (name : CString)
    (initData : Frame) : createObject objects status name initData = (objects, status) ∨
      objects.lookup name = none ∧ createObject objects status name initData =
        (objects.insert name (AList.singleton (tagToString initTag) initData),
          ⟨status.metadataMemory + (tagToString initTag).length,
            status.dataMemory + initData.length⟩) := by
  unfold createObject
  split_ifs with hname
  · exact Or.inl rfl
  · have hnone : objects.lookup name = none := by simpa [hasObject] using hname
    exact Or.inr ⟨hnone, by rw [storePayload_of_lookup_none hnone]⟩

theorem OneVersion.createObject (h : OneVersion objects) (status : ServerStatus) (name : CString)
    (initData : Frame) : OneVersion (createObject objects status name initData).1 := by
  rcases createObject_cases objects status name initData with hsame | ⟨-, hcreated⟩
  · rwa [hsame]
  · rw [hcreated]
    exact h.insert_singleton _ _ _

/-- The version that is replaced, and what replaces it. -/
theorem OneVersion.replaceVersion (h : OneVersion objects)
    (hreplace : replaceVersion objects name tagStr payload = some (objects', key)) :
    ∃ frame, oldVersion objects name = some (key, frame) ∧
      objects.lookup name = some (AList.singleton key frame) ∧
        objects' = objects.insert name (AList.singleton tagStr payload) := by
  simp only [Colas.replaceVersion, Option.bind_eq_bind, Option.bind_eq_some_iff, Option.some.injEq,
    Prod.mk.injEq] at hreplace
  obtain ⟨single, hsingle, key', hkey, item, hitem, rfl, rfl⟩ := hreplace
  obtain ⟨old, frame, rfl⟩ := h name single hsingle
  obtain rfl : old = key' := by simpa using hkey
  refine ⟨frame, ?_, hsingle, ?_⟩
  · simp [oldVersion, hsingle, lookup_singleton_self]
  · rw [erase_singleton_self]
    simp [zhashInsert]

/-- Replacing a version changes the sum by the difference. -/
theorem tableSize_replace (w : CString → Frame → ℕ) (tagStr : CString) (payload : Frame)
    {frame : Frame} (hlookup : objects.lookup name = some (AList.singleton key frame)) :
    tableSize w (objects.insert name (AList.singleton tagStr payload)) + w key frame =
      tableSize w objects + w tagStr payload := by
  have hinsert := AList.weight_insert (fun _ single ↦ AList.weight w single) objects name
    (AList.singleton tagStr payload)
  rwa [hlookup, Option.elim_some, AList.weight_singleton, AList.weight_singleton] at hinsert

/-- A new object adds its version to the sum. -/
theorem tableSize_create (w : CString → Frame → ℕ) (hnone : objects.lookup name = none) :
    tableSize w (objects.insert name (AList.singleton tagStr payload)) =
      tableSize w objects + w tagStr payload := by
  have hinsert := AList.weight_insert (fun _ single ↦ AList.weight w single) objects name
    (AList.singleton tagStr payload)
  rwa [hnone, Option.elim_none, AList.weight_singleton] at hinsert

/-- `create_object` counts what it stores. -/
theorem rest_createObject (objects : ObjectTable) (status : ServerStatus) (name : CString)
    (initData : Frame) :
    dataRest (createObject objects status name initData).1
        (createObject objects status name initData).2 = dataRest objects status ∧
      metadataRest (createObject objects status name initData).1
        (createObject objects status name initData).2 = metadataRest objects status := by
  rcases createObject_cases objects status name initData with hsame | ⟨hnone, hcreated⟩
  · rw [hsame]
    exact ⟨rfl, rfl⟩
  · rw [hcreated, dataRest, metadataRest, tableSize_create frameBytes hnone,
      tableSize_create keyLength hnone, dataRest, metadataRest, frameBytes, keyLength]
    push_cast
    omega

end Store

/-! ### What a message does to the tables and the counters -/

/-- The version that a request of ABD replaces. -/
def replacedABD (strcmp : Strcmp) (objects : ObjectTable) (phase : Abd.Phase) (request : Body) :
    Option (CString × Frame) :=
  if Abd.AdoptsRequest strcmp objects phase request then oldVersion objects request.object
  else none

/-- The message is a `WRITE_PUT` that the handler adopts, for whatever the objects hold. -/
def AdoptsWritePut (strcmp : Strcmp) (objects : ObjectTable) (phase : Sodaw.Phase)
    (request : Body) : Prop :=
  phase = .writePut ∧ (stringToTag request.tag).any (fun tagW ↦
    (getObjectTag objects request.object).any fun tag ↦ 0 < compareTags strcmp tagW tag) = true

instance (strcmp : Strcmp) (objects : ObjectTable) (phase : Sodaw.Phase) (request : Body) :
    Decidable (AdoptsWritePut strcmp objects phase request) :=
  inferInstanceAs (Decidable (phase = .writePut ∧ _ = true))

/-- The version that a message of SODAW replaces, and the request that does. -/
def replacedSODAW (strcmp : Strcmp) (objects : ObjectTable) :
    Sodaw.Message → Option (Body × CString × Frame)
  | .request name request =>
    if AdoptsWritePut strcmp objects name.phase request then
      (oldVersion objects request.object).map fun old ↦ (request, old)
    else none
  | .disperse _ | .other _ => none

namespace ServerProcess

/-- The version that is replaced, if one is, is counted as it should be: by ABD if its frame has
three bytes, and by SODAW if its frame and its tag are as long as the new ones. -/
def CountsReplaced (strcmp : Strcmp) (args : Sodaw.ServerArgs) (process : ServerProcess) :
    ServerMessage → Prop
  | .abd phase request =>
    ∀ old ∈ replacedABD strcmp (process.createdABD args request.object).1 phase request,
      old.2.length = Abd.frameObjectStrlen
  | .sodaw message =>
    ∀ new ∈ replacedSODAW strcmp (process.sodaw.create args message.object).objects message,
      new.2.2.length = new.1.payload.length ∧ new.2.1.length = new.1.tag.length
  | .abdOther _ | .other => True

instance (strcmp : Strcmp) (args : Sodaw.ServerArgs) (process : ServerProcess) :
    DecidablePred (process.CountsReplaced strcmp args)
  | .abd phase request => inferInstanceAs (Decidable
      (∀ old ∈ replacedABD strcmp (process.createdABD args request.object).1 phase request,
        old.2.length = Abd.frameObjectStrlen))
  | .sodaw message => inferInstanceAs (Decidable
      (∀ new ∈ replacedSODAW strcmp (process.sodaw.create args message.object).objects message,
        new.2.2.length = new.1.payload.length ∧ new.2.1.length = new.1.tag.length))
  | .abdOther _ | .other => isTrue trivial

end ServerProcess

section Rest

variable {strcmp : Strcmp} {args : Sodaw.ServerArgs}

/-- A request of ABD keeps the objects at one version. When it replaces a version, `data_memory` is
off by the size of the old frame less three. -/
theorem rest_algorithmABD {server server' : Abd.Server} {phase : Abd.Phase} {request reply : Body}
    (hone : OneVersion server.objects)
    (h : Abd.algorithmABD strcmp args.initData server phase request = some (server', reply)) :
    OneVersion server'.objects ∧
      metadataRest server'.objects server'.status = metadataRest server.objects server.status ∧
      dataRest server'.objects server'.status = dataRest server.objects server.status +
        (replacedABD strcmp
          (createObject server.objects server.status request.object args.initData).1 phase
            request).elim 0 fun old ↦ (old.2.length : ℤ) - Abd.frameObjectStrlen := by
  obtain ⟨hdata, hmetadata⟩ :=
    rest_createObject server.objects server.status request.object args.initData
  have hcreated := hone.createObject server.status request.object args.initData
  obtain ⟨-, created, rfl, ⟨hadopts, objects, key, hreplace, rfl⟩ | ⟨hrefuses, rfl⟩⟩ :=
    Abd.algorithmABD_cases h
  · obtain ⟨frame, hold, hlookup, rfl⟩ := hcreated.replaceVersion hreplace
    have hbytes := tableSize_replace frameBytes request.tag request.payload hlookup
    have hkeys := tableSize_replace keyLength request.tag request.payload hlookup
    rw [replacedABD, if_pos hadopts, hold, Option.elim_some]
    simp only [dataRest, metadataRest, frameBytes, keyLength] at hdata hmetadata hbytes hkeys ⊢
    exact ⟨hcreated.insert_singleton _ _ _, by omega, by omega⟩
  · rw [replacedABD, if_neg hrefuses, Option.elim_none, add_zero]
    exact ⟨hcreated, hmetadata, hdata⟩

/-- What a message of SODAW does to the objects: it replaces a version or leaves them as they are.
The counters stay. -/
theorem store_of_handled {server server' : Sodaw.Server} {message : Sodaw.Message}
    {output : Sodaw.Output} (h : Sodaw.Handled strcmp args server message server' output) :
    server'.status = server.status ∧
      ((replacedSODAW strcmp server.objects message = none ∧ server'.objects = server.objects) ∨
        ∃ request key, replaceVersion server.objects request.object request.tag request.payload =
            some (server'.objects, key) ∧
          replacedSODAW strcmp server.objects message =
            (oldVersion server.objects request.object).map fun old ↦ (request, old)) := by
  cases h with
  | report name request tag hphase =>
    refine ⟨rfl, Or.inl ⟨?_, rfl⟩⟩
    rcases hphase with hphase | hphase <;> simp [replacedSODAW, AdoptsWritePut, hphase]
  | adopt name request tagW tag objects key hphase htagW htag hadopts hreplace =>
    refine ⟨rfl, Or.inr ⟨request, key, hreplace, if_pos ⟨hphase, ?_⟩⟩⟩
    simpa [htagW, htag] using hadopts
  | refuse name request tagW tag hphase htagW htag hrefuses =>
    refine ⟨rfl, Or.inl ⟨if_neg fun hadopts ↦ hrefuses ?_, rfl⟩⟩
    simpa [htagW, htag] using hadopts.2
  | ignore name request hphase =>
    refine ⟨rfl, Or.inl ⟨?_, rfl⟩⟩
    rcases hphase with hphase | hphase <;> simp [replacedSODAW, AdoptsWritePut, hphase]
  | register name request tagR output hphase =>
    exact ⟨rfl, Or.inl ⟨by simp [replacedSODAW, AdoptsWritePut, hphase], rfl⟩⟩
  | complete name request tagR hphase =>
    exact ⟨rfl, Or.inl ⟨by simp [replacedSODAW, AdoptsWritePut, hphase], rfl⟩⟩
  | _ => exact ⟨rfl, Or.inl ⟨rfl, rfl⟩⟩

/-- A message of SODAW keeps the objects at one version. When it replaces a version, the counters
are off by the differences of the sizes. -/
theorem rest_handle {server server' : Sodaw.Server} {message : Sodaw.Message}
    {output : Sodaw.Output} (hone : OneVersion server.objects)
    (h : server.handle strcmp args message = some (server', output)) :
    OneVersion server'.objects ∧
      dataRest server'.objects server'.status = dataRest server.objects server.status +
        ((replacedSODAW strcmp (server.create args message.object).objects message).elim 0
          fun new ↦ (new.2.2.length : ℤ) - new.1.payload.length) ∧
      metadataRest server'.objects server'.status = metadataRest server.objects server.status +
        (replacedSODAW strcmp (server.create args message.object).objects message).elim 0
          fun new ↦ (new.2.1.length : ℤ) - new.1.tag.length := by
  obtain ⟨hdata, hmetadata⟩ :=
    rest_createObject server.objects server.status message.object args.initData
  have hcreated : OneVersion (server.create args message.object).objects :=
    hone.createObject server.status message.object args.initData
  obtain ⟨hstatus, ⟨hnone, hobjects⟩ | ⟨request, key, hreplace, hreplaced⟩⟩ :=
    store_of_handled (Sodaw.handled_of_handle h)
  · rw [hnone, hobjects, hstatus, Option.elim_none, Option.elim_none, add_zero, add_zero]
    exact ⟨hcreated, hdata, hmetadata⟩
  · obtain ⟨frame, hold, hlookup, hobjects⟩ := hcreated.replaceVersion hreplace
    have hbytes := tableSize_replace frameBytes request.tag request.payload hlookup
    have hkeys := tableSize_replace keyLength request.tag request.payload hlookup
    rw [hreplaced, hold, hobjects, hstatus, Option.map_some, Option.elim_some, Option.elim_some]
    refine ⟨hcreated.insert_singleton _ _ _, ?_, ?_⟩
    · rw [← hdata]
      simp only [dataRest, frameBytes, Sodaw.Server.create] at hbytes ⊢
      omega
    · rw [← hmetadata]
      simp only [metadataRest, keyLength, Sodaw.Server.create] at hkeys ⊢
      omega

end Rest

/-! ### The counters over a run -/

/-- The objects of both algorithms have one version each. -/
structure OneVersions (process : ServerProcess) : Prop where
  /-- `hash_object_ABD`. -/
  abd : OneVersion process.objectsABD
  /-- `hash_object_SODAW`. -/
  sodaw : OneVersion process.objectsSODAW

instance (process : ServerProcess) : Decidable (Accounted process) :=
  decidable_of_iff (_ ∧ _) ⟨fun h ↦ ⟨h.1, h.2⟩, fun h ↦ ⟨h.1, h.2⟩⟩

/-- Beside the objects of ABD, the counters are those of the objects of SODAW. -/
theorem accounted_iff_abd (process : ServerProcess) : Accounted process ↔
    dataRest process.objectsABD process.status = tableSize frameBytes process.objectsSODAW ∧
      metadataRest process.objectsABD process.status =
        tableSize keyLength process.objectsSODAW := by
  rw [dataRest, metadataRest, sub_eq_iff_eq_add', sub_eq_iff_eq_add']
  exact ⟨fun h ↦ ⟨h.data, h.metadata⟩, fun h ↦ ⟨h.1, h.2⟩⟩

/-- Beside the objects of SODAW, the counters are those of the objects of ABD. -/
theorem accounted_iff_sodaw (process : ServerProcess) : Accounted process ↔
    dataRest process.objectsSODAW process.status = tableSize frameBytes process.objectsABD ∧
      metadataRest process.objectsSODAW process.status =
        tableSize keyLength process.objectsABD := by
  rw [dataRest, metadataRest, sub_eq_iff_eq_add, sub_eq_iff_eq_add]
  exact ⟨fun h ↦ ⟨h.data, h.metadata⟩, fun h ↦ ⟨h.1, h.2⟩⟩

theorem accounted_initial : Accounted ServerProcess.initial := ⟨rfl, rfl⟩

theorem oneVersions_initial : OneVersions ServerProcess.initial :=
  ⟨oneVersion_empty, oneVersion_empty⟩

section Step

variable {strcmp : Strcmp} {args : Sodaw.ServerArgs} {process process' : ServerProcess}
  {message : ServerMessage}

/-- A difference that there may be is zero exactly if it is zero whenever there is one. -/
theorem elim_eq_zero_iff {α : Type*} (o : Option α) (difference : α → ℤ) :
    o.elim 0 difference = 0 ↔ ∀ a ∈ o, difference a = 0 := by
  cases o with
  | none => simp
  | some a => simp

/-- A request of ABD counts what it replaces exactly if it leaves `data_memory` right. -/
theorem countsReplaced_abd_iff (phase : Abd.Phase) (request : Body) :
    process.CountsReplaced strcmp args (.abd phase request) ↔
      (replacedABD strcmp (process.createdABD args request.object).1 phase request).elim 0
        (fun old ↦ (old.2.length : ℤ) - Abd.frameObjectStrlen) = 0 := by
  rw [elim_eq_zero_iff]
  simp only [sub_eq_zero, Nat.cast_inj]
  rfl

/-- A message of SODAW counts what it replaces exactly if it leaves both counters right. -/
theorem countsReplaced_sodaw_iff (message : Sodaw.Message) :
    process.CountsReplaced strcmp args (.sodaw message) ↔
      (replacedSODAW strcmp (process.sodaw.create args message.object).objects message).elim 0
          (fun new ↦ (new.2.2.length : ℤ) - new.1.payload.length) = 0 ∧
        (replacedSODAW strcmp (process.sodaw.create args message.object).objects message).elim 0
          (fun new ↦ (new.2.1.length : ℤ) - new.1.tag.length) = 0 := by
  rw [elim_eq_zero_iff, elim_eq_zero_iff]
  simp only [sub_eq_zero, Nat.cast_inj, ← forall_and]
  rfl

/-- A message keeps the objects at one version. If the counters have been right, they are so
afterwards exactly if the version that the message replaces is counted as it should be. -/
theorem accounted_step (hone : OneVersions process)
    (h : process.step strcmp args message = some process') :
    OneVersions process' ∧ (Accounted process →
      (Accounted process' ↔ process.CountsReplaced strcmp args message)) := by
  obtain ⟨⟨process', output⟩, hworker, rfl⟩ := Option.map_eq_some_iff.mp h
  cases message with
  | abd phase request =>
    simp only [ServerProcess.serverWorker, Option.bind_eq_bind, Option.bind_eq_some_iff,
      Option.some.injEq, Prod.mk.injEq] at hworker
    obtain ⟨⟨server, response⟩, hserver, rfl, -⟩ := hworker
    obtain ⟨hone', hmetadata, hdata⟩ := rest_algorithmABD hone.abd hserver
    refine ⟨⟨hone', hone.sodaw⟩, fun haccounted ↦ ?_⟩
    obtain ⟨hright, hmetadataRight⟩ := (accounted_iff_abd process).mp haccounted
    rw [accounted_iff_abd, countsReplaced_abd_iff]
    refine (and_iff_left (hmetadata.trans hmetadataRight)).trans ?_
    rw [hdata, ← hright]
    exact add_eq_left
  | abdOther object =>
    obtain ⟨rfl, -⟩ := Prod.mk.inj (Option.some.inj hworker)
    obtain ⟨hdata, hmetadata⟩ :=
      rest_createObject process.objectsABD process.status object args.initData
    refine ⟨⟨hone.abd.createObject process.status object args.initData, hone.sodaw⟩,
      fun haccounted ↦ iff_of_true ?_ trivial⟩
    obtain ⟨hright, hmetadataRight⟩ := (accounted_iff_abd process).mp haccounted
    exact (accounted_iff_abd _).mpr ⟨hdata.trans hright, hmetadata.trans hmetadataRight⟩
  | sodaw message =>
    simp only [ServerProcess.serverWorker, Option.bind_eq_bind, Option.bind_eq_some_iff,
      Option.some.injEq, Prod.mk.injEq] at hworker
    obtain ⟨⟨server, sent⟩, hserver, rfl, -⟩ := hworker
    obtain ⟨hone', hdata, hmetadata⟩ := rest_handle hone.sodaw hserver
    refine ⟨⟨hone.abd, hone'⟩, fun haccounted ↦ ?_⟩
    obtain ⟨hright, hmetadataRight⟩ := (accounted_iff_sodaw process).mp haccounted
    rw [accounted_iff_sodaw, countsReplaced_sodaw_iff]
    refine and_congr ?_ ?_
    · rw [hdata, ← hright]
      exact add_eq_left
    · rw [hmetadata, ← hmetadataRight]
      exact add_eq_left
  | other =>
    obtain ⟨rfl, -⟩ := Prod.mk.inj (Option.some.inj hworker)
    exact ⟨hone, fun haccounted ↦ iff_of_true haccounted trivial⟩

end Step

section Run

variable {strcmp : Strcmp} {args : Sodaw.ServerArgs} {s : Logged ServerProcess ServerMessage}

/-- A server process reaches a state by handling messages, which are logged with the states before
them. -/
abbrev ServerProcess.Reaches (strcmp : Strcmp) (args : Sodaw.ServerArgs) :
    Logged ServerProcess ServerMessage → Prop :=
  Run (Logged.next (ServerProcess.step strcmp args)) (fun _ _ ↦ True)
    (Logged.start ServerProcess.initial)

theorem oneVersions_of_run (run : ServerProcess.Reaches strcmp args s) : OneVersions s.state := by
  refine run.invariant (P := fun s ↦ OneVersions s.state) oneVersions_initial
    fun before message after hone _ hstep ↦ ?_
  obtain ⟨process, hprocess, rfl⟩ := Option.map_eq_some_iff.mp hstep
  exact (accounted_step hone hprocess).1

/-- In the last state of a run and in all states before it the counters are right exactly if every
version that has been replaced was counted as it should be. -/
theorem accounted_iff (run : ServerProcess.Reaches strcmp args s) :
    (Accounted s.state ∧ ∀ entry ∈ s.log, Accounted entry.1) ↔
      ∀ entry ∈ s.log, entry.1.CountsReplaced strcmp args entry.2 := by
  induction run with
  | refl =>
    exact ⟨fun _ ↦ List.forall_mem_nil _, fun _ ↦ ⟨accounted_initial, List.forall_mem_nil _⟩⟩
  | @tail before after message previous _ hstep ih =>
    obtain ⟨process, hprocess, rfl⟩ := Option.map_eq_some_iff.mp hstep
    have hkeep := (accounted_step (oneVersions_of_run previous) hprocess).2
    simp only [List.forall_mem_cons]
    constructor
    · rintro ⟨hlast, hbefore, hearlier⟩
      exact ⟨(hkeep hbefore).mp hlast, ih.mp ⟨hbefore, hearlier⟩⟩
    · rintro ⟨hcounts, hearlier⟩
      obtain ⟨hbefore, hbefores⟩ := ih.mpr hearlier
      exact ⟨(hkeep hbefore).mpr hcounts, hbefore, hbefores⟩

end Run

/-- A server whose objects begin with three bytes. -/
def processArgs : Sodaw.ServerArgs := ⟨ascii ['s', '1'], [1, 1, 1], 2⟩

/-- A server process after these messages, if all are handled. -/
def processRun (messages : List ServerMessage) : Option (Logged ServerProcess ServerMessage) :=
  execute (Logged.next (ServerProcess.step Strcmp.sign processArgs)) (fun _ _ ↦ True)
    (Logged.start ServerProcess.initial) messages

/-- The client `client_1` writes its version of the object with this number by ABD. -/
def writeABD (z : Int32) (payload : Frame) : ServerMessage :=
  .abd .writeValue ⟨ascii ['o'], tagToString ⟨z, ascii ['c', 'l', 'i', 'e', 'n', 't', '_', '1']⟩,
    payload⟩

/-- The client `client_1` writes its version of the object with this number by SODAW. -/
def writeSODAW (z : Int32) (payload : Frame) : ServerMessage :=
  .sodaw (.request ⟨ascii ['c', 'l', 'i', 'e', 'n', 't', '_', '1'], 1, .writePut⟩
    ⟨ascii ['o'], tagToString ⟨z, ascii ['c', 'l', 'i', 'e', 'n', 't', '_', '1']⟩, payload⟩)

/-- ABD replaces the three bytes of a new object by two, and SODAW by three. -/
theorem accounted_equal_sizes : ∃ s,
    processRun [writeABD 1 [2, 2], writeSODAW 1 [3, 3, 3]] = some s ∧ s.log.length = 2 ∧
      Accounted s.state := by
  have hsome : (processRun [writeABD 1 [2, 2], writeSODAW 1 [3, 3, 3]]).any (fun s ↦
      s.log.length = 2 ∧
        ∀ entry ∈ s.log, entry.1.CountsReplaced Strcmp.sign processArgs entry.2) = true := by
    decide +kernel
  obtain ⟨s, hs, hcounts⟩ := (Option.any_eq_true _ _).mp hsome
  obtain ⟨htwo, hcounts⟩ := of_decide_eq_true hcounts
  exact ⟨s, hs, htwo, ((accounted_iff (run_of_execute hs)).mpr hcounts).1⟩

/-- A version of SODAW with two bytes replaces three, of which none is subtracted, and the two are
not added. The second version of ABD replaces two bytes, of which three are subtracted. -/
theorem not_accounted :
    (∃ s, processRun [writeSODAW 1 [2, 2]] = some s ∧ ¬ Accounted s.state) ∧
      ∃ s, processRun [writeABD 1 [2, 2], writeABD 2 [2, 2]] = some s ∧ ¬ Accounted s.state := by
  have hsodaw : (processRun [writeSODAW 1 [2, 2]]).any (fun s ↦ ¬ Accounted s.state) = true := by
    decide +kernel
  have habd : (processRun [writeABD 1 [2, 2], writeABD 2 [2, 2]]).any
      (fun s ↦ ¬ Accounted s.state) = true := by
    decide +kernel
  obtain ⟨s, hs, hnot⟩ := (Option.any_eq_true _ _).mp hsodaw
  obtain ⟨s', hs', hnot'⟩ := (Option.any_eq_true _ _).mp habd
  exact ⟨⟨s, hs, of_decide_eq_true hnot⟩, s', hs', of_decide_eq_true hnot'⟩

end Colas
