import Colas.Sodaw.Refinement
import Colas.Shared.System

/-!
# What one algorithm makes of the other

A server process counts the bytes of both algorithms in one `status`, and no handler looks at it:
what a handler does and sends depends only on the objects of its own algorithm, and for SODAW on its
tables.
-/

set_option autoImplicit false
set_option relaxedAutoImplicit false

namespace Colas

/-! ### The counters of a server -/

/-- A new object does not depend on the counters. -/
theorem createObject_fst (objects : ObjectTable) (status status' : ServerStatus) (name : CString)
    (initData : Frame) :
    (createObject objects status name initData).1 =
      (createObject objects status' name initData).1 := by
  rw [createObject, createObject]
  split_ifs <;> rfl

namespace Abd

/-- The response and the objects of a server do not depend on its counters. -/
theorem algorithmABD_objects (strcmp : Strcmp) (initData : Frame) {server server' : Server}
    (hobjects : server.objects = server'.objects) (phase : Phase) (request : Body) :
    (algorithmABD strcmp initData server phase request).map
        (fun result ↦ (result.1.objects, result.2)) =
      (algorithmABD strcmp initData server' phase request).map
        fun result ↦ (result.1.objects, result.2) := by
  obtain ⟨objects, status⟩ := server
  obtain ⟨objects', status'⟩ := server'
  obtain rfl : objects = objects' := hobjects
  have hcreated := createObject_fst objects status status' request.object initData
  cases phase with
  | getTag =>
    simp only [algorithmABD, algorithmABDGetTag, hcreated, Option.bind_eq_bind, Option.map_bind]
    rfl
  | writeValue =>
    simp only [algorithmABD, algorithmABDWriteValue, hcreated, Option.bind_eq_bind,
      Option.map_bind, Function.comp_def]
    refine Option.bind_congr fun tag _ ↦ Option.bind_congr fun localTag _ ↦ ?_
    split_ifs
    · simp only [Option.map_bind, Function.comp_def, Option.map_some]
    · rfl
  | getTagValue =>
    simp only [algorithmABD, algorithmABDGetTagValue, hcreated, Option.bind_eq_bind,
      Option.map_bind, Function.comp_def]
    refine Option.bind_congr fun tag _ ↦ Option.bind_congr fun single _ ↦ ?_
    split_ifs
    · simp only [Option.map_bind, Function.comp_def, Option.map_some]
    · rfl

end Abd

namespace Sodaw

variable {strcmp : Strcmp} {args : ServerArgs} {server server' : Server}

/-- The servers differ in their counters only. -/
structure Server.Agrees (server server' : Server) : Prop where
  objects : server.objects = server'.objects
  tables : server.tables = server'.tables

/-- What a handler leaves and sends, without the counters. -/
def uncounted (result : Server × Output) : (ObjectTable × Tables) × Output :=
  ((result.1.objects, result.1.tables), result.2)

theorem Server.Agrees.symm (h : server.Agrees server') : server'.Agrees server :=
  ⟨h.objects.symm, h.tables.symm⟩

theorem Server.Agrees.trans {server'' : Server} (h : server.Agrees server')
    (h' : server'.Agrees server'') : server.Agrees server'' :=
  ⟨h.objects.trans h'.objects, h.tables.trans h'.tables⟩

/-- The server of SODAW in a process does not change with that of ABD but for the counters. -/
theorem agrees_withAbd (process : ServerProcess) (server : Abd.Server) :
    (process.withAbd server).sodaw.Agrees process.sodaw :=
  ⟨rfl, rfl⟩

theorem Server.Agrees.create (h : server.Agrees server') (object : CString) :
    (server.create args object).Agrees (server'.create args object) where
  objects := by
    rw [Server.create, Server.create, h.objects]
    exact createObject_fst _ _ _ _ _
  tables := h.tables

theorem Server.Agrees.report (h : server.Agrees server') (request : Body) :
    (algorithmSODAWWriteGetOrReadGetTag server request).map uncounted =
      (algorithmSODAWWriteGetOrReadGetTag server' request).map uncounted := by
  simp only [algorithmSODAWWriteGetOrReadGetTag, h.objects, Option.bind_eq_bind,
    Option.map_bind, Function.comp_def, Option.map_some, uncounted, h.tables]

theorem Server.Agrees.writePut (h : server.Agrees server') (request : Body) :
    (algorithmSODAWWritePut strcmp args server request).map uncounted =
      (algorithmSODAWWritePut strcmp args server' request).map uncounted := by
  simp only [algorithmSODAWWritePut, h.objects, h.tables, Option.bind_eq_bind, Option.map_bind,
    Function.comp_def]
  refine Option.bind_congr fun tagW _ ↦ Option.bind_congr fun tag _ ↦ ?_
  split_ifs
  · simp only [Option.map_bind, Function.comp_def, Option.map_some, uncounted]
  · simp only [Option.map_some, uncounted, h.objects, h.tables]

theorem Server.Agrees.readValue (h : server.Agrees server') (name : CallId Phase)
    (request : Body) :
    (algorithmSODAWReadValue strcmp args server name request).map uncounted =
      (algorithmSODAWReadValue strcmp args server' name request).map uncounted := by
  simp only [algorithmSODAWReadValue, h.objects, h.tables, Option.bind_eq_bind,
    Option.map_bind, Function.comp_def]
  refine Option.bind_congr fun tagR _ ↦ ?_
  split_ifs
  · simp only [Option.map_some, uncounted, h.objects, h.tables]
  · simp only [Option.map_bind, Function.comp_def]
    refine Option.bind_congr fun tagLoc _ ↦ ?_
    split_ifs
    · simp only [Option.map_bind, Function.comp_def, Option.map_some, uncounted]
    · simp only [Option.map_some, uncounted]
  · rfl

theorem Server.Agrees.readComplete (h : server.Agrees server') (name : CallId Phase)
    (request : Body) :
    (algorithmSODAWReadComplete server name request).map uncounted =
      (algorithmSODAWReadComplete server' name request).map uncounted := by
  simp only [algorithmSODAWReadComplete, h.tables, Option.bind_eq_bind, Option.map_bind,
    Function.comp_def]
  refine Option.bind_congr fun tagR _ ↦ ?_
  split_ifs
  · simp only [Option.map_some, uncounted, h.objects, h.tables]
  · simp only [Option.map_some, uncounted, h.objects]
  · rfl

/-- What a handler does to the objects and the tables and what it sends does not depend on the
counters. -/
theorem Server.Agrees.algorithmSODAW (h : server.Agrees server') (name : CallId Phase)
    (request : Body) :
    (Sodaw.algorithmSODAW strcmp args server name request).map uncounted =
      (Sodaw.algorithmSODAW strcmp args server' name request).map uncounted := by
  have hcreated : (server.create args request.object).Agrees
      (server'.create args request.object) := h.create request.object
  obtain ⟨client, opnum, phase⟩ := name
  cases phase with
  | writeGet => exact hcreated.report request
  | readGet => exact hcreated.report request
  | writePut => exact hcreated.writePut request
  | readValue => exact hcreated.readValue _ request
  | readComplete => exact hcreated.readComplete _ request

/-- So is it with a notice. -/
theorem Server.Agrees.algorithmSODAWOnNotice (h : server.Agrees server') (notice : Disperse) :
    (Sodaw.algorithmSODAWOnNotice args server notice).map
        (fun result ↦ uncounted (result, .none)) =
      (Sodaw.algorithmSODAWOnNotice args server' notice).map
        fun result ↦ uncounted (result, .none) := by
  have hcreated : (server.create args notice.object).Agrees
      (server'.create args notice.object) := h.create notice.object
  simp only [Sodaw.algorithmSODAWOnNotice, algorithmSODAWReadDisperse, hcreated.tables,
    Option.bind_eq_bind, Option.map_bind, Function.comp_def]
  refine Option.bind_congr fun _ _ ↦ Option.bind_congr fun readTag _ ↦ ?_
  split_ifs with hstale hasserted
  · simp only [Option.map_some, uncounted, hcreated.objects, hcreated.tables]
  all_goals
    simp only [Option.map_bind, Function.comp_def]
    refine Option.bind_congr fun hisKey _ ↦ ?_
  · split_ifs
    · simp only [Option.map_some, uncounted, hcreated.objects]
    · simp only [Option.map_some, uncounted, hcreated.objects]
  · split_ifs
    · rfl
    · simp only [Option.map_some, uncounted, hcreated.objects]

/-! ### Messages of the other algorithm at a client -/

/-- On a message with a phase that is not one of SODAW a loop goes on. -/
theorem Client.receiveFrames_other {n : ℕ} {incoming : Incoming} {clientId : CString}
    {msg : List Frame} {phaseName tag : CString} {opnum : ℕ} {payload : Option Frame}
    {client : Client} {recvTag : Tag} (hreceive : receiveMessageFramesAtClient msg = some incoming)
    (hread : Readable incoming.frames incoming.names phaseName opnum tag payload)
    (hother : Phase.ofText phaseName = none) (hlength : phaseName.length < bufsize)
    (hparse : stringToTag tag = some recvTag) (hidle : client ≠ .idle)
    (hexited : client ≠ .exited) :
    client.receiveFrames (n := n) strcmp clientId msg = some (waiting client) := by
  have hphase := hread.phase_eq bufsize hlength
  have hget : ∀ operation : Operation, Phase.readComplete ≠ operation.getPhase := by
    rintro (payload | -) ⟨⟩
  have hvalue : phaseName ≠ Text.readValue := by
    rintro rfl
    exact absurd hother (by decide)
  cases client with
  | idle => exact absurd rfl hidle
  | exited => exact absurd rfl hexited
  | get opNum object operation responses tagList =>
    simp [Client.receiveFrames, hreceive, Client.readFrames, hphase, hread.opnum_eq, hread.tag_eq,
      hother, Client.receive, sodawWriteGetOrReadGetPhase, hget]
  | writePut opNum object tag responses =>
    simp [Client.receiveFrames, hreceive, Client.readFrames, hphase, hread.opnum_eq, hother,
      Client.receive, sodawWritePutPhase]
  | readValue opNum object readTag recvDataset decodeableKey =>
    simp [Client.receiveFrames, hreceive, Client.readFrames, hphase, hread.opnum_eq, hread.tag_eq,
      hother, hvalue, Client.receive, sodawReadValue, hparse, collectElement, waiting]

/-! ### The frames of the messages -/

section Messages

variable {n : ℕ} {config : Config n} (hserver : ∀ i, FitsBuffer (config.serverId i)) {i : Fin n}
  {name : CallId Phase} {body : Body} (hfits : AnswerFits name body)

include hserver hfits

/-- A response of SODAW can be read. -/
theorem readable_response (hphase : name.phase = .writeGet ∨ name.phase = .readGet ∨
      name.phase = .writePut) :
    ∃ incoming, receiveMessageFramesAtClient (responseMessage config (i, name, body)).2.2 =
        some incoming ∧
      Readable incoming.frames incoming.names name.phase.text name.opnum body.tag none := by
  have hsodaw : FitsBuffer Text.sodaw := by decide
  have hfitsPhase : FitsBuffer name.phase.text := by
    rcases hphase with hget | hget | hput
    · rw [hget]; decide
    · rw [hget]; decide
    · rw [hput]; decide
  refine readable_tag (hserver i) hfits.call.object hsodaw hfitsPhase hfits.tag
    hfits.call.opnum ?_
  rcases hphase with hget | hget | hput
  · rw [hget]; rfl
  · rw [hget]; rfl
  · rw [hput]; rfl

/-- A coded element can be read. -/
theorem readable_elementMessage :
    ∃ incoming, receiveMessageFramesAtClient (elementMessage config (i, name, body)).2.2 =
        some incoming ∧
      Readable incoming.frames incoming.names Text.readValue name.opnum body.tag
        (some body.payload) := by
  have hsodaw : FitsBuffer Text.sodaw := by decide
  have hvalue : FitsBuffer Text.readValue := by decide
  exact readable_element (hserver i) hfits.call.object hsodaw hvalue hfits.tag hfits.call.opnum
    body.payload rfl

end Messages

end Sodaw

/-! ### A client that receives a message of the other algorithm -/

/-- A client of ABD that receives something runs an operation. -/
theorem Abd.Client.running_of_receiveFrames {n : ℕ} {strcmp : Strcmp} {clientId : CString}
    {heap : Abd.Heap} {msg : List Frame} {client : Abd.Client}
    {turn : Turn n Abd.Client Abd.Phase}
    (h : client.receiveFrames strcmp clientId heap msg = some turn) :
    client ≠ .idle ∧ client ≠ .exited := by
  constructor
  · rintro rfl
    simp [Abd.Client.receiveFrames] at h
  · rintro rfl
    simp [Abd.Client.receiveFrames] at h

/-- So does a client of SODAW. -/
theorem Sodaw.Client.running_of_receiveFrames {n : ℕ} {strcmp : Strcmp} {clientId : CString}
    {msg : List Frame} {client : Sodaw.Client} {turn : Turn n Sodaw.Client Sodaw.Phase}
    (h : client.receiveFrames strcmp clientId msg = some turn) :
    client ≠ .idle ∧ client ≠ .exited := by
  constructor
  · rintro rfl
    simp [Sodaw.Client.receiveFrames, Sodaw.Client.readFrames] at h
  · rintro rfl
    simp [Sodaw.Client.receiveFrames, Sodaw.Client.readFrames] at h

section Clients

variable {n : ℕ} {config : Sodaw.Config n} (hserver : ∀ i, FitsBuffer (config.serverId i))
  {i : Fin n} {clientId : CString} {recvTag : Tag} {body : Body}

include hserver

/-- A client of ABD goes on after a response of SODAW. -/
theorem Abd.Client.receiveFrames_sodawResponse {name : CallId Sodaw.Phase}
    (hfits : AnswerFits name body)
    (hphase : name.phase = .writeGet ∨ name.phase = .readGet ∨ name.phase = .writePut)
    (hparse : stringToTag body.tag = some recvTag) (heap : Abd.Heap)
    {client : Abd.Client} (hidle : client ≠ .idle) (hexited : client ≠ .exited) :
    client.receiveFrames (n := n) config.strcmp clientId heap
        (Sodaw.responseMessage config (i, name, body)).2.2 = some (Abd.waiting client) := by
  obtain ⟨incoming, hreceive, hread⟩ := Sodaw.readable_response (i := i) hserver hfits hphase
  have hother : ∀ phase : Abd.Phase, name.phase.text ≠ phase.text := by
    intro phase
    cases name.phase <;> cases phase <;> decide
  have hlength : name.phase.text.length < Abd.readPhaseSize := by
    cases name.phase <;> decide
  have hafter : client.afterOther none = client := by
    cases client <;> rfl
  rw [Abd.Client.receiveFrames_other hreceive hread hother hlength hparse hidle hexited, hafter]

/-- A client of ABD goes on after a coded element of SODAW, but a reader ends if the element has
less than 100 bytes. -/
theorem Abd.Client.receiveFrames_sodawElement {name : CallId Sodaw.Phase}
    (hfits : AnswerFits name body) (hparse : stringToTag body.tag = some recvTag)
    (heap : Abd.Heap) {client : Abd.Client} (hidle : client ≠ .idle)
    (hexited : client ≠ .exited) :
    client.receiveFrames (n := n) config.strcmp clientId heap
        (Sodaw.elementMessage config (i, name, body)).2.2 =
      some (Abd.waiting (client.afterOther (some body.payload))) := by
  obtain ⟨incoming, hreceive, hread⟩ := Sodaw.readable_elementMessage (i := i) hserver hfits
  have hother : ∀ phase : Abd.Phase, Text.readValue ≠ phase.text := by
    intro phase
    cases phase <;> decide
  exact Abd.Client.receiveFrames_other hreceive hread hother (by decide) hparse hidle hexited

/-- A client of SODAW goes on after a response of ABD. -/
theorem Sodaw.Client.receiveFrames_abdResponse {name : CallId Abd.Phase}
    (hfits : AnswerFits name body) (hparse : stringToTag body.tag = some recvTag)
    {client : Sodaw.Client} (hidle : client ≠ .idle) (hexited : client ≠ .exited) :
    client.receiveFrames (n := n) config.strcmp clientId
        (wire (Abd.responseFields (config.serverId i) name body)) =
      some (Sodaw.waiting client) := by
  obtain ⟨incoming, hreceive, hread⟩ := Abd.readable_response (hserver i) hfits
  have hother : Sodaw.Phase.ofText name.phase.text = none := by
    cases name.phase <;> decide
  exact Sodaw.Client.receiveFrames_other hreceive hread hother name.phase.fitsBuffer.2 hparse
    hidle hexited

end Clients

end Colas
