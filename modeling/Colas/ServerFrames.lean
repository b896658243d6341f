import Colas.Messages
import Colas.ServerWorker

/-!
# The server process on frames

`serverWorkerFrames` is a turn of the loop of `server_worker` on the frames that its socket
delivers: the frames are put into a table, the handler that is called reads what it needs from the
table (`ServerMessage.ofFrames`), and what it sends is made of frames again (`ServerOutput.send`).
Between the two stands `serverWorker`.

The handlers do not look at all frames of a message. Those of requests for a tag read the object
only, and put the frames of the request into the response; `READ_VALUE` sends the element to the
socket that the request came from, and `WRITE_PUT` to the sockets that are named like the registered
readers. `serverWorkerFrames_request` and `serverWorkerFrames_notice` say that on the frames of a
message that fits the buffers a process does what it does on the message.
-/

set_option autoImplicit false
set_option relaxedAutoImplicit false

namespace Colas

/-- What a server gives to its two sockets. -/
structure Sent where
  /-- The messages on the socket of the worker, each under the identity of the peer it goes to. -/
  worker : List (List Frame)
  /-- The messages on the socket to the servers, each of which goes to every server. -/
  servers : List (List Frame)

/-- Nothing is sent. -/
def Sent.nothing : Sent := ⟨[], []⟩

/-- One message is sent on the socket of the worker. -/
def Sent.reply (msg : List Frame) : Sent := ⟨[msg], []⟩

/-! ### What the handlers read -/

/-- The phase of ABD with this name, in the order in which `algorithm_ABD` compares. -/
def Abd.Phase.ofText (phaseName : CString) : Option Abd.Phase :=
  if phaseName = Text.getTag then some .getTag
  else if phaseName = Text.writeValue then some .writeValue
  else if phaseName = Text.getTagValue then some .getTagValue
  else none

/-- The phase of a request of SODAW with this name, in the order in which `algorithm_SODAW`
compares. -/
def Sodaw.Phase.ofText (phaseName : CString) : Option Sodaw.Phase :=
  if phaseName = Text.writeGet then some .writeGet
  else if phaseName = Text.writePut then some .writePut
  else if phaseName = Text.readGet then some .readGet
  else if phaseName = Text.readValue then some .readValue
  else if phaseName = Text.readComplete then some .readComplete
  else none

/-- The frames that a handler of `abd_server.c` reads. What it does not read is left empty. -/
def Abd.readRequest (frames : FrameTable) : Abd.Phase → Option Body
  | .getTag => do
    let object ← getStringFrame bufsize frames .object
    let _opnum ← getUintFrame frames .opnum
    some ⟨object, [], []⟩
  | .writeValue => do
    let tag ← getStringFrame bufsize frames .tag
    let object ← getStringFrame bufsize frames .object
    let payload ← frames.lookup .payload
    some ⟨object, tag, payload⟩
  | .getTagValue => do
    let object ← getStringFrame bufsize frames .object
    some ⟨object, [], []⟩

/-- The frames that a handler of `sodaw_server.c` reads. What it does not read is left empty. -/
def Sodaw.readRequest (frames : FrameTable) :
    Sodaw.Phase → Option (CallId Sodaw.Phase × Body)
  | .writeGet => do
    let object ← getStringFrame bufsize frames .object
    some (⟨[], 0, .writeGet⟩, ⟨object, [], []⟩)
  | .readGet => do
    let object ← getStringFrame bufsize frames .object
    some (⟨[], 0, .readGet⟩, ⟨object, [], []⟩)
  | .writePut => do
    let tag ← getStringFrame bufsize frames .tag
    let payload ← frames.lookup .payload
    let _senderid ← getStringFrame bufsize frames .sender
    let writerid ← getStringFrame bufsize frames .clientid
    let _algorithm ← getStringFrame bufsize frames .algorithm
    let object ← getStringFrame bufsize frames .object
    let opnum ← getUintFrame frames .opnum
    some (⟨writerid, opnum, .writePut⟩, ⟨object, tag, payload⟩)
  | .readValue => do
    let _senderId ← getStringFrame bufsize frames .sender
    let readerId ← getStringFrame bufsize frames .clientid
    let opnum ← getUintFrame frames .opnum
    let object ← getStringFrame bufsize frames .object
    let _algorithmName ← getStringFrame bufsize frames .algorithm
    let tag ← getStringFrame bufsize frames .tag
    some (⟨readerId, opnum, .readValue⟩, ⟨object, tag, []⟩)
  | .readComplete => do
    let object ← getStringFrame bufsize frames .object
    let tag ← getStringFrame bufsize frames .tag
    let readerid ← getStringFrame bufsize frames .clientid
    let opnum ← getUintFrame frames .opnum
    some (⟨readerid, opnum, .readComplete⟩, ⟨object, tag, []⟩)

/-- The frames that `algorithm_SODAW_READ_DISPERSE` reads. -/
def Sodaw.readNotice (frames : FrameTable) : Option Sodaw.Disperse := do
  let senderid ← getStringFrame bufsize frames .clientid
  let object ← getStringFrame bufsize frames .object
  let sendTag ← getStringFrame bufsize frames .metaSendTag
  let readTag ← getStringFrame bufsize frames .metaReadTag
  let readerid ← getStringFrame bufsize frames .metaReaderid
  let opnum ← getUintFrame frames .opnum
  some ⟨senderid, object, sendTag, readerid, readTag, opnum⟩

/-- What `algorithm_SODAW` reads of the frames of a message. -/
def Sodaw.Message.ofFrames (frames : FrameTable) : Option Sodaw.Message := do
  let phaseName ← getStringFrame bufsize frames .phase
  let object ← getStringFrame bufsize frames .object
  match Sodaw.Phase.ofText phaseName with
  | some phase =>
    let (name, body) ← Sodaw.readRequest frames phase
    some (.request name body)
  | none =>
    if phaseName = Text.readDisperse then (Sodaw.readNotice frames).map .disperse
    else some (.other object)

/-- What a process reads of the frames of a message, by `ALGORITHM` and `PHASE`. -/
def ServerMessage.ofFrames (frames : FrameTable) : Option ServerMessage := do
  let algorithmName ← getStringFrame bufsize frames .algorithm
  if algorithmName = Text.abd then
    let phaseName ← getStringFrame bufsize frames .phase
    let object ← getStringFrame bufsize frames .object
    match Abd.Phase.ofText phaseName with
    | some phase => (Abd.readRequest frames phase).map (.abd phase)
    | none => some (.abdOther object)
  else if algorithmName = Text.sodaw then (Sodaw.Message.ofFrames frames).map .sodaw
  else some .other

/-! ### What the handlers send -/

/-- `send_reader_coded_element` for an element, to the peer with an identity. -/
def Sodaw.sendElement (serverId algorithm reader : CString)
    (element : CallId Sodaw.Phase × Body) : List Frame :=
  sendReaderCodedElement reader serverId element.2.object algorithm Text.readValue
    element.2.tagValue element.1.opnum element.2.payload

/-- The elements that a handler of `sodaw_server.c` sends: `READ_VALUE` to the socket of the
request, `WRITE_PUT` to those of the registered readers. -/
def Sodaw.sendElements (serverId : CString) (frames : FrameTable) (phase : Sodaw.Phase)
    (elements : List (CallId Sodaw.Phase × Body)) : Option (List (List Frame)) :=
  match phase with
  | .readValue => do
    let senderId ← getStringFrame bufsize frames .sender
    let algorithmName ← getStringFrame bufsize frames .algorithm
    some (elements.map (Sodaw.sendElement serverId algorithmName senderId))
  | .writePut => do
    let algorithm ← getStringFrame bufsize frames .algorithm
    some (elements.map fun element ↦
      Sodaw.sendElement serverId algorithm element.1.client element)
  | .writeGet | .readGet | .readComplete => some []

/-- What a handler of `sodaw_server.c` sends. -/
def Sodaw.Output.send (serverId : CString) (frames : FrameTable) (phase : Sodaw.Phase)
    (output : Sodaw.Output) : Option Sent := do
  let elements ← Sodaw.sendElements serverId frames phase output.elements
  let notices ← output.disperses.mapM sendDisperse
  match output.response with
  | .none => some ⟨elements, notices⟩
  | .some response => do
    let msg ← Sodaw.sendResponse serverId phase frames response
    some ⟨elements ++ [msg], notices⟩

/-- What a process sends after a message. -/
def ServerOutput.send (serverId : CString) (frames : FrameTable) :
    ServerMessage → ServerOutput → Option Sent
  | .abd phase _, .abd response =>
    (Abd.sendResponse serverId phase frames response).map Sent.reply
  | .sodaw (.request name _), .sodaw output => output.send serverId frames name.phase
  | _, _ => some Sent.nothing

/-- A turn of the loop of `server_worker` on a message, whose first frame is the identity of the
peer. -/
def ServerProcess.serverWorkerFrames (strcmp : Strcmp) (args : Sodaw.ServerArgs)
    (process : ServerProcess) (msg : List Frame) : Option (ServerProcess × Sent) := do
  let incoming ← receiveMessageFramesAtServer msg
  let message ← ServerMessage.ofFrames incoming.frames
  let (process', output) ← process.serverWorker strcmp args message
  let sent ← output.send args.serverId incoming.frames message
  some (process', sent)

/-! ### What fits the buffers -/

/-- The string has no terminator inside and fits a buffer of `BUFSIZE` bytes with one. Into such
buffers the strings of a message are read. Those of `get_object_tag` and of `HistoryData_keystring`
belong to the handlers. -/
def FitsBuffer (s : CString) : Prop := 0 ∉ s ∧ s.length < bufsize

instance : DecidablePred FitsBuffer :=
  fun s ↦ inferInstanceAs (Decidable (0 ∉ s ∧ s.length < bufsize))

/-- The identity of a client with a name that fits is the name. -/
theorem frame_of_fits {clientId : CString} (h : FitsBuffer clientId) :
    (Value.text clientId).frame = clientId :=
  List.takeWhile_eq_self_iff.mpr fun b hb ↦ by
    simpa using fun hzero : b = 0 ↦ h.1 (hzero ▸ hb)

/-- The number is an `unsigned int`. -/
def FitsUint (opnum : ℕ) : Prop := opnum < 2 ^ 32

instance : DecidablePred FitsUint := fun opnum ↦ inferInstanceAs (Decidable (opnum < 2 ^ 32))

/-- The rendering of the tag fits. -/
def TagFits (tag : Tag) : Prop := FitsBuffer (tagToString tag)

instance : DecidablePred TagFits :=
  fun tag ↦ inferInstanceAs (Decidable (FitsBuffer (tagToString tag)))

/-- The names of an operation fit. -/
structure CallFits (clientId : CString) (opNum : ℕ) (object : CString) : Prop where
  client : FitsBuffer clientId
  opnum : FitsUint opNum
  object : FitsBuffer object

instance (clientId : CString) (opNum : ℕ) (object : CString) :
    Decidable (CallFits clientId opNum object) :=
  decidable_of_iff (FitsBuffer clientId ∧ FitsUint opNum ∧ FitsBuffer object)
    ⟨fun ⟨hclient, hopnum, hobject⟩ ↦ ⟨hclient, hopnum, hobject⟩,
      fun h ↦ ⟨h.client, h.opnum, h.object⟩⟩

/-- The strings of a response or an element fit. -/
structure AnswerFits {φ : Type} (name : CallId φ) (frames : Body) : Prop where
  call : CallFits name.client name.opnum frames.object
  tag : FitsBuffer frames.tag

theorem AnswerFits.tagValue {φ : Type} {name : CallId φ} {frames : Body}
    (h : AnswerFits name frames) (htag : frames.tag = tagToString frames.tagValue) :
    TagFits frames.tagValue := by
  rw [TagFits, ← htag]
  exact h.tag

/-- The strings of a request of SODAW fit. -/
structure Sodaw.RequestFits (name : CallId Sodaw.Phase) (request : Body) : Prop where
  client : FitsBuffer name.client
  opnum : FitsUint name.opnum
  object : FitsBuffer request.object
  tag : name.phase.CarriesTag → FitsBuffer request.tag

/-- The strings of a notice fit. -/
structure Sodaw.NoticeFits (notice : Sodaw.Disperse) : Prop where
  clientid : FitsBuffer notice.clientid
  object : FitsBuffer notice.object
  sendTag : FitsBuffer notice.sendTag
  readerid : FitsBuffer notice.readerid
  readTag : FitsBuffer notice.readTag
  opnum : FitsUint notice.opnum

theorem Abd.Phase.ofText_text (phase : Abd.Phase) : Abd.Phase.ofText phase.text = some phase := by
  cases phase <;> decide

theorem Sodaw.Phase.ofText_text (phase : Sodaw.Phase) :
    Sodaw.Phase.ofText phase.text = some phase := by
  cases phase <;> decide

/-- The fields of every request that fits are values of C. -/
theorem allValid_requestHeader {client object algorithm : CString} {phase : CString} {opnum : ℕ}
    (hclient : FitsBuffer client) (hobject : FitsBuffer object) (hopnum : FitsUint opnum)
    (halgorithm : 0 ∉ algorithm) (hphase : 0 ∉ phase) :
    AllValid (requestHeader client object algorithm phase opnum) := by
  simp only [AllValid, requestHeader, List.forall_mem_cons]
  exact ⟨hclient.1, hobject.1, halgorithm, hphase, hopnum, List.forall_mem_nil _⟩

theorem AllValid.append {fields fields' : List Field} (h : AllValid fields)
    (h' : AllValid fields') : AllValid (fields ++ fields') :=
  List.forall_mem_append.mpr ⟨h, h'⟩

theorem allValid_nil : AllValid [] := List.forall_mem_nil _

theorem Sodaw.RequestFits.allValid {name : CallId Sodaw.Phase} {request : Body}
    (h : Sodaw.RequestFits name request) : AllValid (Sodaw.requestFields name request) := by
  have hphase : 0 ∉ name.phase.text := by cases name.phase <;> decide
  have hheader := allValid_requestHeader h.client h.object h.opnum
    (by decide : 0 ∉ Text.sodaw) hphase
  have htag : name.phase.CarriesTag → AllValid [(.tag, .text request.tag)] := fun hcarries ↦
    List.forall_mem_singleton.mpr (h.tag hcarries).1
  have hpayload : AllValid [(.payload, .data request.payload)] :=
    List.forall_mem_singleton.mpr trivial
  obtain ⟨client, opnum, phase⟩ := name
  cases phase with
  | writeGet => exact (hheader.append allValid_nil).append allValid_nil
  | readGet => exact (hheader.append allValid_nil).append allValid_nil
  | writePut => exact (hheader.append (htag (Or.inl rfl))).append hpayload
  | readValue => exact (hheader.append (htag (Or.inr (Or.inl rfl)))).append allValid_nil
  | readComplete => exact (hheader.append (htag (Or.inr (Or.inr rfl)))).append allValid_nil

theorem Sodaw.NoticeFits.allValid {notice : Sodaw.Disperse} (h : Sodaw.NoticeFits notice) :
    AllValid (disperseFields .clientid notice) := by
  simp only [AllValid, disperseFields, List.forall_mem_cons]
  exact ⟨h.clientid.1, h.object.1, by decide, by decide, h.sendTag.1, h.readerid.1, h.readTag.1,
    h.opnum, List.forall_mem_nil _⟩

section Reads

variable {frames : FrameTable} {fields : List Field}

/-- A string that fits is read back. -/
theorem FrameTable.Holds.readString (h : frames.Holds (fields.map Field.frame)) (name : FrameName)
    {s : CString} (hlookup : (fields.map Field.frame).lookup name = some (Value.text s).frame)
    (hs : FitsBuffer s) : Colas.getStringFrame bufsize frames name = some s :=
  h.getStringFrame name hlookup hs.1 hs.2

/-- A number that fits is read back. -/
theorem FrameTable.Holds.readUint (h : frames.Holds (fields.map Field.frame)) (name : FrameName)
    {opnum : ℕ} (hlookup : (fields.map Field.frame).lookup name = some (uintBytes opnum))
    (hopnum : FitsUint opnum) : getUintFrame frames name = some opnum :=
  getUintFrame_of_lookup ((h name).trans hlookup) hopnum

end Reads

/-! ### A request on the wire -/

/-- The part of a request that its handler reads. -/
def Sodaw.readPart (name : CallId Sodaw.Phase) (request : Body) : CallId Sodaw.Phase × Body :=
  match name.phase with
  | .writeGet | .readGet => (⟨[], 0, name.phase⟩, ⟨request.object, [], []⟩)
  | .writePut => (name, request)
  | .readValue | .readComplete => (name, ⟨request.object, request.tag, []⟩)

/-- The phase is always read. -/
theorem Sodaw.phase_readPart (name : CallId Sodaw.Phase) (request : Body) :
    (Sodaw.readPart name request).1.phase = name.phase := by
  obtain ⟨client, opnum, phase⟩ := name
  cases phase <;> rfl

/-- The handlers do not depend on what they do not read. -/
theorem Sodaw.algorithmSODAW_readPart (strcmp : Strcmp) (args : Sodaw.ServerArgs)
    (server : Sodaw.Server) (name : CallId Sodaw.Phase) (request : Body) :
    Sodaw.algorithmSODAW strcmp args server (Sodaw.readPart name request).1
        (Sodaw.readPart name request).2 =
      Sodaw.algorithmSODAW strcmp args server name request := by
  obtain ⟨client, opnum, phase⟩ := name
  cases phase <;> rfl

section Requests

variable {frames : FrameTable} {name : CallId Sodaw.Phase} {request : Body}

/-- The table of a request of SODAW. -/
abbrev Sodaw.RequestTable (frames : FrameTable) (name : CallId Sodaw.Phase) (request : Body) :
    Prop :=
  frames.Holds (((.sender, .text name.client) :: Sodaw.requestFields name request).map Field.frame)

theorem Sodaw.readRequest_eq (h : Sodaw.RequestTable frames name request)
    (hfits : Sodaw.RequestFits name request) :
    Sodaw.readRequest frames name.phase = some (Sodaw.readPart name request) := by
  have halgorithm : FitsBuffer Text.sodaw := by decide
  have htag := hfits.tag
  obtain ⟨client, opnum, phase⟩ := name
  obtain ⟨object, tag, payload⟩ := request
  have hobject := h.readString .object rfl hfits.object
  have hsender := h.readString .sender rfl hfits.client
  have hclient := h.readString .clientid rfl hfits.client
  have hsodaw := h.readString .algorithm rfl halgorithm
  have hopnum := h.readUint .opnum rfl hfits.opnum
  cases phase with
  | writeGet => simp [Sodaw.readRequest, hobject, Sodaw.readPart]
  | readGet => simp [Sodaw.readRequest, hobject, Sodaw.readPart]
  | writePut =>
    have hread := h.readString .tag rfl (htag (Or.inl rfl))
    have hpayload : frames.lookup .payload = some payload := h .payload
    simp [Sodaw.readRequest, hobject, hsender, hclient, hsodaw, hopnum, hread, hpayload,
      Sodaw.readPart]
  | readValue =>
    have hread := h.readString .tag rfl (htag (Or.inr (Or.inl rfl)))
    simp [Sodaw.readRequest, hobject, hsender, hclient, hsodaw, hopnum, hread, Sodaw.readPart]
  | readComplete =>
    have hread := h.readString .tag rfl (htag (Or.inr (Or.inr rfl)))
    simp [Sodaw.readRequest, hobject, hclient, hopnum, hread, Sodaw.readPart]

theorem Sodaw.requestFrames_eq (h : Sodaw.RequestTable frames name request)
    (hfits : Sodaw.RequestFits name request) :
    ServerMessage.ofFrames frames =
      some (.sodaw (.request (Sodaw.readPart name request).1
        (Sodaw.readPart name request).2)) := by
  have halgorithm := h.readString .algorithm rfl (by decide : FitsBuffer Text.sodaw)
  have hobject := h.readString .object rfl hfits.object
  have hphaseFits : FitsBuffer name.phase.text := by cases name.phase <;> decide
  have hphase : getStringFrame bufsize frames .phase = some name.phase.text :=
    h.readString .phase rfl hphaseFits
  have hmessage : Sodaw.Message.ofFrames frames =
      some (.request (Sodaw.readPart name request).1 (Sodaw.readPart name request).2) := by
    simp only [Sodaw.Message.ofFrames, hphase, hobject, Option.bind_eq_bind, Option.bind_some,
      Sodaw.Phase.ofText_text, Sodaw.readRequest_eq h hfits]
  rw [ServerMessage.ofFrames, halgorithm, Option.bind_eq_bind, Option.bind_some,
    if_neg (by decide), if_pos rfl, hmessage]
  rfl

end Requests

/-- What stands on the wire for what a handler sends on a request: elements and the response under
the identities of the clients, and notices. -/
def Sodaw.Output.wire (serverId : CString) (name : CallId Sodaw.Phase) (output : Sodaw.Output) :
    Sent where
  worker :=
    output.elements.map (fun element ↦
      (Value.text element.1.client).frame :: Colas.wire (elementFields serverId element)) ++
    output.response.toList.map fun response ↦
      (Value.text name.client).frame :: Colas.wire (Sodaw.responseFields serverId name response)
  servers := output.disperses.map fun notice ↦ Colas.wire (disperseFields .serverid notice)

/-- Elements carry renderings of tags. `READ_VALUE` sends them to the client that asks, and only
`WRITE_PUT` sends others. -/
theorem Sodaw.elements_of_algorithmSODAW {strcmp : Strcmp} {args : Sodaw.ServerArgs}
    {server server' : Sodaw.Server} {name : CallId Sodaw.Phase} {request : Body}
    {output : Sodaw.Output}
    (h : Sodaw.algorithmSODAW strcmp args server name request = some (server', output)) :
    (∀ element ∈ output.elements, element.2.tag = tagToString element.2.tagValue) ∧
      (name.phase = .readValue → ∀ element ∈ output.elements,
        element.1.client = name.client) ∧
      (name.phase ≠ .readValue → name.phase ≠ .writePut → output.elements = []) := by
  obtain ⟨client, opnum, phase⟩ := name
  cases phase with
  | writeGet =>
    obtain ⟨-, tag, rfl⟩ := Sodaw.report_cases h
    exact ⟨List.forall_mem_nil _, fun _ ↦ List.forall_mem_nil _, fun _ _ ↦ rfl⟩
  | readGet =>
    obtain ⟨-, tag, rfl⟩ := Sodaw.report_cases h
    exact ⟨List.forall_mem_nil _, fun _ ↦ List.forall_mem_nil _, fun _ _ ↦ rfl⟩
  | writePut =>
    obtain ⟨tagW, tag, -, -, ⟨-, -, rfl⟩ | ⟨-, -, rfl⟩⟩ := Sodaw.writePut_cases h
    · refine ⟨fun element helement ↦ ?_, fun hread ↦ absurd hread (by simp),
        fun _ hput ↦ absurd rfl hput⟩
      obtain ⟨reader, -, rfl⟩ := Sodaw.mem_relayed_elements.mp helement
      simp [Sodaw.codedElement]
    · exact ⟨List.forall_mem_nil _, fun _ ↦ List.forall_mem_nil _, fun _ _ ↦ rfl⟩
  | readValue =>
    obtain ⟨-, -, rfl⟩ | ⟨-, tagR, -, rfl | ⟨tagLoc, payload, rfl⟩⟩ := Sodaw.readValue_cases h
    · exact ⟨List.forall_mem_nil _, fun _ ↦ List.forall_mem_nil _, fun _ _ ↦ rfl⟩
    · exact ⟨List.forall_mem_nil _, fun _ ↦ List.forall_mem_nil _, fun _ _ ↦ rfl⟩
    · refine ⟨List.forall_mem_singleton.mpr ?_, fun _ ↦ List.forall_mem_singleton.mpr rfl,
        fun hread ↦ absurd rfl hread⟩
      simp [Sodaw.codedElement]
  | readComplete =>
    obtain ⟨rfl, -⟩ := Sodaw.readComplete_cases h
    exact ⟨List.forall_mem_nil _, fun _ ↦ List.forall_mem_nil _, fun _ _ ↦ rfl⟩

/-- `send_reader_coded_element` puts the fields of an element under the identity of the reader. -/
theorem Sodaw.sendElement_eq (serverId reader : CString) {element : CallId Sodaw.Phase × Body}
    (htag : element.2.tag = tagToString element.2.tagValue) :
    Sodaw.sendElement serverId Text.sodaw reader element =
      (Value.text reader).frame :: wire (elementFields serverId element) := by
  rw [elementFields, htag]
  rfl

section Sends

variable {frames : FrameTable} {name : CallId Sodaw.Phase} {request : Body}

theorem Sodaw.sendElements_eq (h : Sodaw.RequestTable frames name request)
    (hfits : Sodaw.RequestFits name request) (serverId : CString)
    {elements : List (CallId Sodaw.Phase × Body)}
    (htags : ∀ element ∈ elements, element.2.tag = tagToString element.2.tagValue)
    (hreader : name.phase = .readValue → ∀ element ∈ elements, element.1.client = name.client)
    (hnone : name.phase ≠ .readValue → name.phase ≠ .writePut → elements = []) :
    Sodaw.sendElements serverId frames name.phase elements =
      some (elements.map fun element ↦
        (Value.text element.1.client).frame :: wire (elementFields serverId element)) := by
  have halgorithm := h.readString .algorithm rfl (by decide : FitsBuffer Text.sodaw)
  have hsender := h.readString .sender rfl hfits.client
  obtain ⟨client, opnum, phase⟩ := name
  cases phase with
  | writePut =>
    simp only [Sodaw.sendElements, halgorithm, Option.bind_eq_bind, Option.bind_some,
      Option.some.injEq]
    exact List.map_congr_left fun element helement ↦
      Sodaw.sendElement_eq serverId _ (htags element helement)
  | readValue =>
    simp only [Sodaw.sendElements, hsender, halgorithm, Option.bind_eq_bind, Option.bind_some,
      Option.some.injEq]
    refine List.map_congr_left fun element helement ↦ ?_
    rw [Sodaw.sendElement_eq serverId _ (htags element helement),
      hreader rfl element helement]
  | writeGet =>
    rw [hnone (by simp) (by simp)]
    rfl
  | readGet =>
    rw [hnone (by simp) (by simp)]
    rfl
  | readComplete =>
    rw [hnone (by simp) (by simp)]
    rfl

/-- A handler puts on the wire what it sends. -/
theorem Sodaw.send_eq (h : Sodaw.RequestTable frames name request)
    (hfits : Sodaw.RequestFits name request) {strcmp : Strcmp} {args : Sodaw.ServerArgs}
    {server server' : Sodaw.Server} {output : Sodaw.Output}
    (hserver : Sodaw.algorithmSODAW strcmp args server name request = some (server', output)) :
    output.send args.serverId frames name.phase = some (output.wire args.serverId name) := by
  obtain ⟨htags, hreader, hnone⟩ := Sodaw.elements_of_algorithmSODAW hserver
  have helements := Sodaw.sendElements_eq h hfits args.serverId htags hreader hnone
  have hnotices : output.disperses.mapM sendDisperse =
      some (output.disperses.map fun notice ↦ wire (disperseFields .serverid notice)) :=
    mapM_eq_some_map fun notice _ ↦ rfl
  simp only [Sodaw.Output.send, helements, hnotices, Option.bind_eq_bind, Option.bind_some]
  cases hresponse : output.response with
  | none => simp [Sodaw.Output.wire, hresponse]
  | some response =>
    obtain ⟨hphase, hobject, htag⟩ := Sodaw.response_of_algorithmSODAW hserver hresponse
    have hsend := sodaw_sendResponse h hphase hobject htag args.serverId
    simp only [hsend, Option.bind_some]
    simp [Sodaw.Output.wire, hresponse, Colas.wire]

end Sends

/-- A process whose server of SODAW is another one. -/
def ServerProcess.withSodaw (process : ServerProcess) (server : Sodaw.Server) : ServerProcess :=
  { process with
    objectsSODAW := server.objects
    tables := server.tables
    status := server.status }

@[simp] theorem ServerProcess.sodaw_withSodaw (process : ServerProcess) (server : Sodaw.Server) :
    (process.withSodaw server).sodaw = server := rfl

/-- On the frames of a request that fits, a process does what the handler does on the request, and
sends the frames of what the handler sends. -/
theorem serverWorkerFrames_request (strcmp : Strcmp) (args : Sodaw.ServerArgs)
    (process : ServerProcess) {name : CallId Sodaw.Phase} {request : Body}
    (hfits : Sodaw.RequestFits name request) :
    process.serverWorkerFrames strcmp args (routerReceive (Value.text name.client).frame
        (wire (Sodaw.requestFields name request))) =
      (Sodaw.algorithmSODAW strcmp args process.sodaw name request).map fun result ↦
        (process.withSodaw result.1, result.2.wire args.serverId name) := by
  have hsend := sodaw_sendRequest name request
  obtain ⟨msg, hmsg, s, hreceive, -, -⟩ :=
    sodawRequest_parsed name request hfits.allValid hfits.object.2
  obtain rfl := Option.some.inj (hsend.symm.trans hmsg)
  have htable := sodaw_table hfits.allValid hfits.object.2 hmsg hreceive
  have hread := Sodaw.requestFrames_eq htable hfits
  have hhandle : process.sodaw.handle strcmp args (.request (Sodaw.readPart name request).1
      (Sodaw.readPart name request).2) =
        Sodaw.algorithmSODAW strcmp args process.sodaw name request :=
    Sodaw.algorithmSODAW_readPart strcmp args process.sodaw name request
  rw [ServerProcess.serverWorkerFrames, hreceive]
  simp only [Option.bind_eq_bind, Option.bind_some, hread, ServerProcess.serverWorker, hhandle]
  cases hserver : Sodaw.algorithmSODAW strcmp args process.sodaw name request with
  | none => rfl
  | some result =>
    have hsent := Sodaw.send_eq htable hfits hserver
    simp only [Option.bind_some, ServerOutput.send, Sodaw.phase_readPart, hsent, Option.map_some]
    rfl

/-! ### A notice on the wire -/

theorem Sodaw.noticeFrames_eq {frames : FrameTable} {notice : Sodaw.Disperse}
    (h : frames.Holds (((.sender, .text notice.clientid) ::
      disperseFields .clientid notice).map Field.frame))
    (hfits : Sodaw.NoticeFits notice) :
    ServerMessage.ofFrames frames = some (.sodaw (.disperse notice)) := by
  have halgorithm := h.readString .algorithm rfl (by decide : FitsBuffer Text.sodaw)
  have hphase := h.readString .phase rfl (by decide : FitsBuffer Text.readDisperse)
  have hobject := h.readString .object rfl hfits.object
  have hclient := h.readString .clientid rfl hfits.clientid
  have hsend := h.readString .metaSendTag rfl hfits.sendTag
  have hread := h.readString .metaReadTag rfl hfits.readTag
  have hreader := h.readString .metaReaderid rfl hfits.readerid
  have hopnum := h.readUint .opnum rfl hfits.opnum
  have hnotice : Sodaw.readNotice frames = some notice := by
    simp only [Sodaw.readNotice, hclient, hobject, hsend, hread, hreader, hopnum,
      Option.bind_eq_bind, Option.bind_some]
  have hnoPhase : Sodaw.Phase.ofText Text.readDisperse = none := by decide
  have hmessage : Sodaw.Message.ofFrames frames = some (.disperse notice) := by
    simp only [Sodaw.Message.ofFrames, hphase, hobject, Option.bind_eq_bind, Option.bind_some,
      hnoPhase, if_pos, hnotice, Option.map_some]
  rw [ServerMessage.ofFrames, halgorithm, Option.bind_eq_bind, Option.bind_some,
    if_neg (by decide), if_pos rfl, hmessage]
  rfl

/-- On the frames of a notice that fits, a process does what the handler does on the notice. -/
theorem serverWorkerFrames_notice (strcmp : Strcmp) (args : Sodaw.ServerArgs)
    (process : ServerProcess) {notice : Sodaw.Disperse} (hfits : Sodaw.NoticeFits notice) :
    process.serverWorkerFrames strcmp args (routerReceive (Value.text notice.clientid).frame
        (wire (disperseFields .serverid notice))) =
      (Sodaw.algorithmSODAWOnNotice args process.sodaw notice).map fun server ↦
        (process.withSodaw server, Sent.nothing) := by
  have hsend : sendDisperse notice = some (wire (disperseFields .serverid notice)) := rfl
  obtain ⟨msg, hmsg, s, hreceive, -, -⟩ :=
    disperse_parsed notice hfits.allValid hfits.object.2
  obtain rfl := Option.some.inj (hsend.symm.trans hmsg)
  have htable := holds_of_received rfl hfits.allValid hfits.object.2 (by decide) (by decide)
    hreceive
  have hread := Sodaw.noticeFrames_eq htable hfits
  rw [ServerProcess.serverWorkerFrames, hreceive]
  simp only [Option.bind_eq_bind, Option.bind_some, hread, ServerProcess.serverWorker,
    Sodaw.Server.handle]
  cases Sodaw.algorithmSODAWOnNotice args process.sodaw notice with
  | none => rfl
  | some server => rfl

end Colas
