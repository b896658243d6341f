import Colas.Abd.Server
import Colas.BaseProcess.Frames
import Colas.Sodaw.Server

/-!
# The messages of the two protocols on the wire

For every message that clients and servers send, the fields that its sender gives and the frames
that it puts on the wire: requests (`Abd.sendRequest`, `Sodaw.sendRequest`), responses, for which
the handlers insert frames into the table of the request (`Abd.sendResponse`,
`Sodaw.sendResponse`), coded elements (`sendReaderCodedElement`) and notices (`sendDisperse`).

`FramesParsed` says that the receivers parse all of them and find every field under its name. The
format has no names, and the receivers go by position: the first frame of a notice, which its sender
calls `SERVERID`, stands where a request has its `CLIENTID`, and that is the name under which the
handler of the notice looks for it. With this name all fields are found (`framesParsed`).
-/

set_option autoImplicit false
set_option relaxedAutoImplicit false

namespace Colas

/-- The values have the types of C. -/
def AllValid (fields : List Field) : Prop := ∀ field ∈ fields, field.2.Valid

instance : DecidablePred AllValid :=
  fun fields ↦ inferInstanceAs (Decidable (∀ field ∈ fields, field.2.Valid))

/-- A message under the identity of its sender is parsed by a server, and has these fields. -/
def ParsedAtServer (identity : CString) (sent : Option (List Frame)) (fields : List Field) : Prop :=
  ∃ msg, sent = some msg ∧ Parses ((.sender, .text identity) :: fields)
    (receiveMessageFramesAtServer (routerReceive (Value.text identity).frame msg))

/-- A message is routed to the client, which parses it, and has these fields. -/
def ParsedAtClient (client : CString) (sent : Option (List Frame)) (fields : List Field) : Prop :=
  ∃ msg rest, sent = some msg ∧ routerSend msg = some ((Value.text client).frame, rest) ∧
    Parses fields (receiveMessageFramesAtClient rest)

/-! ### Requests -/

/-- The fields of every request. -/
def requestHeader (client object algorithm phase : CString) (opnum : ℕ) : List Field :=
  [(.clientid, .text client), (.object, .text object), (.algorithm, .text algorithm),
    (.phase, .text phase), (.opnum, .number opnum)]

/-- `PHASE` of an ABD message. -/
def Abd.Phase.text : Abd.Phase → CString
  | .getTag => Text.getTag
  | .getTagValue => Text.getTagValue
  | .writeValue => Text.writeValue

/-- `PHASE` of a SODAW request. -/
def Sodaw.Phase.text : Sodaw.Phase → CString
  | .writeGet => Text.writeGet
  | .writePut => Text.writePut
  | .readGet => Text.readGet
  | .readValue => Text.readValue
  | .readComplete => Text.readComplete

/-- The fields of an ABD request. -/
def Abd.requestFields (name : CallId Abd.Phase) (request : Body) : List Field :=
  requestHeader name.client request.object Text.abd name.phase.text name.opnum ++
    match name.phase with
    | .getTag => []
    | .getTagValue => []
    | .writeValue => [(.tag, .text request.tag), (.payload, .data request.payload)]

/-- The frames that `get_tag_phase`, `ABD_get_max_tag_value_phase` and `ABD_write_value_phase` send
to every server. -/
def Abd.sendRequest (name : CallId Abd.Phase) (request : Body) : Option (List Frame) :=
  sendMulticastServers (Abd.requestFields name request)

/-- The fields of a SODAW request before the payload. -/
def Sodaw.requestStrings (name : CallId Sodaw.Phase) (request : Body) : List Field :=
  requestHeader name.client request.object Text.sodaw name.phase.text name.opnum ++
    match name.phase with
    | .writeGet => []
    | .readGet => []
    | .writePut => [(.tag, .text request.tag)]
    | .readValue => [(.tag, .text request.tag)]
    | .readComplete => [(.tag, .text request.tag)]

/-- The fields of a SODAW request. -/
def Sodaw.requestFields (name : CallId Sodaw.Phase) (request : Body) : List Field :=
  Sodaw.requestStrings name request ++
    if name.phase = .writePut then [(.payload, .data request.payload)] else []

/-- The frames that `SODAW_write_get_or_read_get_phase`, `SODAW_write_put_phase`,
`SODAW_read_value` and `SODAW_read_complete_phase` send to a server. -/
def Sodaw.sendRequest (name : CallId Sodaw.Phase) (request : Body) : Option (List Frame) :=
  match name.phase with
  | .writePut => sendMultisendServers (Sodaw.requestStrings name request) request.payload
  | .writeGet => sendMulticastServers (Sodaw.requestStrings name request)
  | .readGet => sendMulticastServers (Sodaw.requestStrings name request)
  | .readValue => sendMulticastServers (Sodaw.requestStrings name request)
  | .readComplete => sendMulticastServers (Sodaw.requestStrings name request)

/-- The fields of a `READ_DISPERSE`, whose first one stands under a name. -/
def disperseFields (origin : FrameName) (notice : Sodaw.Disperse) : List Field :=
  [(origin, .text notice.clientid), (.object, .text notice.object),
    (.algorithm, .text Text.sodaw), (.phase, .text Text.readDisperse),
    (.metaSendTag, .text notice.sendTag), (.metaReaderid, .text notice.readerid),
    (.metaReadTag, .text notice.readTag), (.opnum, .number notice.opnum)]

/-- The frames of a `READ_DISPERSE`, which its sender calls `SERVERID`, `OBJECT` and so on. -/
def sendDisperse (notice : Sodaw.Disperse) : Option (List Frame) :=
  sendMulticastServers (disperseFields .serverid notice)

/-! ### Responses -/

/-- The fields of every response. -/
def responseFields (serverId object algorithm phase : CString) (opnum : ℕ) (tag : CString) :
    List Field :=
  [(.serverid, .text serverId), (.object, .text object), (.algorithm, .text algorithm),
    (.phase, .text phase), (.opnum, .number opnum), (.tag, .text tag)]

/-- The names of the frames of every response. -/
def responseNames : List FrameName :=
  [.sender, .serverid, .object, .algorithm, .phase, .opnum, .tag]

/-- The fields of an ABD response. -/
def Abd.responseFields (serverId : CString) (name : CallId Abd.Phase) (response : Body) :
    List Field :=
  Colas.responseFields serverId response.object Text.abd name.phase.text name.opnum response.tag ++
    if name.phase = .getTagValue then [(.payload, .data response.payload)] else []

/-- What the handlers of `abd_server.c` insert into the frames of the request, and the frames that
they send. -/
def Abd.sendResponse (serverId : CString) (phase : Abd.Phase) (frames : FrameTable)
    (response : Body) : Option (List Frame) :=
  match phase with
  | .writeValue =>
    sendFramesAtServer ((frames.put .acknowledge (Value.text Text.success).frame).put .serverid
      (Value.text serverId).frame) responseNames
  | .getTag =>
    sendFramesAtServer ((frames.put .tag (Value.text response.tag).frame).put .serverid
      (Value.text serverId).frame) responseNames
  | .getTagValue =>
    sendFramesAtServer (((frames.put .tag (Value.text response.tag).frame).put .payload
      response.payload).put .serverid (Value.text serverId).frame) (responseNames ++ [.payload])

/-- The fields of a SODAW response. -/
def Sodaw.responseFields (serverId : CString) (name : CallId Sodaw.Phase) (response : Body) :
    List Field :=
  Colas.responseFields serverId response.object Text.sodaw name.phase.text name.opnum response.tag

/-- What the handlers of `sodaw_server.c` insert into the frames of the request, and the frames that
they send in response. -/
def Sodaw.sendResponse (serverId : CString) (phase : Sodaw.Phase) (frames : FrameTable)
    (response : Body) : Option (List Frame) :=
  if phase = .writePut then
    sendFramesAtServer (frames.put .serverid (Value.text serverId).frame) responseNames
  else
    sendFramesAtServer ((frames.put .tag (Value.text response.tag).frame).put .serverid
      (Value.text serverId).frame) responseNames

/-- `send_reader_coded_element`. -/
def sendReaderCodedElement (reader server object algorithm phase : CString) (tagw : Tag)
    (opnum : ℕ) (cs : Frame) : List Frame :=
  [(Value.text reader).frame, (Value.text server).frame, (Value.text object).frame,
    (Value.text algorithm).frame, (Value.text phase).frame, (Value.text (tagToString tagw)).frame,
    (Value.number opnum).frame, cs]

/-- The fields of a coded element. -/
def elementFields (serverId : CString) (element : CallId Sodaw.Phase × Body) : List Field :=
  [(.serverid, .text serverId), (.object, .text element.2.object), (.algorithm, .text Text.sodaw),
    (.phase, .text Text.readValue), (.tag, .text element.2.tag), (.opnum, .number element.1.opnum),
    (.payload, .data element.2.payload)]

/-! ### The round trip -/

/-- Every message is parsed, and every field is found under its name: the first field of a notice
under `origin`, and in messages to servers object names for which `fits` holds. A response is one
that a server sends on a request that it has parsed. -/
structure FramesParsed (origin : FrameName) (fits : CString → Prop) : Prop where
  abdRequest : ∀ name request, AllValid (Abd.requestFields name request) → fits request.object →
    ParsedAtServer name.client (Abd.sendRequest name request) (Abd.requestFields name request)
  abdResponse : ∀ strcmp initData server name request msg s server' response serverId,
    AllValid (Abd.requestFields name request) → fits request.object →
    Abd.sendRequest name request = some msg →
    receiveMessageFramesAtServer (routerReceive (Value.text name.client).frame msg) = some s →
    Abd.algorithmABD strcmp initData server name.phase request = some (server', response) →
    AllValid (Abd.responseFields serverId name response) →
      ParsedAtClient name.client (Abd.sendResponse serverId name.phase s.frames response)
        (Abd.responseFields serverId name response)
  sodawRequest : ∀ name request, AllValid (Sodaw.requestFields name request) →
    fits request.object →
    ParsedAtServer name.client (Sodaw.sendRequest name request) (Sodaw.requestFields name request)
  sodawResponse : ∀ strcmp args server name request msg s server' output response,
    AllValid (Sodaw.requestFields name request) → fits request.object →
    Sodaw.sendRequest name request = some msg →
    receiveMessageFramesAtServer (routerReceive (Value.text name.client).frame msg) = some s →
    Sodaw.algorithmSODAW strcmp args server name request = some (server', output) →
    output.response = some response →
    AllValid (Sodaw.responseFields args.serverId name response) →
      ParsedAtClient name.client (Sodaw.sendResponse args.serverId name.phase s.frames response)
        (Sodaw.responseFields args.serverId name response)
  element : ∀ serverId readerid opnum object tag cs,
    AllValid (elementFields serverId (Sodaw.codedElement readerid opnum object tag cs)) →
      ParsedAtClient readerid
        (some (sendReaderCodedElement readerid serverId object Text.sodaw Text.readValue tag opnum
          cs))
        (elementFields serverId (Sodaw.codedElement readerid opnum object tag cs))
  disperse : ∀ notice : Sodaw.Disperse, AllValid (disperseFields origin notice) →
    fits notice.object →
    ParsedAtServer notice.clientid (sendDisperse notice) (disperseFields origin notice)

section Requests

/-- The texts of the protocols fit into the buffers and have no terminator inside. -/
theorem Abd.Phase.text_fits (phase : Abd.Phase) : phase.text.length < bufsize := by
  cases phase <;> decide

theorem Sodaw.Phase.text_fits (phase : Sodaw.Phase) : phase.text.length < bufsize := by
  cases phase <;> decide

/-- What a server reads of a message whose fields after the phase are those for which it pops
frames. -/
theorem received_wire {client object algorithm phase : CString} {fields : List Field}
    (hnames : fields.map Prod.fst = namesAtServer algorithm phase)
    (hvalid : AllValid ((.clientid, .text client) :: (.object, .text object) ::
      (.algorithm, .text algorithm) :: (.phase, .text phase) :: fields))
    (hobject : object.length < bufsize) (halgorithm : algorithm.length < bufsize)
    (hphase : phase.length < bufsize) :
    ∃ frames names, receiveMessageFramesAtServer (routerReceive (Value.text client).frame
        (wire ((.clientid, .text client) :: (.object, .text object) ::
          (.algorithm, .text algorithm) :: (.phase, .text phase) :: fields))) =
            some ⟨[], frames, names⟩ ∧
      frames.Holds ((headerAtServer client client object algorithm phase ++ fields).map
        Field.frame) :=
  received_at_server hnames
    (List.forall_mem_cons.mpr ⟨hvalid (.clientid, .text client) List.mem_cons_self, hvalid⟩)
    hobject halgorithm hphase

theorem holds_of_received {client object algorithm phase : CString} {fields : List Field}
    {s : Incoming} (hnames : fields.map Prod.fst = namesAtServer algorithm phase)
    (hvalid : AllValid ((.clientid, .text client) :: (.object, .text object) ::
      (.algorithm, .text algorithm) :: (.phase, .text phase) :: fields))
    (hobject : object.length < bufsize) (halgorithm : algorithm.length < bufsize)
    (hphase : phase.length < bufsize)
    (hreceive : receiveMessageFramesAtServer (routerReceive (Value.text client).frame
      (wire ((.clientid, .text client) :: (.object, .text object) ::
        (.algorithm, .text algorithm) :: (.phase, .text phase) :: fields))) = some s) :
    s.frames.Holds ((headerAtServer client client object algorithm phase ++ fields).map
      Field.frame) := by
  obtain ⟨frames, names, hparsed, hholds⟩ :=
    received_wire hnames hvalid hobject halgorithm hphase
  obtain rfl := Option.some.inj (hparsed.symm.trans hreceive)
  exact hholds

/-- A message to a server whose fields after the phase are those for which the server pops
frames. -/
theorem parsedAtServer_wire {client object algorithm phase : CString} {fields : List Field}
    (hnames : fields.map Prod.fst = namesAtServer algorithm phase)
    (hnodup : (([.sender, .clientid, .object, .algorithm, .phase] : List FrameName) ++
      namesAtServer algorithm phase).Nodup)
    (hvalid : AllValid ((.clientid, .text client) :: (.object, .text object) ::
      (.algorithm, .text algorithm) :: (.phase, .text phase) :: fields))
    (hobject : object.length < bufsize) (halgorithm : algorithm.length < bufsize)
    (hphase : phase.length < bufsize) :
    ParsedAtServer client (some (wire ((.clientid, .text client) :: (.object, .text object) ::
        (.algorithm, .text algorithm) :: (.phase, .text phase) :: fields)))
      ((.clientid, .text client) :: (.object, .text object) :: (.algorithm, .text algorithm) ::
        (.phase, .text phase) :: fields) := by
  obtain ⟨frames, names, hreceive, hholds⟩ :=
    received_wire hnames hvalid hobject halgorithm hphase
  refine ⟨_, rfl, ?_⟩
  rw [hreceive]
  have hfst : (headerAtServer client client object algorithm phase ++ fields).map Prod.fst =
      [.sender, .clientid, .object, .algorithm, .phase] ++ namesAtServer algorithm phase := by
    rw [List.map_append, hnames]
    rfl
  exact parses_of_holds names hholds (hfst ▸ hnodup)
    (List.forall_mem_cons.mpr ⟨hvalid (.clientid, .text client) List.mem_cons_self, hvalid⟩)

theorem abd_sendRequest (name : CallId Abd.Phase) (request : Body) :
    Abd.sendRequest name request = some (wire (Abd.requestFields name request)) := by
  obtain ⟨client, opnum, phase⟩ := name
  cases phase <;> rfl

theorem sodaw_sendRequest (name : CallId Sodaw.Phase) (request : Body) :
    Sodaw.sendRequest name request = some (wire (Sodaw.requestFields name request)) := by
  obtain ⟨client, opnum, phase⟩ := name
  cases phase <;> rfl

/-- A server pops frames under different names. -/
theorem nodup_namesAtServer_abd (phase : Abd.Phase) :
    (([.sender, .clientid, .object, .algorithm, .phase] : List FrameName) ++
      namesAtServer Text.abd phase.text).Nodup := by
  cases phase <;> decide

theorem nodup_namesAtServer_sodaw (phase : Sodaw.Phase) :
    (([.sender, .clientid, .object, .algorithm, .phase] : List FrameName) ++
      namesAtServer Text.sodaw phase.text).Nodup := by
  cases phase <;> decide

theorem abdRequest_parsed (name : CallId Abd.Phase) (request : Body)
    (hvalid : AllValid (Abd.requestFields name request))
    (hobject : request.object.length < bufsize) :
    ParsedAtServer name.client (Abd.sendRequest name request)
      (Abd.requestFields name request) := by
  rw [abd_sendRequest]
  have habd : Text.abd.length < bufsize := by decide
  obtain ⟨client, opnum, phase⟩ := name
  have hnodup := nodup_namesAtServer_abd phase
  have hphase := phase.text_fits
  cases phase with
  | getTag => exact parsedAtServer_wire rfl hnodup hvalid hobject habd hphase
  | getTagValue => exact parsedAtServer_wire rfl hnodup hvalid hobject habd hphase
  | writeValue => exact parsedAtServer_wire rfl hnodup hvalid hobject habd hphase

theorem sodawRequest_parsed (name : CallId Sodaw.Phase) (request : Body)
    (hvalid : AllValid (Sodaw.requestFields name request))
    (hobject : request.object.length < bufsize) :
    ParsedAtServer name.client (Sodaw.sendRequest name request)
      (Sodaw.requestFields name request) := by
  rw [sodaw_sendRequest]
  have hsodaw : Text.sodaw.length < bufsize := by decide
  obtain ⟨client, opnum, phase⟩ := name
  have hnodup := nodup_namesAtServer_sodaw phase
  have hphase := phase.text_fits
  cases phase with
  | writeGet => exact parsedAtServer_wire rfl hnodup hvalid hobject hsodaw hphase
  | writePut => exact parsedAtServer_wire rfl hnodup hvalid hobject hsodaw hphase
  | readGet => exact parsedAtServer_wire rfl hnodup hvalid hobject hsodaw hphase
  | readValue => exact parsedAtServer_wire rfl hnodup hvalid hobject hsodaw hphase
  | readComplete => exact parsedAtServer_wire rfl hnodup hvalid hobject hsodaw hphase

theorem disperse_parsed (notice : Sodaw.Disperse)
    (hvalid : AllValid (disperseFields .clientid notice))
    (hobject : notice.object.length < bufsize) :
    ParsedAtServer notice.clientid (sendDisperse notice) (disperseFields .clientid notice) :=
  parsedAtServer_wire rfl (by decide) hvalid hobject (by decide) (by decide)

end Requests

section Responses

/-- Sending the frames of fields that stand in the table. -/
theorem sendFramesAtServer_eq {frames : FrameTable} {entries : List (FrameName × Frame)}
    (h : frames.Holds entries) (fields : List Field)
    (hlookup : ∀ field ∈ fields, entries.lookup field.1 = some field.2.frame) :
    sendFramesAtServer frames (fields.map Prod.fst) = some (wire fields) := by
  rw [sendFramesAtServer, List.mapM_map]
  exact mapM_eq_some_map fun field hfield ↦ (h field.1).trans (hlookup field hfield)

/-- A message to a client whose fields after the phase are those for which the client pops
frames. -/
theorem parsedAtClient_wire {client serverid object algorithm phase : CString}
    {fields : List Field} (hnames : fields.map Prod.fst = namesAtClient algorithm phase)
    (hnodup : (([.serverid, .object, .algorithm, .phase] : List FrameName) ++
      namesAtClient algorithm phase).Nodup)
    (hvalid : AllValid (headerAtClient serverid object algorithm phase ++ fields))
    (halgorithm : algorithm.length < bufsize) (hphase : phase.length < bufsize) :
    ParsedAtClient client (some (wire ((.sender, .text client) ::
        (headerAtClient serverid object algorithm phase ++ fields))))
      (headerAtClient serverid object algorithm phase ++ fields) := by
  have hfst : (headerAtClient serverid object algorithm phase ++ fields).map Prod.fst =
      [.serverid, .object, .algorithm, .phase] ++ namesAtClient algorithm phase := by
    rw [List.map_append, hnames]
    rfl
  exact ⟨_, _, rfl, rfl, parses_at_client hnames (hfst ▸ hnodup) hvalid halgorithm hphase⟩

theorem nodup_namesAtClient_abd (phase : Abd.Phase) :
    (([.serverid, .object, .algorithm, .phase] : List FrameName) ++
      namesAtClient Text.abd phase.text).Nodup := by
  cases phase <;> decide

theorem nodup_namesAtClient_sodaw (phase : Sodaw.Phase) :
    (([.serverid, .object, .algorithm, .phase] : List FrameName) ++
      namesAtClient Text.sodaw phase.text).Nodup := by
  cases phase <;> decide

/-- The table of a request that a server has parsed. -/
theorem abd_table {name : CallId Abd.Phase} {request : Body} {msg : List Frame} {s : Incoming}
    (hvalid : AllValid (Abd.requestFields name request))
    (hobject : request.object.length < bufsize) (hmsg : Abd.sendRequest name request = some msg)
    (hreceive : receiveMessageFramesAtServer
      (routerReceive (Value.text name.client).frame msg) = some s) :
    s.frames.Holds (((.sender, .text name.client) :: Abd.requestFields name request).map
      Field.frame) := by
  rw [abd_sendRequest, Option.some.injEq] at hmsg
  subst hmsg
  have habd : Text.abd.length < bufsize := by decide
  obtain ⟨client, opnum, phase⟩ := name
  have hphase := phase.text_fits
  cases phase with
  | getTag => exact holds_of_received rfl hvalid hobject habd hphase hreceive
  | getTagValue => exact holds_of_received rfl hvalid hobject habd hphase hreceive
  | writeValue => exact holds_of_received rfl hvalid hobject habd hphase hreceive

/-- A server sends the fields of a response under the identity of the client. -/
theorem abd_sendResponse {name : CallId Abd.Phase} {request response : Body} {frames : FrameTable}
    (h : frames.Holds (((.sender, .text name.client) :: Abd.requestFields name request).map
      Field.frame))
    (hobject : response.object = request.object)
    (htag : name.phase = .writeValue → response.tag = request.tag) (serverId : CString) :
    Abd.sendResponse serverId name.phase frames response =
      some (wire ((.sender, .text name.client) ::
        Abd.responseFields serverId name response)) := by
  obtain ⟨client, opnum, phase⟩ := name
  obtain ⟨object, tag, payload⟩ := request
  obtain ⟨object', tag', payload'⟩ := response
  obtain rfl : object' = object := hobject
  cases phase with
  | getTag =>
    refine sendFramesAtServer_eq ((h.put .tag _).put .serverid _)
      ((.sender, .text client) :: Abd.responseFields serverId ⟨client, opnum, .getTag⟩ _) ?_
    simp only [Abd.responseFields, Colas.responseFields, reduceCtorEq, if_false, List.append_nil,
      List.forall_mem_cons]
    exact ⟨rfl, rfl, rfl, rfl, rfl, rfl, rfl, List.forall_mem_nil _⟩
  | getTagValue =>
    refine sendFramesAtServer_eq (((h.put .tag _).put .payload _).put .serverid _)
      ((.sender, .text client) :: Abd.responseFields serverId ⟨client, opnum, .getTagValue⟩ _) ?_
    simp only [Abd.responseFields, Colas.responseFields, if_true, List.cons_append,
      List.nil_append, List.forall_mem_cons]
    exact ⟨rfl, rfl, rfl, rfl, rfl, rfl, rfl, rfl, List.forall_mem_nil _⟩
  | writeValue =>
    obtain rfl : tag' = tag := htag rfl
    refine sendFramesAtServer_eq ((h.put .acknowledge _).put .serverid _)
      ((.sender, .text client) :: Abd.responseFields serverId ⟨client, opnum, .writeValue⟩ _) ?_
    simp only [Abd.responseFields, Colas.responseFields, reduceCtorEq, if_false, List.append_nil,
      List.forall_mem_cons]
    exact ⟨rfl, rfl, rfl, rfl, rfl, rfl, rfl, List.forall_mem_nil _⟩

theorem abdResponse_parsed {strcmp : Strcmp} {initData : Frame} {server server' : Abd.Server}
    {name : CallId Abd.Phase} {request response : Body} {msg : List Frame} {s : Incoming}
    (serverId : CString) (hvalid : AllValid (Abd.requestFields name request))
    (hobject : request.object.length < bufsize) (hmsg : Abd.sendRequest name request = some msg)
    (hreceive : receiveMessageFramesAtServer
      (routerReceive (Value.text name.client).frame msg) = some s)
    (hserver : Abd.algorithmABD strcmp initData server name.phase request =
      some (server', response))
    (hresponse : AllValid (Abd.responseFields serverId name response)) :
    ParsedAtClient name.client (Abd.sendResponse serverId name.phase s.frames response)
      (Abd.responseFields serverId name response) := by
  obtain ⟨hrepeats, htag⟩ := Abd.response_of_algorithmABD hserver
  rw [abd_sendResponse (abd_table hvalid hobject hmsg hreceive) hrepeats htag]
  have habd : Text.abd.length < bufsize := by decide
  obtain ⟨client, opnum, phase⟩ := name
  have hnodup := nodup_namesAtClient_abd phase
  have hphase := phase.text_fits
  cases phase with
  | getTag => exact parsedAtClient_wire rfl hnodup hresponse habd hphase
  | getTagValue => exact parsedAtClient_wire rfl hnodup hresponse habd hphase
  | writeValue => exact parsedAtClient_wire rfl hnodup hresponse habd hphase

/-- The table of a request that a server has parsed. -/
theorem sodaw_table {name : CallId Sodaw.Phase} {request : Body} {msg : List Frame} {s : Incoming}
    (hvalid : AllValid (Sodaw.requestFields name request))
    (hobject : request.object.length < bufsize) (hmsg : Sodaw.sendRequest name request = some msg)
    (hreceive : receiveMessageFramesAtServer
      (routerReceive (Value.text name.client).frame msg) = some s) :
    s.frames.Holds (((.sender, .text name.client) :: Sodaw.requestFields name request).map
      Field.frame) := by
  rw [sodaw_sendRequest, Option.some.injEq] at hmsg
  subst hmsg
  have hsodaw : Text.sodaw.length < bufsize := by decide
  obtain ⟨client, opnum, phase⟩ := name
  have hphase := phase.text_fits
  cases phase with
  | writeGet => exact holds_of_received rfl hvalid hobject hsodaw hphase hreceive
  | writePut => exact holds_of_received rfl hvalid hobject hsodaw hphase hreceive
  | readGet => exact holds_of_received rfl hvalid hobject hsodaw hphase hreceive
  | readValue => exact holds_of_received rfl hvalid hobject hsodaw hphase hreceive
  | readComplete => exact holds_of_received rfl hvalid hobject hsodaw hphase hreceive

theorem sodaw_sendResponse {name : CallId Sodaw.Phase} {request response : Body}
    {frames : FrameTable}
    (h : frames.Holds (((.sender, .text name.client) :: Sodaw.requestFields name request).map
      Field.frame))
    (hphase : name.phase = .writeGet ∨ name.phase = .readGet ∨ name.phase = .writePut)
    (hobject : response.object = request.object)
    (htag : name.phase = .writePut → response.tag = request.tag) (serverId : CString) :
    Sodaw.sendResponse serverId name.phase frames response =
      some (wire ((.sender, .text name.client) ::
        Sodaw.responseFields serverId name response)) := by
  obtain ⟨client, opnum, phase⟩ := name
  obtain ⟨object, tag, payload⟩ := request
  obtain ⟨object', tag', payload'⟩ := response
  obtain rfl : object' = object := hobject
  rcases hphase with hget | hget | hput
  · obtain rfl : phase = .writeGet := hget
    refine sendFramesAtServer_eq ((h.put .tag _).put .serverid _)
      ((.sender, .text client) :: Sodaw.responseFields serverId ⟨client, opnum, .writeGet⟩ _) ?_
    simp only [Sodaw.responseFields, Colas.responseFields, List.forall_mem_cons]
    exact ⟨rfl, rfl, rfl, rfl, rfl, rfl, rfl, List.forall_mem_nil _⟩
  · obtain rfl : phase = .readGet := hget
    refine sendFramesAtServer_eq ((h.put .tag _).put .serverid _)
      ((.sender, .text client) :: Sodaw.responseFields serverId ⟨client, opnum, .readGet⟩ _) ?_
    simp only [Sodaw.responseFields, Colas.responseFields, List.forall_mem_cons]
    exact ⟨rfl, rfl, rfl, rfl, rfl, rfl, rfl, List.forall_mem_nil _⟩
  · obtain rfl : phase = .writePut := hput
    obtain rfl : tag' = tag := htag rfl
    refine sendFramesAtServer_eq (h.put .serverid _)
      ((.sender, .text client) :: Sodaw.responseFields serverId ⟨client, opnum, .writePut⟩ _) ?_
    simp only [Sodaw.responseFields, Colas.responseFields, List.forall_mem_cons]
    exact ⟨rfl, rfl, rfl, rfl, rfl, rfl, rfl, List.forall_mem_nil _⟩

theorem sodawResponse_parsed {strcmp : Strcmp} {args : Sodaw.ServerArgs}
    {server server' : Sodaw.Server} {name : CallId Sodaw.Phase} {request response : Body}
    {msg : List Frame} {s : Incoming} {output : Sodaw.Output}
    (hvalid : AllValid (Sodaw.requestFields name request))
    (hobject : request.object.length < bufsize) (hmsg : Sodaw.sendRequest name request = some msg)
    (hreceive : receiveMessageFramesAtServer
      (routerReceive (Value.text name.client).frame msg) = some s)
    (hserver : Sodaw.algorithmSODAW strcmp args server name request = some (server', output))
    (houtput : output.response = some response)
    (hresponse : AllValid (Sodaw.responseFields args.serverId name response)) :
    ParsedAtClient name.client (Sodaw.sendResponse args.serverId name.phase s.frames response)
      (Sodaw.responseFields args.serverId name response) := by
  obtain ⟨hphase, hrepeats, htag⟩ := Sodaw.response_of_algorithmSODAW hserver houtput
  rw [sodaw_sendResponse (sodaw_table hvalid hobject hmsg hreceive) hphase hrepeats htag]
  have hsodaw : Text.sodaw.length < bufsize := by decide
  obtain ⟨client, opnum, phase⟩ := name
  have hnodup := nodup_namesAtClient_sodaw phase
  have hfits := phase.text_fits
  rcases hphase with hget | hget | hput
  · obtain rfl : phase = .writeGet := hget
    exact parsedAtClient_wire rfl hnodup hresponse hsodaw hfits
  · obtain rfl : phase = .readGet := hget
    exact parsedAtClient_wire rfl hnodup hresponse hsodaw hfits
  · obtain rfl : phase = .writePut := hput
    exact parsedAtClient_wire rfl hnodup hresponse hsodaw hfits

theorem element_parsed (serverId readerid : CString) (opnum : ℕ) (object : CString) (tag : Tag)
    (cs : Frame)
    (hvalid : AllValid (elementFields serverId
      (Sodaw.codedElement readerid opnum object tag cs))) :
    ParsedAtClient readerid
      (some (sendReaderCodedElement readerid serverId object Text.sodaw Text.readValue tag opnum
        cs))
      (elementFields serverId (Sodaw.codedElement readerid opnum object tag cs)) :=
  parsedAtClient_wire rfl (nodup_namesAtClient_sodaw .readValue) hvalid (by decide) (by decide)

end Responses

/-! ### All messages -/

/-- Every message is parsed completely and every field is found under its name, that of the sender
of a notice under `CLIENTID`, as long as object names fit into the buffer of the servers. -/
theorem framesParsed : FramesParsed .clientid fun object ↦ object.length < bufsize where
  abdRequest := abdRequest_parsed
  abdResponse _ _ _ _ _ _ _ _ _ serverId hvalid hobject hmsg hreceive hserver hresponse :=
    abdResponse_parsed serverId hvalid hobject hmsg hreceive hserver hresponse
  sodawRequest := sodawRequest_parsed
  sodawResponse _ _ _ _ _ _ _ _ _ _ hvalid hobject hmsg hreceive hserver houtput hresponse :=
    sodawResponse_parsed hvalid hobject hmsg hreceive hserver houtput hresponse
  element := element_parsed
  disperse := disperse_parsed

/-- A server finds nothing under `SERVERID` in a notice. -/
theorem serverid_of_disperse {notice : Sodaw.Disperse} {s : Incoming}
    (hvalid : AllValid (disperseFields .clientid notice))
    (hobject : notice.object.length < bufsize)
    (h : receiveMessageFramesAtServer (routerReceive (Value.text notice.clientid).frame
      (wire (disperseFields .clientid notice))) = some s) (size : ℕ) :
    getStringFrame size s.frames .serverid = some [] := by
  have hholds := holds_of_received rfl hvalid hobject (by decide) (by decide) h
  have hnone : s.frames.lookup .serverid = none := hholds .serverid
  rw [getStringFrame, hnone]

/-- A server that is told an object name of the size of its buffer writes outside of it. -/
theorem receive_of_long_object (identity client object : CString) (rest : List Frame)
    (hlong : bufsize ≤ (Value.text object).frame.length) :
    receiveMessageFramesAtServer ((Value.text identity).frame :: (Value.text client).frame ::
      (Value.text object).frame :: rest) = none := by
  obtain ⟨frames, hpop, hholds⟩ := popAll_wire [] holds_empty
    [(.sender, .text identity), (.clientid, .text client), (.object, .text object)] rest []
  have hlookup : frames.lookup .object = some (Value.text object).frame := hholds .object
  have hread : getStringFrame bufsize frames .object = none := by
    rw [getStringFrame, hlookup]
    exact if_neg (not_lt.mpr hlong)
  have hheader : popAll ⟨(Value.text identity).frame :: (Value.text client).frame ::
      (Value.text object).frame :: rest, ∅, []⟩ [.sender, .clientid, .object] =
        some ⟨rest, frames, [.sender, .clientid, .object]⟩ := hpop
  rw [receiveMessageFramesAtServer, hheader]
  simp only [Option.bind_eq_bind, Option.bind_some, hread, Option.bind_none]

/-- The notice of `s` about object `o`, `1_w` and the first read of `r`. -/
def sampleNotice : Sodaw.Disperse :=
  ⟨ascii ['s'], ascii ['o'], ascii ['1', '_', 'w'], ascii ['r'], ascii ['1', '_', 'w'], 1⟩

/-- The notice has nothing under the name that its sender gives to `s`, and a server does not parse
the request of `w` for the tag of an object with a name of 100 bytes. -/
theorem not_framesParsed : ¬ FramesParsed .serverid (fun _ ↦ True) ∧
    ¬ FramesParsed .serverid (fun object ↦ object.length < bufsize) ∧
      ¬ FramesParsed .clientid (fun _ ↦ True) := by
  have hnotice : ¬ ParsedAtServer sampleNotice.clientid (sendDisperse sampleNotice)
      (disperseFields .serverid sampleNotice) := by
    rintro ⟨msg, hsent, s, hreceive, -, hyields⟩
    obtain rfl := Option.some.inj hsent
    have hnone := serverid_of_disperse (by decide) (by decide) hreceive bufsize
    have hserverid : getStringFrame bufsize s.frames .serverid = some sampleNotice.clientid :=
      hyields (.serverid, .text sampleNotice.clientid) (List.mem_cons_of_mem _ List.mem_cons_self)
        bufsize (by decide)
    exact absurd (hnone.symm.trans hserverid) (by decide)
  have hobject : ¬ ParsedAtServer (ascii ['w'])
      (Abd.sendRequest ⟨ascii ['w'], 1, .getTag⟩ ⟨List.replicate 100 97, [], []⟩)
      (Abd.requestFields ⟨ascii ['w'], 1, .getTag⟩ ⟨List.replicate 100 97, [], []⟩) := by
    rintro ⟨msg, hsent, s, hreceive, -⟩
    obtain rfl := Option.some.inj hsent
    have hnone := receive_of_long_object (ascii ['w']) (ascii ['w']) (List.replicate 100 97)
      [(Value.text Text.abd).frame, (Value.text Text.getTag).frame, (Value.number 1).frame]
      (by decide)
    exact absurd (hnone.symm.trans hreceive) (by simp)
  exact ⟨fun h ↦ hnotice (h.disperse _ (by decide) trivial),
    fun h ↦ hnotice (h.disperse _ (by decide) (by decide)),
    fun h ↦ hobject (h.abdRequest _ _ (by decide) trivial)⟩

end Colas
