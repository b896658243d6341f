import Colas.Abd.Limits

/-!
# ABD on frames

What a server process and a client process do with the frames of a message of ABD. The server finds
the request in them and sends the frames of its response (`serverWorkerFrames_abd`), as it does for
SODAW. The loops of the client read the frames that they need (`Client.receiveFrames`), and each of
them prints the messages that it looks at with `print_out_hash_in_order`, which ends the process on
a payload of less than 100 bytes. The loop of a read prints every message before it compares it with
its request, the two others print only what they count.

On the frames of a response a client does what it does on the response
(`Client.receiveFrames_response`).
-/

set_option autoImplicit false
set_option relaxedAutoImplicit false

namespace Colas

/-! ### Printing the frames -/

/-- `PAYLOADBUF_SIZE`. -/
def payloadbufSize : ℕ := 3000

/-- `print_out_hash_in_order`, and whether the process goes on after it. -/
def printOutHashInOrder (frames : FrameTable) : List FrameName → Option Bool
  | [] => some true
  | name :: names =>
    if name = .opnum then do
      let _tempInt ← getUintFrame frames name
      printOutHashInOrder frames names
    else if name = .payload then do
      let payload ← frames.lookup name
      if payload.length < 100 then some false else printOutHashInOrder frames names
    else do
      let _buf ← getStringFrame payloadbufSize frames name
      printOutHashInOrder frames names

/-- The field is printed as what it is. -/
def Field.Printable (field : Field) : Prop :=
  if field.1 = .opnum then ∃ n, field.2 = .number n
  else if field.1 = .payload then ∃ bytes, field.2 = .data bytes
  else ∃ s, field.2 = .text s ∧ s.length < payloadbufSize

/-- The process goes on after it has printed the field. -/
def Field.goesOn : Field → Bool
  | (.payload, .data bytes) => 100 ≤ bytes.length
  | _ => true

theorem Field.goesOn_of_ne {name : FrameName} (hname : name ≠ .payload) (value : Value) :
    Field.goesOn (name, value) = true := by
  unfold Field.goesOn
  split
  next bytes heq => exact absurd (congrArg Prod.fst heq) hname
  next => rfl

/-- If the frames of all fields are there, printing them ends the process exactly if a payload has
less than 100 bytes. -/
theorem printOutHashInOrder_eq {frames : FrameTable} {fields : List Field}
    (hyields : ∀ field ∈ fields, frames.Yields field.1 field.2)
    (hprintable : ∀ field ∈ fields, field.Printable) :
    printOutHashInOrder frames (fields.map Prod.fst) = some (fields.all Field.goesOn) := by
  induction fields with
  | nil => rfl
  | cons field fields ih =>
    obtain ⟨hyield, hyields⟩ := List.forall_mem_cons.mp hyields
    obtain ⟨hprint, hprintable⟩ := List.forall_mem_cons.mp hprintable
    have hrest := ih hyields hprintable
    obtain ⟨name, value⟩ := field
    rw [List.map_cons, printOutHashInOrder, List.all_cons, hrest]
    by_cases hopnum : name = .opnum
    · subst hopnum
      obtain ⟨number, rfl⟩ : ∃ number, value = .number number := hprint
      have hread : getUintFrame frames .opnum = some number := hyield
      rw [if_pos rfl, hread, Field.goesOn_of_ne (by decide)]
      rfl
    · by_cases hpayload : name = .payload
      · subst hpayload
        obtain ⟨bytes, rfl⟩ : ∃ bytes, value = .data bytes := hprint
        have hread : frames.lookup .payload = some bytes := hyield
        rw [if_neg hopnum, if_pos rfl, hread, Option.bind_eq_bind, Option.bind_some]
        by_cases hsmall : bytes.length < 100
        · simp [hsmall, Field.goesOn]
        · simp [hsmall, Field.goesOn, not_lt.mp hsmall]
      · obtain ⟨s, rfl, hlength⟩ : ∃ s, value = .text s ∧ s.length < payloadbufSize := by
          simpa only [Field.Printable, if_neg hopnum, if_neg hpayload] using hprint
        have hread : getStringFrame payloadbufSize frames name = some s := hyield _ hlength
        rw [if_neg hopnum, if_neg hpayload, hread, Field.goesOn_of_ne hpayload]
        rfl

/-- A text that fits a buffer of `BUFSIZE` bytes can be printed. -/
theorem Field.printable_text {name : FrameName} {s : CString} (hopnum : name ≠ .opnum)
    (hpayload : name ≠ .payload) (hs : s.length < bufsize) :
    Field.Printable (name, .text s) := by
  rw [Field.Printable, if_neg hopnum, if_neg hpayload]
  exact ⟨s, rfl, hs.trans (by decide)⟩

namespace Abd

variable {n : ℕ}

/-! ### A request at a server -/

/-- The part of a request that its handler reads. -/
def readPart (phase : Phase) (request : Body) : Body :=
  match phase with
  | .getTag | .getTagValue => ⟨request.object, [], []⟩
  | .writeValue => request

/-- The handlers do not depend on what they do not read. -/
theorem algorithmABD_readPart (strcmp : Strcmp) (initData : Frame) (server : Server)
    (phase : Phase) (request : Body) :
    algorithmABD strcmp initData server phase (readPart phase request) =
      algorithmABD strcmp initData server phase request := by
  cases phase <;> rfl

theorem RequestFits.allValid {name : CallId Phase} {request : Body} (h : RequestFits name request) :
    AllValid (Abd.requestFields name request) := by
  have hphase : 0 ∉ name.phase.text := by cases name.phase <;> decide
  have hheader := allValid_requestHeader h.call.client h.call.object h.call.opnum
    (by decide : 0 ∉ Text.abd) hphase
  obtain ⟨client, opnum, phase⟩ := name
  cases phase with
  | getTag => exact hheader.append allValid_nil
  | getTagValue => exact hheader.append allValid_nil
  | writeValue =>
    refine hheader.append (List.forall_mem_cons.mpr ⟨(h.tag rfl).1, ?_⟩)
    exact List.forall_mem_singleton.mpr trivial

section Requests

variable {frames : FrameTable} {name : CallId Phase} {request : Body}

/-- The table of a request of ABD. -/
abbrev RequestTable (frames : FrameTable) (name : CallId Phase) (request : Body) : Prop :=
  frames.Holds (((.sender, .text name.client) :: Abd.requestFields name request).map Field.frame)

theorem readRequest_eq (h : RequestTable frames name request) (hfits : RequestFits name request) :
    readRequest frames name.phase = some (readPart name.phase request) := by
  have htag := hfits.tag
  obtain ⟨client, opnum, phase⟩ := name
  obtain ⟨object, tag, payload⟩ := request
  have hobject := h.readString .object rfl hfits.call.object
  have hopnum := h.readUint .opnum rfl hfits.call.opnum
  cases phase with
  | getTag => simp [readRequest, hobject, hopnum, readPart]
  | getTagValue => simp [readRequest, hobject, readPart]
  | writeValue =>
    have hread := h.readString .tag rfl (htag rfl)
    have hpayload : frames.lookup .payload = some payload := h .payload
    simp [readRequest, hobject, hread, hpayload, readPart]

theorem requestFrames_eq (h : RequestTable frames name request)
    (hfits : RequestFits name request) :
    ServerMessage.ofFrames frames = some (.abd name.phase (readPart name.phase request)) := by
  have halgorithm := h.readString .algorithm rfl (by decide : FitsBuffer Text.abd)
  have hobject := h.readString .object rfl hfits.call.object
  have hphaseFits : FitsBuffer name.phase.text := by cases name.phase <;> decide
  have hphase : getStringFrame bufsize frames .phase = some name.phase.text :=
    h.readString .phase rfl hphaseFits
  simp only [ServerMessage.ofFrames, halgorithm, hphase, hobject, Option.bind_eq_bind,
    Option.bind_some, if_pos, Phase.ofText_text, readRequest_eq h hfits, Option.map_some]

end Requests

end Abd

/-- A process whose server of ABD is another one. -/
def ServerProcess.withAbd (process : ServerProcess) (server : Abd.Server) : ServerProcess :=
  { process with
    objectsABD := server.objects
    status := server.status }

@[simp] theorem ServerProcess.abd_withAbd (process : ServerProcess) (server : Abd.Server) :
    (process.withAbd server).abd = server := rfl

/-- On the frames of a request of ABD that fits, a process does what the handler does on the
request, and sends the frames of the response under the identity of the client. -/
theorem serverWorkerFrames_abd (strcmp : Strcmp) (args : Sodaw.ServerArgs)
    (process : ServerProcess) {name : CallId Abd.Phase} {request : Body}
    (hfits : Abd.RequestFits name request) :
    process.serverWorkerFrames strcmp args (routerReceive (Value.text name.client).frame
        (wire (Abd.requestFields name request))) =
      (Abd.algorithmABD strcmp args.initData process.abd name.phase request).map fun result ↦
        (process.withAbd result.1, Sent.reply ((Value.text name.client).frame ::
          wire (Abd.responseFields args.serverId name result.2))) := by
  have hsend := abd_sendRequest name request
  obtain ⟨msg, hmsg, s, hreceive, -, -⟩ :=
    abdRequest_parsed name request hfits.allValid hfits.call.object.2
  obtain rfl := Option.some.inj (hsend.symm.trans hmsg)
  have htable := abd_table hfits.allValid hfits.call.object.2 hmsg hreceive
  have hread := Abd.requestFrames_eq htable hfits
  have hhandle := Abd.algorithmABD_readPart strcmp args.initData process.abd name.phase request
  rw [ServerProcess.serverWorkerFrames, hreceive]
  simp only [Option.bind_eq_bind, Option.bind_some, hread, ServerProcess.serverWorker, hhandle]
  cases hserver : Abd.algorithmABD strcmp args.initData process.abd name.phase request with
  | none => rfl
  | some result =>
    obtain ⟨hobject, htag⟩ := Abd.response_of_algorithmABD hserver
    have hsent := abd_sendResponse htable hobject htag args.serverId
    simp only [Option.bind_some, ServerOutput.send, hsent, Option.map_some]
    rfl

/-! ### A message at a client -/

section Readable

variable {serverId : CString}

/-- What a client finds in the frames of a message that it can read. -/
structure Readable (frames : FrameTable) (names : List FrameName) (phase : CString) (opnum : ℕ)
    (tag : CString) (payload : Option Frame) : Prop where
  phase_eq : ∀ size, phase.length < size → getStringFrame size frames .phase = some phase
  opnum_eq : getUintFrame frames .opnum = some opnum
  tag_eq : getStringFrame bufsize frames .tag = some tag
  payload_eq : frames.lookup .payload = payload
  goesOn_eq : printOutHashInOrder frames names =
    some (payload.all fun bytes ↦ 100 ≤ bytes.length)

/-- A message with these fields after the phase can be read. -/
theorem exists_readable {object algorithm phase tag : CString} {opnum : ℕ} {payload : Option Frame}
    (fields : List Field) (hserver : FitsBuffer serverId) (hobject : FitsBuffer object)
    (halgorithm : FitsBuffer algorithm) (hphase : FitsBuffer phase) (htag : FitsBuffer tag)
    (hnames : fields.map Prod.fst = namesAtClient algorithm phase)
    (hnodup : (([.serverid, .object, .algorithm, .phase] : List FrameName) ++
      namesAtClient algorithm phase).Nodup)
    (hvalid : AllValid fields) (hprintable : ∀ field ∈ fields, field.Printable)
    (hopnum : (.opnum, .number opnum) ∈ fields) (htagMem : (.tag, .text tag) ∈ fields)
    (hpayload : (fields.map Field.frame).lookup .payload = payload)
    (hgoesOn : fields.all Field.goesOn = payload.all fun bytes ↦ 100 ≤ bytes.length) :
    ∃ incoming, receiveMessageFramesAtClient
        (wire (headerAtClient serverId object algorithm phase ++ fields)) = some incoming ∧
      Readable incoming.frames incoming.names phase opnum tag payload := by
  have hheader : AllValid (headerAtClient serverId object algorithm phase) := by
    simp only [AllValid, headerAtClient, List.forall_mem_cons]
    exact ⟨hserver.1, hobject.1, halgorithm.1, hphase.1, List.forall_mem_nil _⟩
  have hall := hheader.append hvalid
  obtain ⟨frames, hreceive, hholds⟩ := received_at_client hnames hall halgorithm.2 hphase.2
  have hfst : (headerAtClient serverId object algorithm phase ++ fields).map Prod.fst =
      [.serverid, .object, .algorithm, .phase] ++ namesAtClient algorithm phase := by
    rw [List.map_append, hnames]
    rfl
  obtain ⟨-, ⟨⟩, -, hyields⟩ := parses_of_holds
    ((headerAtClient serverId object algorithm phase ++ fields).map Prod.fst) hholds
    (hfst ▸ hnodup) hall
  refine ⟨_, hreceive,
    { phase_eq := hyields (.phase, .text phase) (by simp [headerAtClient])
      opnum_eq := hyields _ (List.mem_append_right _ hopnum)
      tag_eq := hyields _ (List.mem_append_right _ htagMem) bufsize htag.2
      payload_eq := (hholds .payload).trans ?_
      goesOn_eq := ?_ }⟩
  · rw [List.map_append, List.lookup_append, hpayload]
    rfl
  · have hprint : ∀ field ∈ headerAtClient serverId object algorithm phase, field.Printable := by
      simp only [headerAtClient, List.forall_mem_cons]
      exact ⟨Field.printable_text (by decide) (by decide) hserver.2,
        Field.printable_text (by decide) (by decide) hobject.2,
        Field.printable_text (by decide) (by decide) halgorithm.2,
        Field.printable_text (by decide) (by decide) hphase.2, List.forall_mem_nil _⟩
    rw [printOutHashInOrder_eq hyields (List.forall_mem_append.mpr ⟨hprint, hprintable⟩),
      List.all_append, hgoesOn]
    rfl

section Fields

variable {object algorithm phase tag : CString} {opnum : ℕ} (hserver : FitsBuffer serverId)
  (hobject : FitsBuffer object) (halgorithm : FitsBuffer algorithm) (hphase : FitsBuffer phase)
  (htag : FitsBuffer tag) (hopnum : FitsUint opnum)

include hserver hobject halgorithm hphase htag hopnum

/-- A message with a number and a tag after the phase. -/
theorem readable_tag (hnames : namesAtClient algorithm phase = [.opnum, .tag]) :
    ∃ incoming, receiveMessageFramesAtClient (wire (headerAtClient serverId object algorithm
        phase ++ [(.opnum, .number opnum), (.tag, .text tag)])) = some incoming ∧
      Readable incoming.frames incoming.names phase opnum tag none := by
  refine exists_readable _ hserver hobject halgorithm hphase htag hnames.symm
    (hnames ▸ by decide) ?_ ?_
    (by simp) (by simp) rfl rfl
  · exact List.forall_mem_cons.mpr ⟨hopnum, List.forall_mem_singleton.mpr htag.1⟩
  · exact List.forall_mem_cons.mpr ⟨⟨_, rfl⟩,
      List.forall_mem_singleton.mpr (Field.printable_text (by decide) (by decide) htag.2)⟩

/-- A message with a number, a tag and a payload after the phase. -/
theorem readable_value (payload : Frame)
    (hnames : namesAtClient algorithm phase = [.opnum, .tag, .payload]) :
    ∃ incoming, receiveMessageFramesAtClient (wire (headerAtClient serverId object algorithm
        phase ++ [(.opnum, .number opnum), (.tag, .text tag), (.payload, .data payload)])) =
          some incoming ∧
      Readable incoming.frames incoming.names phase opnum tag (some payload) := by
  refine exists_readable _ hserver hobject halgorithm hphase htag hnames.symm
    (hnames ▸ by decide) ?_ ?_
    (by simp) (by simp) rfl (by simp [Field.goesOn])
  · exact List.forall_mem_cons.mpr ⟨hopnum, List.forall_mem_cons.mpr ⟨htag.1,
      List.forall_mem_singleton.mpr trivial⟩⟩
  · exact List.forall_mem_cons.mpr ⟨⟨_, rfl⟩, List.forall_mem_cons.mpr
      ⟨Field.printable_text (by decide) (by decide) htag.2,
        List.forall_mem_singleton.mpr ⟨_, rfl⟩⟩⟩

/-- A message with a tag, a number and a payload after the phase. -/
theorem readable_element (payload : Frame)
    (hnames : namesAtClient algorithm phase = [.tag, .opnum, .payload]) :
    ∃ incoming, receiveMessageFramesAtClient (wire (headerAtClient serverId object algorithm
        phase ++ [(.tag, .text tag), (.opnum, .number opnum), (.payload, .data payload)])) =
          some incoming ∧
      Readable incoming.frames incoming.names phase opnum tag (some payload) := by
  refine exists_readable _ hserver hobject halgorithm hphase htag hnames.symm
    (hnames ▸ by decide) ?_ ?_
    (by simp) (by simp) rfl (by simp [Field.goesOn])
  · exact List.forall_mem_cons.mpr ⟨htag.1, List.forall_mem_cons.mpr ⟨hopnum,
      List.forall_mem_singleton.mpr trivial⟩⟩
  · exact List.forall_mem_cons.mpr ⟨Field.printable_text (by decide) (by decide) htag.2,
      List.forall_mem_cons.mpr ⟨⟨_, rfl⟩, List.forall_mem_singleton.mpr ⟨_, rfl⟩⟩⟩

end Fields

end Readable

namespace Abd

variable {n : ℕ}

/-- The size of `phase` in `ABD_get_max_tag_value_phase`. -/
def readPhaseSize : ℕ := 64

/-- What a client process does with the frames of a message. A loop turns on a message that it
counts as `Client.receive` says, and on any other message it goes on; the loop of a read parses and
prints every message first. -/
def Client.receiveFrames (strcmp : Strcmp) (clientId : CString)
    (heap : Heap) (msg : List Frame) (client : Client) :
    Option (Turn n Client Phase) := do
  let incoming ← receiveMessageFramesAtClient msg
  let frames := incoming.frames
  match client with
  | .idle => none
  | .getMaxTag opNum _ _ _ _ => do
    let phaseName ← getStringFrame bufsize frames .phase
    let round ← getUintFrame frames .opnum
    let tagStr ← getStringFrame bufsize frames .tag
    if round = opNum ∧ phaseName = Text.getTag then do
      let goesOn ← printOutHashInOrder frames incoming.names
      if goesOn then client.receive strcmp clientId heap round .getTag ⟨[], tagStr, []⟩
      else some (waiting .exited)
    else some (waiting client)
  | .getMaxTagValue opNum _ _ _ _ => do
    let phaseName ← getStringFrame readPhaseSize frames .phase
    let round ← getUintFrame frames .opnum
    let tagStr ← getStringFrame bufsize frames .tag
    let _recvTag ← stringToTag tagStr
    let goesOn ← printOutHashInOrder frames incoming.names
    if goesOn then
      if round = opNum ∧ phaseName = Text.getTagValue then do
        let payload ← frames.lookup .payload
        client.receive strcmp clientId heap round .getTagValue ⟨[], tagStr, payload⟩
      else some (waiting client)
    else some (waiting .exited)
  | .writeValue opNum _ _ _ _ => do
    let phaseName ← getStringFrame bufsize frames .phase
    let round ← getUintFrame frames .opnum
    if round = opNum ∧ phaseName = Text.writeValue then do
      let goesOn ← printOutHashInOrder frames incoming.names
      if goesOn then client.receive strcmp clientId heap round .writeValue ⟨[], [], []⟩
      else some (waiting .exited)
    else some (waiting client)
  | .exited => none

/-- The messages of a multicast, each for the server that it goes to. -/
def multicastMessages (clientId : CString) (name : CallId Phase) (content : Fin n → Body) :
    Option (List (Fin n × Frame × List Frame)) :=
  (List.finRange n).mapM fun i ↦
    (sendRequest name (content i)).map fun msg ↦ (i, (Value.text clientId).frame, msg)

/-- What a client sends to the servers in a turn. -/
def turnMessages (clientId : CString) (turn : Turn n Client Phase) :
    List (Fin n × Frame × List Frame) :=
  turn.multicast.elim [] fun call ↦ (List.finRange n).map fun i ↦
    (i, (Value.text clientId).frame, wire (requestFields call.1 (call.2 i)))

/-- A request on the wire. -/
def requestMessage (m : Fin n × CallId Phase × Body) : Fin n × Frame × List Frame :=
  (m.1, (Value.text m.2.1.client).frame, wire (requestFields m.2.1 m.2.2))

/-- A response on the wire. -/
def responseMessage (serverId : Fin n → CString) (m : Fin n × CallId Phase × Body) :
    Fin n × Frame × List Frame :=
  (m.1, (Value.text m.2.1.client).frame, wire (Abd.responseFields (serverId m.1) m.2.1 m.2.2))

section Messages

variable {serverId : CString} {strcmp : Strcmp} {clientId : CString}
  {heap : Heap}

/-- The names of phases tell the phases apart. -/
theorem Phase.text_injective : Function.Injective Phase.text := by
  intro phase other h
  cases phase <;> cases other <;> first | rfl | exact absurd h (by decide)

theorem Phase.fitsBuffer (phase : Phase) : FitsBuffer phase.text := by
  cases phase <;> decide

/-- The payload of a response. -/
def responsePayload (phase : Phase) (body : Body) : Option Frame :=
  if phase = .getTagValue then some body.payload else none

/-- A response of ABD can be read. -/
theorem readable_response {name : CallId Phase} {body : Body} (hserver : FitsBuffer serverId)
    (hfits : AnswerFits name body) :
    ∃ incoming, receiveMessageFramesAtClient (wire (Abd.responseFields serverId name body)) =
        some incoming ∧
      Readable incoming.frames incoming.names name.phase.text name.opnum body.tag
        (responsePayload name.phase body) := by
  have habd : FitsBuffer Text.abd := by decide
  obtain ⟨client, opnum, phase⟩ := name
  cases phase with
  | getTag =>
    exact readable_tag hserver hfits.call.object habd (Phase.fitsBuffer _) hfits.tag
      hfits.call.opnum rfl
  | writeValue =>
    exact readable_tag hserver hfits.call.object habd (Phase.fitsBuffer _) hfits.tag
      hfits.call.opnum rfl
  | getTagValue =>
    exact readable_value hserver hfits.call.object habd (Phase.fitsBuffer _) hfits.tag
      hfits.call.opnum body.payload rfl

/-- On the frames of a response a client does what it does on the response. -/
theorem Client.receiveFrames_response {name : CallId Phase} {body : Body} (client : Client)
    (hserver : FitsBuffer serverId) (hfits : AnswerFits name body) :
    client.receiveFrames (n := n) strcmp clientId heap
        (wire (Abd.responseFields serverId name body)) =
      client.receive strcmp clientId heap name.opnum name.phase body := by
  obtain ⟨incoming, hreceive, hread⟩ := readable_response hserver hfits
  have hphase := hread.phase_eq bufsize name.phase.text_fits
  cases client with
  | idle => simp [receiveFrames, hreceive, receive]
  | exited => simp [receiveFrames, hreceive, receive]
  | getMaxTag opNum object rawData responses tagList =>
    have hcounts : name.phase.text = Text.getTag ↔ name.phase = .getTag :=
      Phase.text_injective.eq_iff (b := .getTag)
    simp only [receiveFrames, hreceive, hphase, hread.opnum_eq, hread.tag_eq, hread.goesOn_eq,
      Option.bind_eq_bind, Option.bind_some, hcounts]
    by_cases hmatch : name.opnum = opNum ∧ name.phase = .getTag
    · obtain ⟨rfl, hget⟩ := hmatch
      simp only [hget, and_self, if_true, responsePayload, reduceCtorEq, if_false, Option.all_none]
      rfl
    · rw [if_neg hmatch]
      simp [receive, abdGetMaxTagPhase, hmatch]
  | getMaxTagValue opNum object responses tag data =>
    have hcounts : name.phase.text = Text.getTagValue ↔ name.phase = .getTagValue :=
      Phase.text_injective.eq_iff (b := .getTagValue)
    have hphase := hread.phase_eq readPhaseSize (by cases name.phase <;> decide)
    simp only [receiveFrames, hreceive, hphase, hread.opnum_eq, hread.tag_eq, hread.goesOn_eq,
      hread.payload_eq, Option.bind_eq_bind, Option.bind_some, hcounts]
    cases hparse : stringToTag body.tag with
    | none => simp [receive, abdGetMaxTagValuePhase, hparse]
    | some recvTag =>
      rw [Option.bind_some]
      by_cases hvalue : name.phase = .getTagValue
      · by_cases hsmall : body.payload.length < 100
        · simp [receive, abdGetMaxTagValuePhase, hparse, responsePayload, hvalue, hsmall]
        · by_cases hround : name.opnum = opNum
          · simp [responsePayload, hvalue, hround, not_lt.mp hsmall, receive,
              abdGetMaxTagValuePhase]
          · simp [receive, abdGetMaxTagValuePhase, hparse, responsePayload, hvalue, hsmall, hround,
              not_lt.mp hsmall]
      · simp [receive, abdGetMaxTagValuePhase, hparse, responsePayload, hvalue]
  | writeValue opNum object tag operation responses =>
    have hcounts : name.phase.text = Text.writeValue ↔ name.phase = .writeValue :=
      Phase.text_injective.eq_iff (b := .writeValue)
    simp only [receiveFrames, hreceive, hphase, hread.opnum_eq, hread.goesOn_eq,
      Option.bind_eq_bind, Option.bind_some, hcounts]
    by_cases hmatch : name.opnum = opNum ∧ name.phase = .writeValue
    · obtain ⟨rfl, hput⟩ := hmatch
      simp only [hput, and_self, if_true, responsePayload, reduceCtorEq, if_false, Option.all_none]
      rfl
    · rw [if_neg hmatch]
      simp [receive, abdWriteValuePhase, hmatch]

/-- What a client is after a message that is not one of ABD. -/
def Client.afterOther (payload : Option Frame) : Client → Client
  | .getMaxTagValue opNum object responses tag data =>
    if payload.all fun bytes ↦ 100 ≤ bytes.length then
      .getMaxTagValue opNum object responses tag data
    else .exited
  | client => client

/-- On a message with a phase that is not one of ABD a loop goes on, but the loop of a read ends the
process if the payload has less than 100 bytes. -/
theorem Client.receiveFrames_other {incoming : Incoming} {msg : List Frame}
    {phaseName tag : CString} {opnum : ℕ} {payload : Option Frame} {client : Client} {recvTag : Tag}
    (hreceive : receiveMessageFramesAtClient msg = some incoming)
    (hread : Readable incoming.frames incoming.names phaseName opnum tag payload)
    (hother : ∀ phase : Phase, phaseName ≠ phase.text)
    (hlength : phaseName.length < readPhaseSize) (hparse : stringToTag tag = some recvTag)
    (hidle : client ≠ .idle) (hexited : client ≠ .exited) :
    client.receiveFrames (n := n) strcmp clientId heap msg =
      some (waiting (client.afterOther payload)) := by
  have hphase := hread.phase_eq readPhaseSize hlength
  have hphase' := hread.phase_eq bufsize (hlength.trans (by decide))
  cases client with
  | idle => exact absurd rfl hidle
  | exited => exact absurd rfl hexited
  | getMaxTag opNum object rawData responses tagList =>
    have hget : phaseName ≠ Text.getTag := hother .getTag
    simp [receiveFrames, hreceive, hphase', hread.opnum_eq, hread.tag_eq, hget, afterOther]
  | getMaxTagValue opNum object responses maxTag data =>
    have hvalue : phaseName ≠ Text.getTagValue := hother .getTagValue
    simp only [receiveFrames, hreceive, hphase, hread.opnum_eq, hread.tag_eq, hread.goesOn_eq,
      hparse, Option.bind_eq_bind, Option.bind_some, hvalue, and_false, if_false, afterOther]
    split_ifs <;> rfl
  | writeValue opNum object tag operation responses =>
    have hput : phaseName ≠ Text.writeValue := hother .writeValue
    simp [receiveFrames, hreceive, hphase', hread.opnum_eq, hput, afterOther]

end Messages

end Abd

end Colas
