import Colas.Library.Run
import Colas.Sodaw.Limits

/-!
# The SODAW system on frames

The system of `System`, with what is really on the wire. A server is a process with its loop over
the messages of its socket, of both algorithms (`serverWorkerFrames`), and the client processes
read what their loops need from the frames that they receive (`Client.receiveFrames`). There are
two networks, to the sockets of the servers and to those of the clients. Both have lists of frames:
which of them are requests and which are notices, or responses and coded elements, only the
receivers tell, by their frames. A message to a server stands with the identity of the peer that it
comes from, and one to a client with the identity that it has been sent to.

`wireStep` has no result where a process reads a frame that is not there, writes outside a buffer,
or fails an assertion. `WireGuard` is what runs assume of the environment: what `Guard` does, and
that the names, the numbers and the new tags of the operations fit (`Fits`).
-/

set_option autoImplicit false
set_option relaxedAutoImplicit false

namespace Colas.Sodaw

open TransitionSystem

variable {n : ℕ}

/-! ### The clients -/

/-- What a loop of a client reads of the frames of a message. No loop counts messages of
`READ_COMPLETE`, and for them stand all messages with a phase that is not one of a client. -/
def Client.readFrames (frames : FrameTable) : Client → Option (ℕ × Phase × Body)
  | .idle => none
  | .get _ _ _ _ _ => do
    let phaseName ← getStringFrame bufsize frames .phase
    let round ← getUintFrame frames .opnum
    let tagStr ← getStringFrame bufsize frames .tag
    some (round, (Phase.ofText phaseName).getD .readComplete, ⟨[], tagStr, []⟩)
  | .writePut _ _ _ _ => do
    let phaseName ← getStringFrame bufsize frames .phase
    let round ← getUintFrame frames .opnum
    some (round, (Phase.ofText phaseName).getD .readComplete, ⟨[], [], []⟩)
  | .readValue opNum _ _ _ decodeableKey => do
    let recvPhase ← getStringFrame bufsize frames .phase
    let recvTagStr ← getStringFrame bufsize frames .tag
    let recvOpnum ← getUintFrame frames .opnum
    -- the payload is duplicated only when the element is counted
    let payload ←
      if decodeableKey = none ∧ recvOpnum = opNum ∧ recvPhase = Text.readValue then
        frames.lookup .payload
      else some []
    some (recvOpnum, (Phase.ofText recvPhase).getD .readComplete, ⟨[], recvTagStr, payload⟩)
  | .exited => none

/-- What a client process does with the frames of a message. -/
def Client.receiveFrames (strcmp : Strcmp) (clientId : CString) (msg : List Frame)
    (client : Client) : Option (Turn n Client Phase) := do
  let incoming ← receiveMessageFramesAtClient msg
  let (round, phase, frames) ← client.readFrames incoming.frames
  client.receive strcmp clientId round phase frames

/-- The messages of a multicast, each for the server that it goes to. -/
def multicastMessages (clientId : CString) (name : CallId Phase) (content : Fin n → Body) :
    Option (List (Fin n × Frame × List Frame)) :=
  (List.finRange n).mapM fun i ↦
    (sendRequest name (content i)).map fun msg ↦ (i, (Value.text clientId).frame, msg)

/-! ### The system -/

/-- The state of the system on frames. -/
structure WireState (n : ℕ) where
  /-- The server processes. -/
  servers : Fin n → ServerProcess
  /-- Which servers run. -/
  alive : Fin n → Bool
  /-- The client processes, by client id. -/
  clients : CString → Client
  /-- The messages to servers, with the identity of the peer that sends. -/
  toServers : Network (Fin n × Frame × List Frame)
  /-- The messages from servers to clients, with the identity of the client. -/
  toClients : Network (Fin n × Frame × List Frame)
  /-- What the outside has seen, newest first. -/
  history : List Event

/-- The state before the first operation. -/
def WireState.initial : WireState n where
  servers := fun _ ↦ ServerProcess.initial
  alive := fun _ ↦ true
  clients := fun _ ↦ .idle
  toServers := Network.empty
  toClients := Network.empty
  history := []

/-- The state after a turn of a client. -/
def WireState.takeTurn (w : WireState n) (clientId : CString) (turn : Turn n Client Phase) :
    Option (WireState n) := do
  let messages ← turn.multicast.elim (some []) fun call ↦
    multicastMessages clientId call.1 call.2
  some { w with
    clients := Function.update w.clients clientId turn.client
    toServers := w.toServers.send messages
    history := turn.event.toList ++ w.history }

/-- The state after a server has handled a message. The socket of the worker sends each message to
the peer whose identity is its first frame, and the socket to the servers sends to all of them. -/
def WireState.handle (config : Config n) (w : WireState n) (m : Fin n × Frame × List Frame)
    (process : ServerProcess) (sent : Sent) : Option (WireState n) := do
  let replies ← sent.worker.mapM routerSend
  some { w with
    servers := Function.update w.servers m.1 process
    toServers := (w.toServers.deliver m).send (sent.servers.flatMap fun msg ↦
      (List.finRange n).map fun j ↦ (j, (Value.text (config.serverId m.1)).frame, msg))
    toClients := w.toClients.send (replies.map fun reply ↦ (m.1, reply)) }

/-- The actions of the system. -/
inductive WireAction (n : ℕ)
  | invokeWrite (clientId : CString) (opNum : ℕ) (object : CString) (payload : Frame)
  | invokeRead (clientId : CString) (opNum : ℕ) (object : CString)
  | serve (m : Fin n × Frame × List Frame)
  | receive (m : Fin n × Frame × List Frame)
  | timeout (clientId : CString)
  | stop (i : Fin n)

/-- One step of the system. -/
def wireStep (config : Config n) (w : WireState n) : WireAction n → Option (WireState n)
  | .invokeWrite clientId opNum object payload =>
    if w.clients clientId = .idle then
      w.takeTurn clientId (sodawWrite clientId opNum object payload)
    else none
  | .invokeRead clientId opNum object =>
    if w.clients clientId = .idle then w.takeTurn clientId (sodawRead clientId opNum object)
    else none
  | .serve m =>
    if m ∈ w.toServers.sent ∧ w.alive m.1 then do
      let (process, sent) ← (w.servers m.1).serverWorkerFrames config.strcmp
        (config.serverArgs m.1) (routerReceive m.2.1 m.2.2)
      w.handle config m process sent
    else none
  | .receive m =>
    if m ∈ w.toClients.sent then do
      let turn ← (w.clients m.2.1).receiveFrames config.strcmp m.2.1 m.2.2
      ({ w with toClients := w.toClients.deliver m } : WireState n).takeTurn m.2.1 turn
    else none
  | .timeout clientId => do
    let turn ← (w.clients clientId).timeout config clientId
    w.takeTurn clientId turn
  | .stop i => some { w with alive := Function.update w.alive i false }

/-- The message is a notice: its phase is `READ_DISPERSE`. -/
def IsNotice (msg : List Frame) : Prop := msg[3]? = some (Value.text Text.readDisperse).frame

instance : DecidablePred IsNotice :=
  fun msg ↦ inferInstanceAs (Decidable (msg[3]? = some (Value.text Text.readDisperse).frame))

/-- A client does not use an operation number twice, a message that is not a notice is not delivered
twice, the names and the numbers of operations fit, and so do the tags that writers make. -/
def WireGuard (config : Config n) (w : WireState n) : WireAction n → Prop
  | .invokeWrite clientId opNum object _ =>
    ¬ Invoked w.history clientId opNum ∧ CallFits clientId opNum object
  | .invokeRead clientId opNum object =>
    ¬ Invoked w.history clientId opNum ∧ CallFits clientId opNum object
  | .serve m => IsNotice m.2.2 ∨ m ∉ w.toServers.delivered
  | .receive m => m ∉ w.toClients.delivered
  | .timeout clientId => (w.clients clientId).NewTagFits config.strcmp clientId
  | .stop _ => True

instance (config : Config n) (w : WireState n) (a : WireAction n) :
    Decidable (WireGuard config w a) := by
  cases a <;> unfold WireGuard <;> infer_instance

/-- The states that the system on frames reaches. -/
abbrev WireRun (config : Config n) : WireState n → Prop :=
  Run (wireStep config) (WireGuard config) WireState.initial

/-! ### What a client reads -/

section Reads

variable {frames : FrameTable} {name : CallId Phase} {body : Body}

theorem Phase.text_eq_readValue (phase : Phase) :
    phase.text = Text.readValue ↔ phase = .readValue := by
  cases phase <;> decide

/-- The loop of `SODAW_read_value` looks at the payload only of elements that it counts. -/
theorem sodawReadValue_congr (strcmp : Strcmp) (opNum : ℕ) (readTag : Tag)
    (recvDataset : ZHash (List Frame)) (decodeableKey : Option CString) (round : ℕ) (phase : Phase)
    {frames frames' : Body} (htag : frames'.tag = frames.tag)
    (hpayload : decodeableKey = none ∧ round = opNum ∧ phase = .readValue →
      frames'.payload = frames.payload) :
    sodawReadValue strcmp n opNum readTag recvDataset decodeableKey round phase frames' =
      sodawReadValue strcmp n opNum readTag recvDataset decodeableKey round phase frames := by
  rw [sodawReadValue, sodawReadValue, htag]
  by_cases hcounts : decodeableKey = none ∧ round = opNum ∧ phase = .readValue
  · rw [hpayload hcounts]
  · simp only [if_neg hcounts]

/-- What a loop reads of a message decides what the client does with it. -/
theorem Client.receive_readFrames (strcmp : Strcmp) (clientId : CString) (client : Client)
    (hphase : getStringFrame bufsize frames .phase = some name.phase.text)
    (hopnum : getUintFrame frames .opnum = some name.opnum)
    (htag : getStringFrame bufsize frames .tag = some body.tag)
    (hpayload : name.phase = .readValue → frames.lookup .payload = some body.payload) :
    ((client.readFrames frames).bind fun message ↦
        client.receive (n := n) strcmp clientId message.1 message.2.1 message.2.2) =
      client.receive strcmp clientId name.opnum name.phase body := by
  cases client with
  | idle => rfl
  | exited => rfl
  | get opNum object operation responses tagList =>
    simp only [Client.readFrames, hphase, hopnum, htag, Option.bind_eq_bind,
      Option.bind_some, Phase.ofText_text, Option.getD_some]
    rfl
  | writePut opNum object tag responses =>
    simp only [Client.readFrames, hphase, hopnum, Option.bind_eq_bind, Option.bind_some,
      Phase.ofText_text, Option.getD_some]
    rfl
  | readValue opNum object readTag recvDataset decodeableKey =>
    obtain ⟨payload, hread, hsame⟩ : ∃ payload,
        (Client.readValue opNum object readTag recvDataset decodeableKey).readFrames frames =
          some (name.opnum, name.phase, ⟨[], body.tag, payload⟩) ∧
        (decodeableKey = none ∧ name.opnum = opNum ∧ name.phase = .readValue →
          payload = body.payload) := by
      simp only [Client.readFrames, hphase, hopnum, htag, Option.bind_eq_bind,
        Option.bind_some, Phase.ofText_text, Option.getD_some, Phase.text_eq_readValue]
      by_cases hcounts : decodeableKey = none ∧ name.opnum = opNum ∧ name.phase = .readValue
      · have hlookup := hpayload hcounts.2.2
        exact ⟨body.payload, by rw [if_pos hcounts, hlookup, Option.bind_some], fun _ ↦ rfl⟩
      · exact ⟨[], by rw [if_neg hcounts], fun h ↦ absurd h hcounts⟩
    have htagValue : (⟨[], body.tag, payload⟩ : Body).tagValue = body.tagValue := rfl
    have hloop : sodawReadValue strcmp n opNum readTag recvDataset decodeableKey name.opnum
        name.phase ⟨[], body.tag, payload⟩ = sodawReadValue strcmp n opNum readTag recvDataset
          decodeableKey name.opnum name.phase body :=
      sodawReadValue_congr strcmp opNum readTag recvDataset decodeableKey _ _ rfl hsame
    rw [hread, Option.bind_some, Client.receive, Client.receive, hloop, htagValue]

/-- A client that finds the fields of a message in its frames does with them what it does with the
message. -/
theorem Client.receiveFrames_of_parses {msg : List Frame} {fields : List Field}
    (strcmp : Strcmp) (clientId : CString) (client : Client)
    (hparses : Parses fields (receiveMessageFramesAtClient msg)) (hfits : AnswerFits name body)
    (hphase : (.phase, .text name.phase.text) ∈ fields)
    (hopnum : (.opnum, .number name.opnum) ∈ fields) (htag : (.tag, .text body.tag) ∈ fields)
    (hpayload : name.phase = .readValue → (.payload, .data body.payload) ∈ fields) :
    client.receiveFrames (n := n) strcmp clientId msg =
      client.receive strcmp clientId name.opnum name.phase body := by
  obtain ⟨s, hreceive, -, hyields⟩ := hparses
  rw [Client.receiveFrames, hreceive, Option.bind_eq_bind, Option.bind_some]
  exact Client.receive_readFrames strcmp clientId client
    (hyields _ hphase bufsize name.phase.text_fits) (hyields _ hopnum)
    (hyields _ htag bufsize hfits.tag.2) fun hread ↦ hyields _ (hpayload hread)

/-- The fields of a response or an element are values of C. -/
theorem allValid_answer {serverId : CString} (hserver : FitsBuffer serverId)
    (hfits : AnswerFits name body) : 0 ∉ serverId ∧ 0 ∉ body.object ∧ 0 ∉ body.tag ∧
      name.opnum < 2 ^ 32 ∧ 0 ∉ name.phase.text :=
  ⟨hserver.1, hfits.call.object.1, hfits.tag.1, hfits.call.opnum,
    by cases name.phase <;> decide⟩

/-- A client does with the frames of a response what it does with the response. -/
theorem Client.receiveFrames_response (strcmp : Strcmp) (clientId : CString) (client : Client)
    {serverId : CString} (hserver : FitsBuffer serverId) (hfits : AnswerFits name body)
    (hphase : name.phase = .writeGet ∨ name.phase = .readGet ∨ name.phase = .writePut) :
    client.receiveFrames (n := n) strcmp clientId
        (wire (Sodaw.responseFields serverId name body)) =
      client.receive strcmp clientId name.opnum name.phase body := by
  obtain ⟨hvalidServer, hvalidObject, hvalidTag, hvalidOpnum, hvalidPhase⟩ :=
    allValid_answer hserver hfits
  have hvalid : AllValid (headerAtClient serverId body.object Text.sodaw name.phase.text ++
      [(.opnum, .number name.opnum), (.tag, .text body.tag)]) := by
    simp only [AllValid, headerAtClient, List.cons_append, List.nil_append, List.forall_mem_cons]
    exact ⟨hvalidServer, hvalidObject, by decide, hvalidPhase, hvalidOpnum, hvalidTag,
      List.forall_mem_nil _⟩
  have hnames : ([(.opnum, .number name.opnum), (.tag, .text body.tag)] : List Field).map
      Prod.fst = namesAtClient Text.sodaw name.phase.text := by
    rcases hphase with hget | hget | hput
    · rw [hget]; rfl
    · rw [hget]; rfl
    · rw [hput]; rfl
  have hnodup : ([.serverid, .object, .algorithm, .phase, .opnum, .tag] :
      List FrameName).Nodup := by decide
  have hparses := parses_at_client hnames hnodup hvalid (by decide) name.phase.text_fits
  refine Client.receiveFrames_of_parses strcmp clientId client hparses hfits ?_ ?_ ?_ ?_
  · simp [headerAtClient]
  · simp
  · simp
  · rintro hread
    rw [hread] at hphase
    simp at hphase

/-- A client does with the frames of an element what it does with the element. -/
theorem Client.receiveFrames_element (strcmp : Strcmp) (clientId : CString) (client : Client)
    {serverId : CString} (hserver : FitsBuffer serverId) (hfits : AnswerFits name body)
    (hphase : name.phase = .readValue) :
    client.receiveFrames (n := n) strcmp clientId (wire (elementFields serverId (name, body))) =
      client.receive strcmp clientId name.opnum name.phase body := by
  obtain ⟨hvalidServer, hvalidObject, hvalidTag, hvalidOpnum, -⟩ := allValid_answer hserver hfits
  have hvalid : AllValid (headerAtClient serverId body.object Text.sodaw Text.readValue ++
      [(.tag, .text body.tag), (.opnum, .number name.opnum), (.payload, .data body.payload)]) := by
    simp only [AllValid, headerAtClient, List.cons_append, List.nil_append, List.forall_mem_cons]
    exact ⟨hvalidServer, hvalidObject, by decide, by decide, hvalidTag, hvalidOpnum, trivial,
      List.forall_mem_nil _⟩
  have hnames : ([(.tag, .text body.tag), (.opnum, .number name.opnum),
      (.payload, .data body.payload)] : List Field).map Prod.fst =
        namesAtClient Text.sodaw Text.readValue := rfl
  have hnodup : ([.serverid, .object, .algorithm, .phase, .tag, .opnum, .payload] :
      List FrameName).Nodup := by decide
  have hparses := parses_at_client hnames hnodup hvalid (by decide) (by decide)
  refine Client.receiveFrames_of_parses strcmp clientId client hparses hfits ?_ ?_ ?_ ?_
  · simp [headerAtClient, hphase, Phase.text]
  · simp
  · simp
  · simp

end Reads

end Colas.Sodaw
