import Colas.Library.Simulation
import Colas.Sodaw.Elements
import Colas.Sodaw.Numbers
import Colas.Sodaw.Tags
import Colas.Sodaw.Wire

/-!
# The system on frames refines the system on messages

`Refines` relates the two levels: the clients, the history and what the servers have of SODAW are
the same, the lists of frames on the wire are those of the requests, the notices, the responses and
the elements that were sent, and what was delivered of these was delivered as frames. It is a
simulation (`refines`): a process that gets the frames of a message finds in them what its sender
put there, because everything fits (`Limited`).

So every run on frames has the clients and the history of a run on messages (`exists_run_of_wire`).
And nothing on the wire stops a process (`handled_on_wire`): whatever has been sent to a server that
runs is handled, if the buffers of the handlers have room for the tags of the writes and the keys of
the notices, and whatever has been sent to a client is received, also when it is late, by every loop
in which the client may be.
-/

set_option autoImplicit false
set_option relaxedAutoImplicit false

namespace Colas.Sodaw

open TransitionSystem

variable {n : ℕ} {config : Config n}

/-! ### The frames of the messages -/

/-- A request on the wire. -/
def requestMessage (m : Fin n × CallId Phase × Body) : Fin n × Frame × List Frame :=
  (m.1, (Value.text m.2.1.client).frame, wire (requestFields m.2.1 m.2.2))

/-- A notice on the wire. -/
def noticeMessage (m : Fin n × Fin n × Disperse) : Fin n × Frame × List Frame :=
  (m.2.1, (Value.text m.2.2.clientid).frame, wire (disperseFields .serverid m.2.2))

/-- A response on the wire. -/
def responseMessage (config : Config n) (m : Fin n × CallId Phase × Body) :
    Fin n × Frame × List Frame :=
  (m.1, (Value.text m.2.1.client).frame,
    wire (Sodaw.responseFields (config.serverId m.1) m.2.1 m.2.2))

/-- A coded element on the wire. -/
def elementMessage (config : Config n) (m : Fin n × CallId Phase × Body) :
    Fin n × Frame × List Frame :=
  (m.1, (Value.text m.2.1.client).frame, wire (elementFields (config.serverId m.1) m.2))

/-- A state on frames and the state on messages that it stands for. -/
structure Refines (config : Config n) (w : WireState n) (s : State n) : Prop where
  servers : ∀ i, (w.servers i).sodaw = s.servers i
  alive : w.alive = s.alive
  clients : w.clients = s.clients
  history : w.history = s.history
  /-- What is on the wire to the servers. -/
  toServers : ∀ m, m ∈ w.toServers.sent ↔
    (∃ request ∈ s.calls.requests.sent, m = requestMessage request) ∨
      ∃ notice ∈ s.disperses.sent, m = noticeMessage notice
  /-- What is on the wire to the clients. -/
  toClients : ∀ m, m ∈ w.toClients.sent ↔
    (∃ response ∈ s.calls.answers.sent, m = responseMessage config response) ∨
      ∃ element ∈ s.elements.sent, m = elementMessage config element
  served : ∀ request ∈ s.calls.requests.delivered, requestMessage request ∈ w.toServers.delivered
  received : ∀ response ∈ s.calls.answers.delivered,
    responseMessage config response ∈ w.toClients.delivered
  collected : ∀ element ∈ s.elements.delivered,
    elementMessage config element ∈ w.toClients.delivered

theorem refines_initial : Refines config WireState.initial (State.initial : State n) where
  servers := fun _ ↦ rfl
  alive := rfl
  clients := rfl
  history := rfl
  toServers := fun m ↦ by simp [WireState.initial, State.initial]
  toClients := fun m ↦ by simp [WireState.initial, State.initial]
  served := fun _ h ↦ absurd h List.not_mem_nil
  received := fun _ h ↦ absurd h List.not_mem_nil
  collected := fun _ h ↦ absurd h List.not_mem_nil

/-! ### Turns of clients -/

section Clients

variable {w w' : WireState n} {s : State n} {clientId : CString} {turn : Turn n Client Phase}

/-- The multicast at the end of a loop is one of the client. -/
theorem TimesOut.client_eq {client : Client} (h : TimesOut config clientId client turn)
    {name : CallId Phase} {content : Fin n → Body} (hcall : turn.multicast = some (name, content)) :
    name.client = clientId := by
  cases h <;> cases hcall <;> rfl

/-- What a client sends to the servers in a turn. -/
def turnMessages (clientId : CString) (turn : Turn n Client Phase) :
    List (Fin n × Frame × List Frame) :=
  turn.multicast.elim [] fun call ↦ (List.finRange n).map fun i ↦
    (i, (Value.text clientId).frame, wire (requestFields call.1 (call.2 i)))

theorem takeTurn_eq (w : WireState n) (clientId : CString) (turn : Turn n Client Phase) :
    w.takeTurn clientId turn = some { w with
      clients := Function.update w.clients clientId turn.client
      toServers := w.toServers.send (turnMessages clientId turn)
      history := turn.event.toList ++ w.history } := by
  rcases hcall : turn.multicast with - | ⟨name, content⟩
  · simp [WireState.takeTurn, turnMessages, hcall]
  · have hmessages : multicastMessages clientId name content = some ((List.finRange n).map fun i ↦
        (i, (Value.text clientId).frame, wire (requestFields name (content i)))) :=
      mapM_eq_some_map fun i _ ↦ by rw [sodaw_sendRequest, Option.map_some]
    simp only [WireState.takeTurn, turnMessages, hcall, Option.elim_some, hmessages,
      Option.bind_eq_bind, Option.bind_some]

theorem takeTurn_isSome (w : WireState n) (clientId : CString) (turn : Turn n Client Phase) :
    (w.takeTurn clientId turn).isSome = true := by
  rw [takeTurn_eq]
  rfl

/-- A turn does the same on both levels. -/
theorem Refines.takeTurn (h : Refines config w s)
    (hname : ∀ {name content}, turn.multicast = some (name, content) → name.client = clientId) :
    ∃ w', w.takeTurn clientId turn = some w' ∧ Refines config w' (s.takeTurn clientId turn) := by
  refine ⟨_, takeTurn_eq w clientId turn,
    { servers := h.servers
      alive := h.alive
      clients := ?_
      history := ?_
      toServers := fun m ↦ ?_
      toClients := fun m ↦ ?_
      served := fun request hmem ↦ ?_
      received := fun response hmem ↦ ?_
      collected := h.collected }⟩
  · rw [h.clients]
    rfl
  · rw [h.history]
    rfl
  · have hnew : m ∈ turnMessages clientId turn ↔
        ∃ name content i, turn.multicast = some (name, content) ∧
          m = requestMessage (i, name, content i) := by
      rcases hcall : turn.multicast with - | ⟨name, content⟩
      · simp [turnMessages, hcall]
      · obtain rfl := hname hcall
        simp [turnMessages, hcall, requestMessage, eq_comm]
    rw [Network.sent_send, List.mem_append, hnew, h.toServers m]
    constructor
    · rintro (⟨name, content, i, hcall, rfl⟩ | ⟨⟨i, name, frames⟩, hold, rfl⟩ | hnotice)
      · exact Or.inl ⟨(i, name, content i),
          (turn.mem_requests_sendOn s.calls).mpr (Or.inl ⟨content, hcall, rfl⟩), rfl⟩
      · exact Or.inl ⟨(i, name, frames), (turn.mem_requests_sendOn s.calls).mpr (Or.inr hold), rfl⟩
      · exact Or.inr hnotice
    · rintro (⟨⟨i, name, frames⟩, hmem, rfl⟩ | hnotice)
      · rcases (turn.mem_requests_sendOn s.calls).mp hmem with ⟨content, hcall, rfl⟩ | hold
        · exact Or.inl ⟨name, content, i, hcall, rfl⟩
        · exact Or.inr (Or.inl ⟨_, hold, rfl⟩)
      · exact Or.inr (Or.inr hnotice)
  · rw [(serversKept_takeTurn s clientId turn).answers]
    exact h.toClients m
  · rw [(serversKept_takeTurn s clientId turn).delivered] at hmem
    exact h.served request hmem
  · have hanswers : (s.takeTurn clientId turn).calls.answers = s.calls.answers :=
      turn.answers_sendOn s.calls
    rw [hanswers] at hmem
    exact h.received response hmem

/-- A response is delivered on both levels. -/
theorem Refines.collect (h : Refines config w s) (response : Fin n × CallId Phase × Body) :
    Refines config { w with toClients := w.toClients.deliver (responseMessage config response) }
      { s with calls := s.calls.collect response } :=
  { h with
    received := fun other hmem ↦ by
      rcases List.mem_cons.mp hmem with rfl | hold
      · exact List.mem_cons_self
      · exact List.mem_cons_of_mem _ (h.received other hold)
    collected := fun other hmem ↦ List.mem_cons_of_mem _ (h.collected other hmem) }

/-- An element is delivered on both levels. -/
theorem Refines.deliver (h : Refines config w s) (element : Fin n × CallId Phase × Body) :
    Refines config { w with toClients := w.toClients.deliver (elementMessage config element) }
      { s with elements := s.elements.deliver element } :=
  { h with
    received := fun other hmem ↦ List.mem_cons_of_mem _ (h.received other hmem)
    collected := fun other hmem ↦ by
      rcases List.mem_cons.mp hmem with rfl | hold
      · exact List.mem_cons_self
      · exact List.mem_cons_of_mem _ (h.collected other hold) }

end Clients

/-! ### Steps of servers -/

section Servers

variable {w : WireState n} {s : State n}

/-- The replies of a server to a request, under the identities of the clients. -/
def replies (serverId : CString) (name : CallId Phase) (output : Output) :
    List (Frame × List Frame) :=
  output.elements.map (fun element ↦
    ((Value.text element.1.client).frame, wire (elementFields serverId element))) ++
  output.response.toList.map fun response ↦
    ((Value.text name.client).frame, wire (Sodaw.responseFields serverId name response))

/-- The socket of the worker sends what a handler gives it to the clients. -/
theorem mapM_routerSend (serverId : CString) (name : CallId Phase) (output : Output) :
    (output.wire serverId name).worker.mapM routerSend = some (replies serverId name output) := by
  have helements : (output.elements.map fun element ↦ (Value.text element.1.client).frame ::
      wire (elementFields serverId element)).mapM routerSend =
        some (output.elements.map fun element ↦
          ((Value.text element.1.client).frame, wire (elementFields serverId element))) := by
    rw [List.mapM_map]
    exact mapM_eq_some_map fun _ _ ↦ rfl
  have hresponse : (output.response.toList.map fun response ↦ (Value.text name.client).frame ::
      wire (Sodaw.responseFields serverId name response)).mapM routerSend =
        some (output.response.toList.map fun response ↦
          ((Value.text name.client).frame,
            wire (Sodaw.responseFields serverId name response))) := by
    rw [List.mapM_map]
    exact mapM_eq_some_map fun _ _ ↦ rfl
  rw [Output.wire, List.mapM_append, helements, hresponse]
  rfl

theorem handle_eq (w : WireState n) (i : Fin n) (name : CallId Phase) (frames : Body)
    (process : ServerProcess) (output : Output) :
    w.handle config (requestMessage (i, name, frames)) process
        (output.wire (config.serverId i) name) = some { w with
      servers := Function.update w.servers i process
      toServers := (w.toServers.deliver (requestMessage (i, name, frames))).send
        ((output.wire (config.serverId i) name).servers.flatMap fun msg ↦
          (List.finRange n).map fun j ↦ (j, (Value.text (config.serverId i)).frame, msg))
      toClients := w.toClients.send
        ((replies (config.serverId i) name output).map fun reply ↦ (i, reply)) } := by
  rw [WireState.handle, mapM_routerSend]
  rfl

/-- The notices that a server sends. -/
theorem mem_notices {i : Fin n} {name : CallId Phase} {output : Output}
    (hnotices : ∀ notice ∈ output.disperses, notice.clientid = config.serverId i)
    {m : Fin n × Frame × List Frame} :
    m ∈ ((output.wire (config.serverId i) name).servers.flatMap fun msg ↦
        (List.finRange n).map fun j ↦ (j, (Value.text (config.serverId i)).frame, msg)) ↔
      ∃ notice ∈ output.disperses, ∃ j, m = noticeMessage (i, j, notice) := by
  simp only [Output.wire, List.mem_flatMap, List.mem_map, List.mem_finRange, true_and,
    exists_exists_and_eq_and]
  refine exists_congr fun notice ↦ and_congr_right fun hmem ↦ exists_congr fun j ↦ ?_
  rw [noticeMessage, hnotices notice hmem]
  exact eq_comm

/-- The elements and the response that a server sends. -/
theorem mem_replies {i : Fin n} {name : CallId Phase} {output : Output}
    {m : Fin n × Frame × List Frame} :
    m ∈ (replies (config.serverId i) name output).map (fun reply ↦ (i, reply)) ↔
      (∃ element ∈ output.elements, m = elementMessage config (i, element)) ∨
        ∃ response, output.response = some response ∧
          m = responseMessage config (i, name, response) := by
  simp only [replies, List.map_append, List.map_map, List.mem_append, List.mem_map,
    Option.mem_toList]
  exact or_congr (exists_congr fun element ↦ and_congr_right fun _ ↦ eq_comm)
    (exists_congr fun response ↦ and_congr_right fun _ ↦ eq_comm)

/-- A server handles a request on both levels. -/
theorem Refines.handle (h : Refines config w s) {i : Fin n} {name : CallId Phase} (frames : Body)
    (server : Server) {output : Output}
    (hnotices : ∀ notice ∈ output.disperses, notice.clientid = config.serverId i) :
    ∃ w', w.handle config (requestMessage (i, name, frames))
        ((w.servers i).withSodaw server) (output.wire (config.serverId i) name) = some w' ∧
      Refines config w' (s.handle (i, name, frames) server output) := by
  refine ⟨_, handle_eq w i name frames _ output,
    { servers := fun j ↦ ?_
      alive := h.alive
      clients := h.clients
      history := h.history
      toServers := fun m ↦ ?_
      toClients := fun m ↦ ?_
      served := fun request hmem ↦ ?_
      received := fun response hmem ↦ ?_
      collected := h.collected }⟩
  · rw [servers_handle]
    split_ifs with hj
    · subst hj
      simp
    · simpa [Function.update_of_ne hj] using h.servers j
  · rw [Network.sent_send, List.mem_append, Network.sent_deliver, mem_notices hnotices,
      h.toServers m, requests_sent_handle]
    constructor
    · rintro (⟨notice, hmem, j, rfl⟩ | hrequest | ⟨⟨j, k, notice⟩, hold, rfl⟩)
      · exact Or.inr ⟨(i, j, notice), mem_disperses_handle.mpr (Or.inl ⟨rfl, hmem⟩), rfl⟩
      · exact Or.inl hrequest
      · exact Or.inr ⟨(j, k, notice), mem_disperses_handle.mpr (Or.inr hold), rfl⟩
    · rintro (hrequest | ⟨⟨j, k, notice⟩, hmem, rfl⟩)
      · exact Or.inr (Or.inl hrequest)
      · rcases mem_disperses_handle.mp hmem with ⟨rfl, hnew⟩ | hold
        · exact Or.inl ⟨notice, hnew, k, rfl⟩
        · exact Or.inr (Or.inr ⟨_, hold, rfl⟩)
  · rw [Network.sent_send, List.mem_append, mem_replies, h.toClients m]
    constructor
    · rintro ((⟨⟨other, body⟩, hmem, rfl⟩ | ⟨response, hresponse, rfl⟩) |
        ⟨⟨j, other, body⟩, hold, rfl⟩ | ⟨⟨j, other, body⟩, hold, rfl⟩)
      · exact Or.inr ⟨(i, other, body), mem_elements_handle.mpr (Or.inl ⟨rfl, hmem⟩), rfl⟩
      · exact Or.inl ⟨(i, name, response),
          mem_answers_handle.mpr (Or.inl ⟨rfl, rfl, hresponse⟩), rfl⟩
      · exact Or.inl ⟨(j, other, body), mem_answers_handle.mpr (Or.inr hold), rfl⟩
      · exact Or.inr ⟨(j, other, body), mem_elements_handle.mpr (Or.inr hold), rfl⟩
    · rintro (⟨⟨j, other, body⟩, hmem, rfl⟩ | ⟨⟨j, other, body⟩, hmem, rfl⟩)
      · rcases mem_answers_handle.mp hmem with ⟨rfl, rfl, hresponse⟩ | hold
        · exact Or.inl (Or.inr ⟨body, hresponse, rfl⟩)
        · exact Or.inr (Or.inl ⟨_, hold, rfl⟩)
      · rcases mem_elements_handle.mp hmem with ⟨rfl, hnew⟩ | hold
        · exact Or.inl (Or.inl ⟨(other, body), hnew, rfl⟩)
        · exact Or.inr (Or.inr ⟨_, hold, rfl⟩)
  · rw [requests_delivered_handle] at hmem
    rcases List.mem_cons.mp hmem with rfl | hold
    · exact List.mem_cons_self
    · exact List.mem_cons_of_mem _ (h.served request hold)
  · have hdelivered : (s.handle (i, name, frames) server output).calls.answers.delivered =
        s.calls.answers.delivered := by
      rcases hcase : output.response with - | response <;> simp [State.handle, hcase]
    rw [hdelivered] at hmem
    exact h.received response hmem

/-- A server handles a notice on both levels. -/
theorem Refines.handleNotice (h : Refines config w s) (i j : Fin n) (notice : Disperse)
    (server : Server) :
    ∃ w', w.handle config (noticeMessage (i, j, notice)) ((w.servers j).withSodaw server)
        Sent.nothing = some w' ∧
      Refines config w' (s.handleNotice (i, j, notice) server) := by
  refine ⟨_, rfl,
    { h with
      servers := fun k ↦ ?_
      served := fun request hmem ↦ List.mem_cons_of_mem _ (h.served request hmem) }⟩
  rw [servers_handleNotice]
  split_ifs with hk
  · subst hk
    simp [noticeMessage]
  · simpa [noticeMessage, Function.update_of_ne hk] using h.servers k

/-- What comes of a result that there is. -/
theorem isSome_bind_of_eq_some {α β : Type*} {o : Option α} {f : α → Option β} {a : α}
    (ho : o = some a) (hf : (f a).isSome = true) : (o.bind f).isSome = true := by
  rw [ho]
  exact hf

/-- What a process does with the frames of a request. -/
theorem Refines.serve (h : Refines config w s) {i : Fin n} {name : CallId Phase} {frames : Body}
    (hfits : RequestFits name frames) :
    (w.servers i).serverWorkerFrames config.strcmp (config.serverArgs i)
        (routerReceive (requestMessage (i, name, frames)).2.1
          (requestMessage (i, name, frames)).2.2) =
      (algorithmSODAW config.strcmp (config.serverArgs i) (s.servers i) name frames).map
        fun result ↦ ((w.servers i).withSodaw result.1,
          result.2.wire (config.serverId i) name) := by
  rw [← h.servers i]
  exact serverWorkerFrames_request config.strcmp (config.serverArgs i) (w.servers i) hfits

/-- What a process does with the frames of a notice. -/
theorem Refines.serveNotice (h : Refines config w s) {i j : Fin n} {notice : Disperse}
    (hfits : NoticeFits notice) :
    (w.servers j).serverWorkerFrames config.strcmp (config.serverArgs j)
        (routerReceive (noticeMessage (i, j, notice)).2.1 (noticeMessage (i, j, notice)).2.2) =
      (algorithmSODAWOnNotice (config.serverArgs j) (s.servers j) notice).map fun server ↦
        ((w.servers j).withSodaw server, Sent.nothing) := by
  rw [← h.servers j]
  exact serverWorkerFrames_notice config.strcmp (config.serverArgs j) (w.servers j) hfits

end Servers

/-! ### The simulation -/

/-- The guard of the runs on messages that match the runs on frames. -/
def GuardFits (config : Config n) (s : State n) (a : Action n) : Prop :=
  Guard s a ∧ Fits config s a

section Simulation

variable {w w' : WireState n} {s : State n}

/-- A request is not a notice. -/
theorem not_isNotice_request (m : Fin n × CallId Phase × Body) :
    ¬ IsNotice (requestMessage m).2.2 := by
  obtain ⟨i, ⟨client, opnum, phase⟩, frames⟩ := m
  have htext : (Value.text phase.text).frame ≠ (Value.text Text.readDisperse).frame := by
    cases phase <;> decide
  have hphase : (requestMessage (i, ⟨client, opnum, phase⟩, frames)).2.2[3]? =
      some (Value.text phase.text).frame := by
    cases phase <;> rfl
  exact fun h ↦ htext (Option.some.inj (hphase.symm.trans h))

/-- Servers respond to requests for a tag and to `WRITE_PUT`. -/
theorem phase_of_answer {guard : State n → Action n → Prop}
    (run : Run (step config) guard State.initial s) :
    ∀ m ∈ s.calls.answers.sent, m.2.1.phase = .writeGet ∨ m.2.1.phase = .readGet ∨
      m.2.1.phase = .writePut := by
  refine run.invariant (P := fun s ↦ ∀ m ∈ s.calls.answers.sent, m.2.1.phase = .writeGet ∨
    m.2.1.phase = .readGet ∨ m.2.1.phase = .writePut) (List.forall_mem_nil _)
    fun before a after h _ hstep ↦ ?_
  rcases step_cases hstep with hclient | hserver
  · rw [hclient.serversKept.answers]
    exact h
  · cases hserver with
    | serve i name frames server output hsent halive hserver =>
      rintro ⟨j, other, body⟩ hmem
      rcases mem_answers_handle.mp hmem with ⟨rfl, rfl, hresponse⟩ | hold
      · exact (response_of_algorithmSODAW hserver hresponse).1
      · exact h _ hold
    | serveNotice => exact h
    | stop => exact h

/-- What a client does with the frames of what was sent to it. -/
theorem receiveFrames_responseMessage (hserver : ∀ i, FitsBuffer (config.serverId i)) {i : Fin n}
    {name : CallId Phase} {frames : Body} (hfits : AnswerFits name frames)
    (hphase : name.phase = .writeGet ∨ name.phase = .readGet ∨ name.phase = .writePut)
    (client : Client) :
    client.receiveFrames (n := n) config.strcmp name.client
        (responseMessage config (i, name, frames)).2.2 =
      client.receive config.strcmp name.client name.opnum name.phase frames :=
  Client.receiveFrames_response config.strcmp name.client client (hserver i) hfits hphase

theorem receiveFrames_elementMessage (hserver : ∀ i, FitsBuffer (config.serverId i)) {i : Fin n}
    {name : CallId Phase} {frames : Body} (hfits : AnswerFits name frames)
    (hphase : name.phase = .readValue) (client : Client) :
    client.receiveFrames (n := n) config.strcmp name.client
        (elementMessage config (i, name, frames)).2.2 =
      client.receive config.strcmp name.client name.opnum name.phase frames :=
  Client.receiveFrames_element config.strcmp name.client client (hserver i) hfits hphase

/-- A step of a server on frames is matched by one on messages. -/
theorem Refines.step_serve (hserver : ∀ i, FitsBuffer (config.serverId i))
    (hrun : Run (step config) (GuardFits config) State.initial s) (h : Refines config w s)
    {m : Fin n × Frame × List Frame} (hguard : WireGuard config w (.serve m))
    (hstep : wireStep config w (.serve m) = some w') :
    ∃ s', Run (step config) (GuardFits config) s s' ∧ Refines config w' s' := by
  have hlimited := Limited.of_run (fun _ _ hguard ↦ hguard.2) hserver hrun
  simp only [wireStep, Option.ite_none_right_eq_some, Option.bind_eq_bind,
    Option.bind_eq_some_iff] at hstep
  obtain ⟨⟨hsent, halive⟩, ⟨process, sent⟩, hprocess, hhandle⟩ := hstep
  rcases (h.toServers m).mp hsent with ⟨⟨i, name, frames⟩, hrequest, rfl⟩ |
    ⟨⟨i, j, notice⟩, hnotice, rfl⟩
  · have hrunning : s.alive i = true := h.alive ▸ halive
    have hserve := h.serve (i := i) (hlimited.requested hrequest)
    obtain ⟨⟨server, output⟩, hresult, heq⟩ :=
      Option.map_eq_some_iff.mp (hserve.symm.trans hprocess)
    obtain ⟨rfl, rfl⟩ := Prod.mk.inj heq
    have honce : (i, name, frames) ∉ s.calls.requests.delivered := fun hdelivered ↦
      (hguard.resolve_left (not_isNotice_request _)) (h.served _ hdelivered)
    have hallowed : GuardFits config s (.serve (i, name, frames)) := ⟨honce, trivial⟩
    have hmatch : step config s (.serve (i, name, frames)) =
        some (s.handle (i, name, frames) server output) := by
      simp [step, hrequest, hrunning, hresult]
    have hnotices : ∀ notice ∈ output.disperses, notice.clientid = config.serverId i :=
      fun notice hmem ↦ ((Sourced.of_run (hrun.tail hallowed hmatch)).dispersed (j := i)
        (mem_disperses_handle.mpr (Or.inl ⟨rfl, hmem⟩))).1
    obtain ⟨w'', hw'', hrefines⟩ := h.handle frames server hnotices
    obtain rfl := Option.some.inj (hw''.symm.trans hhandle)
    exact ⟨_, Run.single hallowed hmatch, hrefines⟩
  · have hrunning : s.alive j = true := h.alive ▸ halive
    have hserve := h.serveNotice (i := i) (j := j) (hlimited.noticed hnotice)
    obtain ⟨server, hresult, heq⟩ := Option.map_eq_some_iff.mp (hserve.symm.trans hprocess)
    obtain ⟨rfl, rfl⟩ := Prod.mk.inj heq
    have hallowed : GuardFits config s (.serveNotice (i, j, notice)) := ⟨trivial, trivial⟩
    have hmatch : step config s (.serveNotice (i, j, notice)) =
        some (s.handleNotice (i, j, notice) server) := by
      simp [step, hnotice, hrunning, hresult]
    obtain ⟨w'', hw'', hrefines⟩ := h.handleNotice i j notice server
    obtain rfl := Option.some.inj (hw''.symm.trans hhandle)
    exact ⟨_, Run.single hallowed hmatch, hrefines⟩

/-- A turn on frames is matched by the step on messages that takes the turn. -/
theorem Refines.matched {s₁ : State n} (h : Refines config w s₁) {a : Action n}
    (clientId : CString) (turn : Turn n Client Phase) (hallowed : GuardFits config s a)
    (hmatch : step config s a = some (s₁.takeTurn clientId turn))
    (hname : ∀ {name content}, turn.multicast = some (name, content) → name.client = clientId)
    (htake : w.takeTurn clientId turn = some w') :
    ∃ s', Run (step config) (GuardFits config) s s' ∧ Refines config w' s' := by
  obtain ⟨w'', hw'', hrefines⟩ := h.takeTurn hname
  obtain rfl := Option.some.inj (hw''.symm.trans htake)
  exact ⟨_, Run.single hallowed hmatch, hrefines⟩

/-- A step of a client on a message is matched. -/
theorem Refines.step_receive (hserver : ∀ i, FitsBuffer (config.serverId i))
    (hrun : Run (step config) (GuardFits config) State.initial s) (h : Refines config w s)
    {m : Fin n × Frame × List Frame} (hguard : WireGuard config w (.receive m))
    (hstep : wireStep config w (.receive m) = some w') :
    ∃ s', Run (step config) (GuardFits config) s s' ∧ Refines config w' s' := by
  have hlimited := Limited.of_run (fun _ _ hguard ↦ hguard.2) hserver hrun
  simp only [wireStep, Option.ite_none_right_eq_some, Option.bind_eq_bind,
    Option.bind_eq_some_iff] at hstep
  obtain ⟨hsent, turn, hturn, htake⟩ := hstep
  rcases (h.toClients m).mp hsent with ⟨⟨i, name, frames⟩, hresponse, rfl⟩ |
    ⟨⟨i, name, frames⟩, helement, rfl⟩
  · have hfits := hlimited.answered hresponse
    have hidentity : (responseMessage config (i, name, frames)).2.1 = name.client :=
      frame_of_fits hfits.call.client
    rw [hidentity, h.clients,
      receiveFrames_responseMessage hserver hfits (phase_of_answer hrun _ hresponse)] at hturn
    have hallowed : GuardFits config s (.receive (i, name, frames)) :=
      ⟨fun hdelivered ↦ hguard (h.received _ hdelivered), trivial⟩
    refine (h.collect (i, name, frames)).matched name.client turn hallowed
      (by simp [step, hresponse, hturn]) ?_ (hidentity ▸ htake)
    simp [(Client.receives hturn).multicast_eq]
  · have hfits := hlimited.element helement
    have hidentity : (elementMessage config (i, name, frames)).2.1 = name.client :=
      frame_of_fits hfits.call.client
    rw [hidentity, h.clients, receiveFrames_elementMessage hserver hfits
      ((Sourced.of_run hrun).element helement).1] at hturn
    have hallowed : GuardFits config s (.receiveElement (i, name, frames)) :=
      ⟨fun hdelivered ↦ hguard (h.collected _ hdelivered), trivial⟩
    refine (h.deliver (i, name, frames)).matched name.client turn hallowed
      (by simp [step, helement, hturn]) ?_ (hidentity ▸ htake)
    simp [(Client.receives hturn).multicast_eq]

/-- If the ids of the servers fit, the relation is a simulation. -/
theorem refines (hserver : ∀ i, FitsBuffer (config.serverId i)) :
    Simulation (wireStep config) (WireGuard config) WireState.initial (step config)
      (GuardFits config) State.initial (Refines config) where
  initial := refines_initial
  step := by
    intro w s b w' _ hrun h hguard hstep
    cases b with
    | invokeWrite clientId opNum object payload =>
      simp only [wireStep, Option.ite_none_right_eq_some] at hstep
      obtain ⟨hidle, htake⟩ := hstep
      have hfresh : ¬ Invoked s.history clientId opNum := h.history ▸ hguard.1
      have hallowed : GuardFits config s (.invokeWrite clientId opNum object payload) :=
        ⟨hfresh, hguard.2⟩
      exact h.matched _ _ hallowed (if_pos (h.clients ▸ hidle)) (by rintro _ _ ⟨⟩; rfl) htake
    | invokeRead clientId opNum object =>
      simp only [wireStep, Option.ite_none_right_eq_some] at hstep
      obtain ⟨hidle, htake⟩ := hstep
      have hfresh : ¬ Invoked s.history clientId opNum := h.history ▸ hguard.1
      have hallowed : GuardFits config s (.invokeRead clientId opNum object) := ⟨hfresh, hguard.2⟩
      exact h.matched _ _ hallowed (if_pos (h.clients ▸ hidle)) (by rintro _ _ ⟨⟩; rfl) htake
    | serve m => exact h.step_serve hserver hrun hguard hstep
    | receive m => exact h.step_receive hserver hrun hguard hstep
    | timeout clientId =>
      simp only [wireStep, Option.bind_eq_bind, Option.bind_eq_some_iff] at hstep
      obtain ⟨turn, hturn, htake⟩ := hstep
      rw [h.clients] at hturn
      have hnew : (s.clients clientId).NewTagFits config.strcmp clientId := h.clients ▸ hguard
      have hallowed : GuardFits config s (.timeout clientId) := ⟨trivial, hnew⟩
      exact h.matched _ _ hallowed (by simp [step, hturn])
        (fun hcall ↦ (Client.timesOut hturn).client_eq hcall) htake
    | stop i =>
      obtain rfl := Option.some.inj hstep
      have hallowed : GuardFits config s (.stop i) := ⟨trivial, trivial⟩
      refine ⟨{ s with alive := Function.update s.alive i false },
        Run.single hallowed rfl, { h with alive := ?_ }⟩
      rw [h.alive]

/-- Every run on frames that `WireGuard` allows is matched by a run on messages: the clients are in
the same states and have done the same operations, and the frames on the wire are those of the
messages. -/
theorem exists_run_of_wire (hserver : ∀ i, FitsBuffer (config.serverId i))
    (run : WireRun config w) :
    ∃ s, Run (step config) Guard State.initial s ∧ Refines config w s := by
  obtain ⟨s, hs, hrefines⟩ := (refines hserver).run run
  exact ⟨s, hs.weaken fun _ _ h ↦ h.1, hrefines⟩

/-- An action on messages, as it is on frames. -/
def Action.onWire (config : Config n) : Action n → WireAction n
  | .invokeWrite clientId opNum object payload => .invokeWrite clientId opNum object payload
  | .invokeRead clientId opNum object => .invokeRead clientId opNum object
  | .serve request => .serve (requestMessage request)
  | .serveNotice notice => .serve (noticeMessage notice)
  | .receive response => .receive (responseMessage config response)
  | .receiveElement element => .receive (elementMessage config element)
  | .timeout clientId => .timeout clientId
  | .stop i => .stop i

/-- The state after these actions on frames, if all are possible and allowed. -/
def executeOnWire (config : Config n) (actions : List (Action n)) : Option (WireState n) :=
  execute (wireStep config) (WireGuard config) WireState.initial
    (actions.map (Action.onWire config))

/-- The write and the read on three servers on frames, with the notice of the first server to the
last one. -/
theorem exists_run_of_wire_sample : ∃ w : WireState 3,
    w.history = sampleHistory [1, 2, 3, 4] ∧
      ∃ s, Run (step (sampleConfig 3)) Guard State.initial s ∧ Refines (sampleConfig 3) w s := by
  have hhistory : (executeOnWire (sampleConfig 3)
      (sampleWrite [1, 2, 3, 4] ++ sampleRead [1, 2, 3, 4] ++
        [.serveNotice (0, 2, sampleNotice 0), .timeout (ascii ['r'])])).map
        WireState.history = some (sampleHistory [1, 2, 3, 4]) := by
    decide +kernel
  obtain ⟨w, hexecute, hw⟩ := Option.map_eq_some_iff.mp hhistory
  exact ⟨w, hw, exists_run_of_wire (by decide) (run_of_execute hexecute)⟩

end Simulation

/-! ### No message stops a process -/

section Handled

variable {w : WireState n} {s : State n}

/-- A client that runs an operation takes a turn on every message with the rendering of a tag, if
an element that it counts does not have a smaller tag than it has asked for. -/
theorem Client.receive_isSome (strcmp : Strcmp) (clientId : CString) {client : Client}
    (hidle : client ≠ .idle) (hexited : client ≠ .exited) {round : ℕ} {phase : Phase}
    {frames : Body} (htag : frames.tag = tagToString frames.tagValue)
    (hle : phase = .readValue → ∀ object readTag recvDataset,
      client = .readValue round object readTag recvDataset none → readTag ≤ frames.tagValue) :
    (client.receive (n := n) strcmp clientId round phase frames).isSome = true := by
  have hparse := parse_rendered htag
  cases client with
  | idle => exact absurd rfl hidle
  | exited => exact absurd rfl hexited
  | get opNum object operation responses tagList =>
    by_cases hcounts : round = opNum ∧ phase = operation.getPhase
    · simp [Client.receive, sodawWriteGetOrReadGetPhase, hcounts, hparse]
    · simp [Client.receive, sodawWriteGetOrReadGetPhase, hcounts]
  | writePut opNum object tag responses =>
    rw [Client.receive]
    cases sodawWritePutPhase n opNum responses round phase <;> rfl
  | readValue opNum object readTag recvDataset decodeableKey =>
    by_cases hcounts : decodeableKey = none ∧ round = opNum ∧ phase = .readValue
    · obtain ⟨rfl, rfl, rfl⟩ := hcounts
      have hge : 0 ≤ compareTags strcmp frames.tagValue readTag :=
        (compareTags_nonneg_iff strcmp _ _).mpr (hle rfl object readTag recvDataset rfl)
      by_cases hmany : majority n ≤ (dataList recvDataset frames.tag).length + 1
      · simp [Client.receive, sodawReadValue, hparse, hge, hmany]
      · simp [Client.receive, sodawReadValue, hparse, hge, hmany]
    · simp [Client.receive, sodawReadValue, hparse, hcounts]

/-- A client that runs an operation receives everything that was sent to it. -/
theorem receives_answer (hrun : Run (step config) (GuardFits config) State.initial s) {i : Fin n}
    {name : CallId Phase} {frames : Body} (hidle : s.clients name.client ≠ .idle)
    (hexited : s.clients name.client ≠ .exited)
    (hsent : (i, name, frames) ∈ s.calls.answers.sent) :
    ((s.clients name.client).receive (n := n) config.strcmp name.client name.opnum name.phase
      frames).isSome = true := by
  obtain ⟨hphase, htag, -⟩ := (Shape.of_run hrun).answered hsent
  exact Client.receive_isSome config.strcmp name.client hidle hexited htag
    fun hread ↦ absurd hread hphase

theorem receives_element (hrun : Run (step config) (GuardFits config) State.initial s) {i : Fin n}
    {name : CallId Phase} {frames : Body} (hidle : s.clients name.client ≠ .idle)
    (hexited : s.clients name.client ≠ .exited) (hsent : (i, name, frames) ∈ s.elements.sent) :
    ((s.clients name.client).receive (n := n) config.strcmp name.client name.opnum name.phase
      frames).isSome = true := by
  have hshape := Shape.of_run hrun
  have hnumbered := Numbered.of_run (fun _ _ hguard ↦ hguard.1.freshNumbers) hrun
  refine Client.receive_isSome config.strcmp name.client hidle hexited (hshape.element hsent).1
    fun hphase object readTag recvDataset hclient ↦ ?_
  -- the element answers the request of the reader, which asks for its tag
  obtain ⟨-, ⟨request, hdelivered, hle⟩, -⟩ := (Sourced.of_run hrun).element hsent
  have hname : (⟨name.client, name.opnum, .readValue⟩ : CallId Phase) = name := by
    rw [← hphase]
  have hrequest : (i, ⟨name.client, name.opnum, .readValue⟩, request) ∈
      s.calls.requests.sent := by
    rw [hname]
    exact hshape.served _ hdelivered
  have hreading := hnumbered.clients name.client
  rw [hclient] at hreading
  exact (hreading.2.1.of_mem hnumbered hrequest).2 ▸ hle

/-- A server that runs handles everything that was sent to it, if the tags that it stores are short
and the keys of the notices have room. -/
theorem Refines.serve_isSome (hserver : ∀ i, FitsBuffer (config.serverId i))
    (hrun : Run (step config) (GuardFits config) State.initial s) (h : Refines config w s)
    (hshort : ShortTags w.history) (hroom : RoomForKeys config w.history)
    {m : Fin n × Frame × List Frame} (hsent : m ∈ w.toServers.sent) (halive : w.alive m.1 = true) :
    (wireStep config w (.serve m)).isSome = true := by
  have hlimited := Limited.of_run (fun _ _ hguard ↦ hguard.2) hserver hrun
  have hshape := Shape.of_run hrun
  have hstep : wireStep config w (.serve m) =
      ((w.servers m.1).serverWorkerFrames config.strcmp (config.serverArgs m.1)
        (routerReceive m.2.1 m.2.2)).bind fun result ↦ w.handle config m result.1 result.2 :=
    if_pos ⟨hsent, halive⟩
  rw [hstep]
  rcases (h.toServers m).mp hsent with ⟨⟨i, name, frames⟩, hrequest, rfl⟩ |
    ⟨⟨i, j, notice⟩, hnotice, rfl⟩
  · have hcorrect := algorithmSODAW_eq config.strcmp (config.serverArgs i) (hshape.stores i)
      fun hcarries ↦ (hshape.requested hrequest hcarries).1
    rw [h.history] at hshort
    obtain ⟨server, output, hresult, -, -⟩ := hcorrect.of_short
      (hshort.of_made ((TagsMade.of_run hrun).stored frames.object i))
    have hserve := h.serve (i := i) (hlimited.requested hrequest)
    rw [hresult, Option.map_some] at hserve
    refine isSome_bind_of_eq_some hserve ?_
    rw [handle_eq]
    rfl
  · obtain ⟨sendTag, readTag, hsend, hread⟩ := hshape.noticed hnotice
    rw [h.history] at hroom
    obtain ⟨server, hresult, -⟩ :=
      algorithmSODAWOnNotice_eq (config.serverArgs j) (hshape.stores j) hsend hread
        fun _ ↦ hroom.key_length hrun hnotice
    have hserve := h.serveNotice (i := i) (j := j) (hlimited.noticed hnotice)
    rw [hresult, Option.map_some] at hserve
    exact isSome_bind_of_eq_some hserve rfl

/-- A client that runs an operation receives everything that was sent to it. -/
theorem Refines.receive_isSome (hserver : ∀ i, FitsBuffer (config.serverId i))
    (hrun : Run (step config) (GuardFits config) State.initial s) (h : Refines config w s)
    {m : Fin n × Frame × List Frame} (hsent : m ∈ w.toClients.sent)
    (hidle : w.clients m.2.1 ≠ .idle) (hexited : w.clients m.2.1 ≠ .exited) :
    (wireStep config w (.receive m)).isSome = true := by
  have hlimited := Limited.of_run (fun _ _ hguard ↦ hguard.2) hserver hrun
  have hstep : wireStep config w (.receive m) =
      ((w.clients m.2.1).receiveFrames config.strcmp m.2.1 m.2.2).bind fun turn ↦
        ({ w with toClients := w.toClients.deliver m } : WireState n).takeTurn m.2.1 turn :=
    if_pos hsent
  rw [hstep]
  rw [h.clients] at hidle hexited ⊢
  rcases (h.toClients m).mp hsent with ⟨⟨i, name, frames⟩, hresponse, rfl⟩ |
    ⟨⟨i, name, frames⟩, helement, rfl⟩
  · have hfits := hlimited.answered hresponse
    have hidentity : (responseMessage config (i, name, frames)).2.1 = name.client :=
      frame_of_fits hfits.call.client
    rw [hidentity] at hidle hexited ⊢
    obtain ⟨turn, hturn⟩ :=
      Option.isSome_iff_exists.mp (receives_answer hrun hidle hexited hresponse)
    rw [← receiveFrames_responseMessage hserver hfits (phase_of_answer hrun _ hresponse)] at hturn
    exact isSome_bind_of_eq_some hturn (takeTurn_isSome _ _ turn)
  · have hfits := hlimited.element helement
    have hidentity : (elementMessage config (i, name, frames)).2.1 = name.client :=
      frame_of_fits hfits.call.client
    rw [hidentity] at hidle hexited ⊢
    obtain ⟨turn, hturn⟩ :=
      Option.isSome_iff_exists.mp (receives_element hrun hidle hexited helement)
    rw [← receiveFrames_elementMessage hserver hfits
      ((Sourced.of_run hrun).element helement).1] at hturn
    exact isSome_bind_of_eq_some hturn (takeTurn_isSome _ _ turn)

/-- In every run on frames whose tags fit into the buffer of `get_object_tag` and whose notices have
keys that fit into that of `HistoryData_keystring`, each message that was sent to a server that runs
can be handled, and each message that was sent to a client that runs an operation can be received:
no frame is missing, no buffer is too small and no assertion fails. -/
theorem handled_on_wire (hserver : ∀ i, FitsBuffer (config.serverId i)) (run : WireRun config w)
    (hshort : ShortTags w.history) (hroom : RoomForKeys config w.history) :
    (∀ m ∈ w.toServers.sent, w.alive m.1 = true →
      (wireStep config w (.serve m)).isSome = true) ∧
    ∀ m ∈ w.toClients.sent, w.clients m.2.1 ≠ .idle → w.clients m.2.1 ≠ .exited →
      (wireStep config w (.receive m)).isSome = true := by
  obtain ⟨s, hrun, hrefines⟩ := (refines hserver).run run
  exact ⟨fun _ hsent halive ↦ hrefines.serve_isSome hserver hrun hshort hroom hsent halive,
    fun _ hsent hidle hexited ↦ hrefines.receive_isSome hserver hrun hsent hidle hexited⟩

/-- When the first server has handled the `READ_VALUE` of the reader, its element and its three
notices are on the wire, beside twelve requests and six responses, and all can be handled. -/
theorem handled_on_wire_sample : ∃ w : WireState 3,
    (w.toServers.sent.length = 15 ∧ w.toClients.sent.length = 7) ∧
      (∀ m ∈ w.toServers.sent, w.alive m.1 = true →
        (wireStep (sampleConfig 3) w (.serve m)).isSome = true) ∧
      ∀ m ∈ w.toClients.sent, w.clients m.2.1 ≠ .idle → w.clients m.2.1 ≠ .exited →
        (wireStep (sampleConfig 3) w (.receive m)).isSome = true := by
  have hrun : (executeOnWire (sampleConfig 3)
      (sampleWrite [1, 2, 3, 4] ++ (sampleRead [1, 2, 3, 4]).take 7)).map
        (fun w ↦ ((w.toServers.sent.length, w.toClients.sent.length), w.history)) =
          some ((15, 7), (sampleHistory [1, 2, 3, 4]).drop 2) := by
    decide +kernel
  obtain ⟨w, hexecute, hw⟩ := Option.map_eq_some_iff.mp hrun
  obtain ⟨hsent, hhistory⟩ := Prod.mk.inj hw
  have hsub : w.history ⊆ sampleHistory [1, 2, 3, 4] := by
    rw [hhistory]
    exact List.drop_subset _ _
  exact ⟨w, Prod.mk.inj hsent, handled_on_wire (by decide) (run_of_execute hexecute)
    ((shortTags_sampleHistory _).mono hsub) ((roomForKeys_sampleHistory _).mono hsub)⟩

end Handled

end Colas.Sodaw
