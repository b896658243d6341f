import Colas.Sodaw.Sizes
import Colas.Shared.Foreign

/-!
# Each algorithm runs as if it were alone

`Separates` relates a state of the shared system to a state of ABD and a state of SODAW on frames:
each has its part of the servers, of the clients and of the history, and the messages on the wire
are those of the two together. It is a simulation of the two systems side by side (`separates`), so
every run of the shared system is matched by a run of ABD and one of SODAW, in which the operations
of the algorithm return the same as they do in the shared run (`exists_runs_of_shared`).

The one thing that a message of one algorithm does to an operation of the other is that a read of
ABD ends the process when it prints a coded element of less than 100 bytes. In the run of ABD alone
that client waits forever.
-/

set_option autoImplicit false
set_option relaxedAutoImplicit false

namespace Colas.Shared

open TransitionSystem

variable {n : ℕ} {config : Sodaw.Config n}

/-- The process as a client of ABD. -/
def Client.abdClient : Client → Abd.Client
  | .abd client => client
  | .sodaw _ => .idle

/-- The process as a client of SODAW. -/
def Client.sodawClient : Client → Sodaw.Client
  | .abd _ => .idle
  | .sodaw client => client

/-- A state of the system with the state of ABD and the state of SODAW that are in it. -/
structure Separates (config : Sodaw.Config n) (w : State n)
    (s : Abd.State n × Sodaw.WireState n) : Prop where
  objectsABD : ∀ i, (w.servers i).abd.objects = (s.1.servers i).objects
  sodaw : ∀ i, (w.servers i).sodaw.Agrees (s.2.servers i).sodaw
  alive : w.alive = s.2.alive
  /-- If the initial data are small, an element may have ended the process. -/
  abdClients : ∀ clientId, (w.clients clientId).abdClient = s.1.clients clientId ∨
    w.clients clientId = .abd .exited ∧ config.initData.length < 100
  sodawClients : ∀ clientId, (w.clients clientId).sodawClient = s.2.clients clientId
  abdEvents : w.events .abd = s.1.history
  sodawEvents : w.events .sodaw = s.2.history
  toServers : ∀ m, m ∈ w.toServers.sent ↔
    (∃ request ∈ s.1.calls.requests.sent, m = Abd.requestMessage request) ∨
      m ∈ s.2.toServers.sent
  toClients : ∀ m, m ∈ w.toClients.sent ↔
    (∃ response ∈ s.1.calls.answers.sent, m = Abd.responseMessage config.serverId response) ∨
      m ∈ s.2.toClients.sent
  abdServed : ∀ request ∈ s.1.calls.requests.delivered,
    Abd.requestMessage request ∈ w.toServers.delivered
  abdReceived : ∀ response ∈ s.1.calls.answers.delivered,
    Abd.responseMessage config.serverId response ∈ w.toClients.delivered
  sodawServed : s.2.toServers.delivered ⊆ w.toServers.delivered
  sodawReceived : s.2.toClients.delivered ⊆ w.toClients.delivered

theorem separates_initial :
    Separates config State.initial (Abd.State.initial, Sodaw.WireState.initial) where
  objectsABD := fun _ ↦ rfl
  sodaw := fun _ ↦ ⟨rfl, rfl⟩
  alive := rfl
  abdClients := fun _ ↦ Or.inl rfl
  sodawClients := fun _ ↦ rfl
  abdEvents := rfl
  sodawEvents := rfl
  toServers := fun m ↦ by simp [State.initial, Sodaw.WireState.initial, Abd.State.initial,
    Calls.empty]
  toClients := fun m ↦ by simp [State.initial, Sodaw.WireState.initial, Abd.State.initial,
    Calls.empty]
  abdServed := fun _ h ↦ absurd h List.not_mem_nil
  abdReceived := fun _ h ↦ absurd h List.not_mem_nil
  sodawServed := List.nil_subset _
  sodawReceived := List.nil_subset _

/-! ### Turns of clients -/

/-- What a client process sends to the servers in a turn. -/
def turnMessages (clientId : CString) : ClientTurn n → List (Fin n × Frame × List Frame)
  | .abd turn => Abd.turnMessages clientId turn
  | .sodaw turn => Sodaw.turnMessages clientId turn

theorem messages_eq (clientId : CString) (turn : ClientTurn n) :
    turn.messages clientId = some (turnMessages clientId turn) := by
  cases turn with
  | abd turn =>
    rcases hcall : turn.multicast with - | ⟨name, content⟩
    · simp [ClientTurn.messages, turnMessages, Abd.turnMessages, hcall]
    · have hmessages : Abd.multicastMessages clientId name content = some ((List.finRange n).map
          fun i ↦ (i, (Value.text clientId).frame, wire (Abd.requestFields name (content i)))) :=
        mapM_eq_some_map fun i _ ↦ by rw [abd_sendRequest, Option.map_some]
      simp only [ClientTurn.messages, turnMessages, Abd.turnMessages, hcall, Option.elim_some,
        hmessages]
  | sodaw turn =>
    rcases hcall : turn.multicast with - | ⟨name, content⟩
    · simp [ClientTurn.messages, turnMessages, Sodaw.turnMessages, hcall]
    · have hmessages : Sodaw.multicastMessages clientId name content = some ((List.finRange n).map
          fun i ↦ (i, (Value.text clientId).frame, wire (Sodaw.requestFields name (content i)))) :=
        mapM_eq_some_map fun i _ ↦ by rw [sodaw_sendRequest, Option.map_some]
      simp only [ClientTurn.messages, turnMessages, Sodaw.turnMessages, hcall, Option.elim_some,
        hmessages]

theorem takeTurn_eq (w : State n) (clientId : CString) (turn : ClientTurn n) :
    w.takeTurn clientId turn = some { w with
      clients := Function.update w.clients clientId turn.client
      toServers := w.toServers.send (turnMessages clientId turn)
      history := turn.events ++ w.history } := by
  rw [State.takeTurn, messages_eq]
  rfl

/-- The events after a turn, by algorithm. -/
theorem eventsOfAlgorithm_append (algorithm other : Algorithm) (events : List Event)
    (history : List (Algorithm × Event)) :
    eventsOfAlgorithm algorithm (events.map (fun e ↦ (other, e)) ++ history) =
      (if other = algorithm then events else []) ++ eventsOfAlgorithm algorithm history := by
  rw [eventsOfAlgorithm, List.filterMap_append, List.filterMap_map]
  congr 1
  split_ifs with heq
  · simp [heq]
  · simp [heq]

section Turns

variable {w w' : State n} {s : Abd.State n} {v v' : Sodaw.WireState n} {clientId : CString}

/-- A turn of a client of ABD, if the process has no operation of SODAW. -/
theorem Separates.takeAbdTurn (h : Separates config w (s, v))
    {turn : Turn n Abd.Client Abd.Phase}
    (hname : ∀ {name content}, turn.multicast = some (name, content) → name.client = clientId)
    (hfree : (w.clients clientId).sodawClient = .idle)
    (hturn : w.takeTurn clientId (.abd turn) = some w') :
    Separates config w' (s.takeTurn clientId turn, v) := by
  rw [takeTurn_eq, Option.some.injEq] at hturn
  subst hturn
  refine
    { h with
      abdClients := fun other ↦ ?_
      sodawClients := fun other ↦ ?_
      abdEvents := ?_
      sodawEvents := ?_
      toServers := fun m ↦ ?_
      toClients := fun m ↦ ?_
      abdServed := fun request hmem ↦ ?_
      abdReceived := fun response hmem ↦ ?_ }
  · by_cases hother : other = clientId
    · subst hother
      exact Or.inl (by simp [ClientTurn.client, Client.abdClient])
    · simpa [Function.update_of_ne hother] using h.abdClients other
  · by_cases hother : other = clientId
    · subst hother
      have hidle := (h.sodawClients other).symm.trans hfree
      simpa [ClientTurn.client, Client.sodawClient] using hidle.symm
    · simpa [Function.update_of_ne hother] using h.sodawClients other
  · rw [Abd.history_takeTurn, ← h.abdEvents]
    exact eventsOfAlgorithm_append _ _ _ _
  · rw [← h.sodawEvents]
    exact eventsOfAlgorithm_append _ _ _ _
  · have hnew : m ∈ Abd.turnMessages clientId turn ↔
        ∃ name content i, turn.multicast = some (name, content) ∧
          m = Abd.requestMessage (i, name, content i) := by
      rcases hcall : turn.multicast with - | ⟨name, content⟩
      · simp [Abd.turnMessages, hcall]
      · obtain rfl := hname hcall
        simp [Abd.turnMessages, hcall, Abd.requestMessage, eq_comm]
    rw [Network.sent_send, List.mem_append, turnMessages, hnew, h.toServers m]
    constructor
    · rintro (⟨name, content, i, hcall, rfl⟩ | ⟨⟨i, name, frames⟩, hold, rfl⟩ | hsodaw)
      · exact Or.inl ⟨(i, name, content i),
          (turn.mem_requests_sendOn s.calls).mpr (Or.inl ⟨content, hcall, rfl⟩), rfl⟩
      · exact Or.inl ⟨(i, name, frames), (turn.mem_requests_sendOn s.calls).mpr (Or.inr hold), rfl⟩
      · exact Or.inr hsodaw
    · rintro (⟨⟨i, name, frames⟩, hmem, rfl⟩ | hsodaw)
      · rcases (turn.mem_requests_sendOn s.calls).mp hmem with ⟨content, hcall, rfl⟩ | hold
        · exact Or.inl ⟨name, content, i, hcall, rfl⟩
        · exact Or.inr (Or.inl ⟨_, hold, rfl⟩)
      · exact Or.inr (Or.inr hsodaw)
  · rw [Abd.calls_takeTurn, Turn.answers_sendOn]
    exact h.toClients m
  · rw [Abd.calls_takeTurn, Turn.delivered_sendOn] at hmem
    exact h.abdServed request hmem
  · rw [Abd.calls_takeTurn, Turn.answers_sendOn] at hmem
    exact h.abdReceived response hmem

/-- A turn of a client of SODAW, if the process has no operation of ABD. -/
theorem Separates.takeSodawTurn (h : Separates config w (s, v))
    {turn : Turn n Sodaw.Client Sodaw.Phase} (hfree : s.clients clientId = .idle)
    (hturn : w.takeTurn clientId (.sodaw turn) = some w') :
    ∃ v', v.takeTurn clientId turn = some v' ∧ Separates config w' (s, v') := by
  rw [takeTurn_eq, Option.some.injEq] at hturn
  subst hturn
  refine ⟨_, Sodaw.takeTurn_eq v clientId turn,
    { h with
      abdClients := fun other ↦ ?_
      sodawClients := fun other ↦ ?_
      abdEvents := ?_
      sodawEvents := ?_
      toServers := fun m ↦ ?_ }⟩
  · by_cases hother : other = clientId
    · subst hother
      exact Or.inl (by simp [ClientTurn.client, Client.abdClient, hfree])
    · simpa [Function.update_of_ne hother] using h.abdClients other
  · by_cases hother : other = clientId
    · subst hother
      simp [ClientTurn.client, Client.sodawClient]
    · simpa [Function.update_of_ne hother] using h.sodawClients other
  · rw [← h.abdEvents]
    exact eventsOfAlgorithm_append _ _ _ _
  · rw [← h.sodawEvents]
    exact eventsOfAlgorithm_append _ _ _ _
  · rw [Network.sent_send, List.mem_append, Network.sent_send, List.mem_append, h.toServers m,
      turnMessages]
    exact or_left_comm

/-- A turn on a message of the other algorithm: the process goes on, or it is ended. -/
theorem Separates.skip (h : Separates config w (s, v)) {turn : ClientTurn n}
    (hmessages : turnMessages clientId turn = []) (hevents : turn.events = [])
    (hclient : turn.client = w.clients clientId ∨ turn.client = .abd .exited ∧
      (w.clients clientId).sodawClient = .idle ∧ config.initData.length < 100)
    (hturn : w.takeTurn clientId turn = some w') : Separates config w' (s, v) := by
  rw [takeTurn_eq, hmessages, hevents, Network.send_nil, List.nil_append,
    Option.some.injEq] at hturn
  subst hturn
  refine
    { h with
      abdClients := fun other ↦ ?_
      sodawClients := fun other ↦ ?_ }
  · by_cases hother : other = clientId
    · subst hother
      rcases hclient with hsame | ⟨hended, -, hsmall⟩
      · simpa [hsame] using h.abdClients other
      · exact Or.inr ⟨by simp [hended], hsmall⟩
    · simpa [Function.update_of_ne hother] using h.abdClients other
  · by_cases hother : other = clientId
    · subst hother
      rcases hclient with hsame | ⟨hended, hfree, -⟩
      · simpa [hsame] using h.sodawClients other
      · have hidle := (h.sodawClients other).symm.trans hfree
        simpa [hended, Client.sodawClient] using hidle.symm
    · simpa [Function.update_of_ne hother] using h.sodawClients other

/-- A response of ABD is delivered. -/
theorem Separates.collect (h : Separates config w (s, v))
    (response : Fin n × CallId Abd.Phase × Body) :
    Separates config
      { w with
        toClients := w.toClients.deliver (Abd.responseMessage config.serverId response) }
      ({ s with calls := s.calls.collect response }, v) :=
  { h with
    abdReceived := fun other hmem ↦ by
      rcases List.mem_cons.mp hmem with rfl | hold
      · exact List.mem_cons_self
      · exact List.mem_cons_of_mem _ (h.abdReceived other hold)
    sodawReceived := fun _ hmem ↦ List.mem_cons_of_mem _ (h.sodawReceived hmem) }

/-- A message of SODAW is delivered. -/
theorem Separates.deliver (h : Separates config w (s, v)) (m : Fin n × Frame × List Frame) :
    Separates config { w with toClients := w.toClients.deliver m }
      (s, { v with toClients := v.toClients.deliver m }) :=
  { h with
    abdReceived := fun other hmem ↦ List.mem_cons_of_mem _ (h.abdReceived other hmem)
    sodawReceived := List.cons_subset_cons m h.sodawReceived }

/-- A message is delivered to a process that runs the other algorithm. -/
theorem Separates.drop (h : Separates config w (s, v)) (m : Fin n × Frame × List Frame) :
    Separates config { w with toClients := w.toClients.deliver m } (s, v) :=
  { h with
    abdReceived := fun other hmem ↦ List.mem_cons_of_mem _ (h.abdReceived other hmem)
    sodawReceived := fun _ hmem ↦ List.mem_cons_of_mem _ (h.sodawReceived hmem) }

end Turns

/-! ### Steps of servers -/

/-- Results that agree in a part are both there, and agree in it. -/
theorem exists_of_map_eq {α β γ : Type*} {f : α → γ} {g : β → γ} {o : Option α} {o' : Option β}
    {a : α} (h : o.map f = o'.map g) (ho : o = some a) : ∃ b, o' = some b ∧ g b = f a := by
  rw [ho, Option.map_some] at h
  exact Option.map_eq_some_iff.mp h.symm

section Servers

variable {w w' : State n} {s : Abd.State n} {v : Sodaw.WireState n}

/-- A server handles a request of ABD. -/
theorem Separates.handleAbd (h : Separates config w (s, v)) {i : Fin n} {name : CallId Abd.Phase}
    {frames : Body} {server server' : Abd.Server} {response : Body}
    (hobjects : server.objects = server'.objects)
    (hhandle : w.handle config (Abd.requestMessage (i, name, frames))
      ((w.servers i).withAbd server) (Sent.reply ((Value.text name.client).frame ::
        wire (Abd.responseFields (config.serverId i) name response))) = some w') :
    Separates config w' (s.handle (i, name, frames) server' response, v) := by
  obtain rfl : _ = w' := Option.some.inj hhandle
  refine
    { h with
      objectsABD := fun j ↦ ?_
      sodaw := fun j ↦ ?_
      toServers := fun m ↦ ?_
      toClients := fun m ↦ ?_
      abdServed := fun request hmem ↦ ?_
      sodawServed := fun m hmem ↦ List.mem_cons_of_mem _ (h.sodawServed hmem) }
  · by_cases hj : j = i
    · subst hj
      simpa [Abd.requestMessage, Abd.State.handle] using hobjects
    · simpa [Abd.requestMessage, Abd.State.handle, Function.update_of_ne hj] using h.objectsABD j
  · by_cases hj : j = i
    · subst hj
      simpa [Abd.requestMessage] using
        (Sodaw.agrees_withAbd (w.servers j) server).trans (h.sodaw j)
    · simpa [Abd.requestMessage, Function.update_of_ne hj] using h.sodaw j
  · exact h.toServers m
  · have hnew : m ∈ [Abd.responseMessage config.serverId (i, name, response)] ++
        w.toClients.sent ↔ (∃ answer ∈ (i, name, response) :: s.calls.answers.sent,
          m = Abd.responseMessage config.serverId answer) ∨ m ∈ v.toClients.sent := by
      rw [List.mem_append, List.mem_singleton, h.toClients m, List.exists_mem_cons_iff, or_assoc]
    exact hnew
  · rcases List.mem_cons.mp hmem with rfl | hold
    · exact List.mem_cons_self
    · exact List.mem_cons_of_mem _ (h.abdServed request hold)

/-- What a process does with the frames of a request of SODAW does not depend on the counters and
leaves ABD as it is. -/
theorem agrees_request {process process' after : ServerProcess} {sent : Sent}
    {args : Sodaw.ServerArgs} {strcmp : Strcmp} (hagrees : process.sodaw.Agrees process'.sodaw)
    {name : CallId Sodaw.Phase} {request : Body} (hfits : Sodaw.RequestFits name request)
    (hworker : process.serverWorkerFrames strcmp args (routerReceive (Value.text name.client).frame
      (wire (Sodaw.requestFields name request))) = some (after, sent)) :
    after.abd.objects = process.abd.objects ∧ ∃ after',
      process'.serverWorkerFrames strcmp args (routerReceive (Value.text name.client).frame
        (wire (Sodaw.requestFields name request))) = some (after', sent) ∧
      after.sodaw.Agrees after'.sodaw := by
  rw [serverWorkerFrames_request strcmp args process hfits] at hworker
  obtain ⟨⟨server, output⟩, hserver, heq⟩ := Option.map_eq_some_iff.mp hworker
  obtain ⟨rfl, rfl⟩ := Prod.mk.inj heq
  obtain ⟨⟨server', output'⟩, hserver', hsame⟩ :=
    exists_of_map_eq (hagrees.algorithmSODAW name request) hserver
  simp only [Sodaw.uncounted, Prod.mk.injEq] at hsame
  obtain ⟨⟨hobjects, htables⟩, rfl⟩ := hsame
  refine ⟨rfl, process'.withSodaw server', ?_, ⟨hobjects.symm, htables.symm⟩⟩
  rw [serverWorkerFrames_request strcmp args process' hfits, hserver', Option.map_some]

/-- So it is with a notice. -/
theorem agrees_notice {process process' after : ServerProcess} {sent : Sent}
    {args : Sodaw.ServerArgs} {strcmp : Strcmp} (hagrees : process.sodaw.Agrees process'.sodaw)
    {notice : Sodaw.Disperse} (hfits : Sodaw.NoticeFits notice)
    (hworker : process.serverWorkerFrames strcmp args
      (routerReceive (Value.text notice.clientid).frame (wire (disperseFields .serverid notice))) =
        some (after, sent)) :
    after.abd.objects = process.abd.objects ∧ ∃ after',
      process'.serverWorkerFrames strcmp args (routerReceive (Value.text notice.clientid).frame
        (wire (disperseFields .serverid notice))) = some (after', sent) ∧
      after.sodaw.Agrees after'.sodaw := by
  rw [serverWorkerFrames_notice strcmp args process hfits] at hworker
  obtain ⟨server, hserver, heq⟩ := Option.map_eq_some_iff.mp hworker
  obtain ⟨rfl, rfl⟩ := Prod.mk.inj heq
  obtain ⟨server', hserver', hsame⟩ :=
    exists_of_map_eq (hagrees.algorithmSODAWOnNotice notice) hserver
  simp only [Sodaw.uncounted, Prod.mk.injEq, and_true] at hsame
  refine ⟨rfl, process'.withSodaw server', ?_, ⟨hsame.1.symm, hsame.2.symm⟩⟩
  rw [serverWorkerFrames_notice strcmp args process' hfits, hserver', Option.map_some]

/-- A server handles a message of SODAW. -/
theorem Separates.handleSodaw (h : Separates config w (s, v)) {m : Fin n × Frame × List Frame}
    {process process' : ServerProcess} {sent : Sent}
    (hobjects : process.abd.objects = (w.servers m.1).abd.objects)
    (hagrees : process.sodaw.Agrees process'.sodaw)
    (hhandle : w.handle config m process sent = some w') :
    ∃ v', v.handle config m process' sent = some v' ∧ Separates config w' (s, v') := by
  simp only [State.handle, Option.bind_eq_bind, Option.bind_eq_some_iff, Option.some.injEq]
    at hhandle
  obtain ⟨replies, hreplies, rfl⟩ := hhandle
  have hmatch : v.handle config m process' sent = some { v with
      servers := Function.update v.servers m.1 process'
      toServers := (v.toServers.deliver m).send (sent.servers.flatMap fun msg ↦
        (List.finRange n).map fun j ↦ (j, (Value.text (config.serverId m.1)).frame, msg))
      toClients := v.toClients.send (replies.map fun reply ↦ (m.1, reply)) } := by
    rw [Sodaw.WireState.handle, hreplies]
    rfl
  refine ⟨_, hmatch,
    { h with
      objectsABD := fun j ↦ ?_
      sodaw := fun j ↦ ?_
      toServers := fun other ↦ ?_
      toClients := fun other ↦ ?_
      abdServed := fun request hmem ↦ List.mem_cons_of_mem _ (h.abdServed request hmem)
      sodawServed := List.cons_subset_cons m h.sodawServed }⟩
  · by_cases hj : j = m.1
    · subst hj
      simpa [hobjects] using h.objectsABD m.1
    · simpa [Function.update_of_ne hj] using h.objectsABD j
  · by_cases hj : j = m.1
    · subst hj
      simpa using hagrees
    · simpa [Function.update_of_ne hj] using h.sodaw j
  · simp only [Network.sent_send, Network.sent_deliver, List.mem_append, h.toServers other]
    exact or_left_comm
  · simp only [Network.sent_send, List.mem_append, h.toClients other]
    exact or_left_comm

end Servers

/-! ### The simulation -/

/-- The guard of the runs of ABD. -/
def AbdGuard (config : Sodaw.Config n) (s : Abd.State n) (a : Abd.Action n) : Prop :=
  Abd.Guard s a ∧ Abd.Fits config.strcmp s a

/-- The runs of the two algorithms on processes of their own. -/
abbrev RunApart (config : Sodaw.Config n) :
    Abd.State n × Sodaw.WireState n → Abd.State n × Sodaw.WireState n → Prop :=
  Run (sideBySide (Abd.step config.strcmp config.initData) (Sodaw.wireStep config))
    (sideBySideGuard (AbdGuard config) (Sodaw.WireGuard config))

section Simulation

variable {w w' : State n} {s : Abd.State n} {v : Sodaw.WireState n}

/-- A message of SODAW on the wire is a request or a notice that fits. -/
theorem sodaw_toServers (hserver : ∀ i, FitsBuffer (config.serverId i))
    (hrun : Sodaw.WireRun config v) {m : Fin n × Frame × List Frame}
    (hsent : m ∈ v.toServers.sent) :
    (∃ i name frames, m = Sodaw.requestMessage (i, name, frames) ∧
      Sodaw.RequestFits name frames) ∨
    ∃ i j notice, m = Sodaw.noticeMessage (i, j, notice) ∧ Sodaw.NoticeFits notice := by
  obtain ⟨u, hu, hrefines⟩ := (Sodaw.refines hserver).run hrun
  have hlimited := Sodaw.Limited.of_run (fun _ _ hguard ↦ hguard.2) hserver hu
  rcases (hrefines.toServers m).mp hsent with ⟨⟨i, name, frames⟩, hrequest, rfl⟩ |
    ⟨⟨i, j, notice⟩, hnotice, rfl⟩
  · exact Or.inl ⟨i, name, frames, rfl, hlimited.requested hrequest⟩
  · exact Or.inr ⟨i, j, notice, rfl, hlimited.noticed hnotice⟩

/-- A request of ABD is not a notice. -/
theorem not_isNotice_abdRequest (m : Fin n × CallId Abd.Phase × Body) :
    ¬ Sodaw.IsNotice (Abd.requestMessage m).2.2 := by
  obtain ⟨i, ⟨client, opnum, phase⟩, frames⟩ := m
  have htext : (Value.text phase.text).frame ≠ (Value.text Text.readDisperse).frame := by
    cases phase <;> decide
  have hphase : (Abd.requestMessage (i, ⟨client, opnum, phase⟩, frames)).2.2[3]? =
      some (Value.text phase.text).frame := by
    cases phase <;> rfl
  exact fun h ↦ htext (Option.some.inj (hphase.symm.trans h))

/-- A step of a server is matched by a step of the algorithm that the message belongs to. -/
theorem Separates.step_serve (hserver : ∀ i, FitsBuffer (config.serverId i))
    (hrun : RunApart config (Abd.State.initial, Sodaw.WireState.initial) (s, v))
    (h : Separates config w (s, v)) {m : Fin n × Frame × List Frame}
    (hguard : Guard config w (.serve m)) (hstep : step config w (.serve m) = some w') :
    ∃ t, RunApart config (s, v) t ∧ Separates config w' t := by
  obtain ⟨hrunABD, hrunSODAW⟩ := run_sideBySide_iff.mp hrun
  simp only [step, Option.ite_none_right_eq_some, Option.bind_eq_bind,
    Option.bind_eq_some_iff] at hstep
  obtain ⟨⟨hsent, halive⟩, ⟨process, sent⟩, hworker, hhandle⟩ := hstep
  rcases (h.toServers m).mp hsent with ⟨⟨i, name, frames⟩, hrequest, rfl⟩ | hsodaw
  · have hfits := (Abd.Limited.of_run (fun _ _ hguard ↦ hguard.2) hrunABD).requested hrequest
    rw [Abd.requestMessage, serverWorkerFrames_abd config.strcmp (config.serverArgs i) _ hfits]
      at hworker
    obtain ⟨⟨server, response⟩, hserver, heq⟩ := Option.map_eq_some_iff.mp hworker
    obtain ⟨rfl, rfl⟩ := Prod.mk.inj heq
    obtain ⟨⟨server', response'⟩, hserver', hsame⟩ := exists_of_map_eq
      (Abd.algorithmABD_objects config.strcmp config.initData (h.objectsABD i) name.phase frames)
      hserver
    simp only [Prod.mk.injEq] at hsame
    obtain ⟨hobjects, rfl⟩ := hsame
    have honce : (i, name, frames) ∉ s.calls.requests.delivered := fun hdelivered ↦
      (hguard.resolve_left (not_isNotice_abdRequest _)) (h.abdServed _ hdelivered)
    have hallowed : AbdGuard config s (.serve (i, name, frames)) := ⟨honce, trivial⟩
    have hmatch : Abd.step config.strcmp config.initData s (.serve (i, name, frames)) =
        some (s.handle (i, name, frames) server' response') := by
      simp [Abd.step, hrequest, hserver']
    exact ⟨_, (Run.single hallowed hmatch).left v, h.handleAbd hobjects.symm hhandle⟩
  · have hrunning : v.alive m.1 = true := h.alive ▸ halive
    have hallowed : Sodaw.WireGuard config v (.serve m) :=
      hguard.imp_right fun hnot hdelivered ↦ hnot (h.sodawServed hdelivered)
    obtain ⟨hobjects, process', hworker', hagrees⟩ :
        process.abd.objects = (w.servers m.1).abd.objects ∧ ∃ process',
          (v.servers m.1).serverWorkerFrames config.strcmp (config.serverArgs m.1)
            (routerReceive m.2.1 m.2.2) = some (process', sent) ∧
          process.sodaw.Agrees process'.sodaw := by
      rcases sodaw_toServers hserver hrunSODAW hsodaw with ⟨i, name, frames, rfl, hfits⟩ |
        ⟨i, j, notice, rfl, hfits⟩
      · exact agrees_request (h.sodaw i) hfits hworker
      · exact agrees_notice (h.sodaw j) hfits hworker
    obtain ⟨v', hv', hseparates⟩ := h.handleSodaw hobjects hagrees hhandle
    have hmatch : Sodaw.wireStep config v (.serve m) = some v' := by
      simp [Sodaw.wireStep, hsodaw, hrunning, hworker', hv']
    exact ⟨_, (Run.single hallowed hmatch).right s, hseparates⟩

/-- A message of SODAW that a client gets is a response or an element that fits, with the rendering
of a tag, and an element is large enough. -/
theorem sodaw_toClients (hserver : ∀ i, FitsBuffer (config.serverId i))
    (hrun : Sodaw.WireRun config v) {m : Fin n × Frame × List Frame}
    (hsent : m ∈ v.toClients.sent) : ∃ i name frames,
    AnswerFits name frames ∧ frames.tag = tagToString frames.tagValue ∧
      (m = Sodaw.responseMessage config (i, name, frames) ∧
          (name.phase = .writeGet ∨ name.phase = .readGet ∨ name.phase = .writePut) ∨
        m = Sodaw.elementMessage config (i, name, frames) ∧
          Sodaw.IsSized config frames.payload) := by
  obtain ⟨u, hu, hrefines⟩ := (Sodaw.refines hserver).run hrun
  have hlimited := Sodaw.Limited.of_run (fun _ _ hguard ↦ hguard.2) hserver hu
  have hshape := Sodaw.Shape.of_run hu
  rcases (hrefines.toClients m).mp hsent with ⟨⟨i, name, frames⟩, hresponse, rfl⟩ |
    ⟨⟨i, name, frames⟩, helement, rfl⟩
  · exact ⟨i, name, frames, hlimited.answered hresponse, (hshape.answered hresponse).2.1,
      Or.inl ⟨rfl, Sodaw.phase_of_answer hu _ hresponse⟩⟩
  · exact ⟨i, name, frames, hlimited.element helement, (hshape.element helement).1,
      Or.inr ⟨rfl, (Sodaw.Sized.of_run hu).element helement⟩⟩

/-- What a client of ABD does with a response of ABD. -/
theorem abd_receives (hserver : ∀ i, FitsBuffer (config.serverId i))
    (hrun : Run (Abd.step config.strcmp config.initData) (AbdGuard config) Abd.State.initial s)
    {i : Fin n} {name : CallId Abd.Phase} {frames : Body}
    (hresponse : (i, name, frames) ∈ s.calls.answers.sent) (clientId : CString)
    (heap : Abd.Heap) (client : Abd.Client) :
    client.receiveFrames (n := n) config.strcmp clientId heap
        (Abd.responseMessage config.serverId (i, name, frames)).2.2 =
      client.receive config.strcmp clientId heap name.opnum name.phase frames := by
  obtain ⟨hfits, -⟩ := (Abd.Limited.of_run (fun _ _ hguard ↦ hguard.2) hrun).answered hresponse
  exact client.receiveFrames_response (hserver i) hfits

/-- What a client of SODAW does with a response of ABD: it goes on. -/
theorem sodaw_skips (hserver : ∀ i, FitsBuffer (config.serverId i))
    (hrun : Run (Abd.step config.strcmp config.initData) (AbdGuard config) Abd.State.initial s)
    {response : Fin n × CallId Abd.Phase × Body} (hresponse : response ∈ s.calls.answers.sent)
    (clientId : CString) {client : Sodaw.Client} (hidle : client ≠ .idle)
    (hexited : client ≠ .exited) :
    client.receiveFrames (n := n) config.strcmp clientId
        (Abd.responseMessage config.serverId response).2.2 = some (Sodaw.waiting client) := by
  obtain ⟨hfits, htag⟩ := (Abd.Limited.of_run (fun _ _ hguard ↦ hguard.2) hrun).answered hresponse
  exact Sodaw.Client.receiveFrames_abdResponse hserver hfits (Sodaw.parse_rendered htag) hidle
    hexited

/-- What a client of ABD does with a message of SODAW: it goes on, or the initial data are small and
it may end. -/
theorem abd_skips (hserver : ∀ i, FitsBuffer (config.serverId i)) (hrun : Sodaw.WireRun config v)
    {m : Fin n × Frame × List Frame} (hsent : m ∈ v.toClients.sent) {clientId : CString}
    (heap : Abd.Heap) {client : Abd.Client} (hidle : client ≠ .idle)
    (hexited : client ≠ .exited) : ∃ client',
    client.receiveFrames (n := n) config.strcmp clientId heap m.2.2 =
      some (Abd.waiting client') ∧
        (client' = client ∨ client' = .exited ∧ config.initData.length < 100) := by
  obtain ⟨i, name, frames, hfits, htag, ⟨rfl, hphase⟩ | ⟨rfl, hsized⟩⟩ :=
    sodaw_toClients hserver hrun hsent
  · exact ⟨client, Abd.Client.receiveFrames_sodawResponse hserver hfits hphase
      (Sodaw.parse_rendered htag) heap hidle hexited, Or.inl rfl⟩
  · refine ⟨_, Abd.Client.receiveFrames_sodawElement hserver hfits (Sodaw.parse_rendered htag) heap
      hidle hexited, ?_⟩
    cases client with
    | getMaxTagValue opNum object responses tag data =>
      rw [Abd.Client.afterOther]
      split_ifs with hgoesOn
      · exact Or.inl rfl
      · have hsmall : frames.payload.length < 100 := by simpa using hgoesOn
        rcases hsized with heq | hsymbol
        · exact Or.inr ⟨rfl, heq ▸ hsmall⟩
        · have hsize : symbolSize = 1024 := rfl
          omega
    | _ => exact Or.inl rfl

/-- A process that runs an operation of ABD is where the client of ABD is. -/
theorem Separates.eq_of_abd (h : Separates config w (s, v)) {clientId : CString}
    {client : Abd.Client} (hclient : w.clients clientId = .abd client)
    (hexited : client ≠ .exited) : client = s.clients clientId := by
  rcases h.abdClients clientId with hsame | ⟨hended, -⟩
  · rwa [hclient] at hsame
  · rw [hclient, Client.abd.injEq] at hended
    exact absurd hended hexited

/-- A process that runs an operation of SODAW is where the client of SODAW is. -/
theorem Separates.eq_of_sodaw (h : Separates config w (s, v)) {clientId : CString}
    {client : Sodaw.Client} (hclient : w.clients clientId = .sodaw client) :
    client = v.clients clientId := by
  rw [← h.sodawClients, hclient]
  rfl

/-- The multicast in a turn on a message is one of the client. -/
theorem client_eq_of_receives {clientId : CString} {heap : Abd.Heap}
    {round : ℕ} {frames : Body} {phase : Abd.Phase} {client : Abd.Client}
    {turn : Turn n Abd.Client Abd.Phase}
    (h : Abd.Receives config.strcmp clientId heap round frames phase client turn)
    {name : CallId Abd.Phase} {content : Fin n → Body}
    (hcall : turn.multicast = some (name, content)) : name.client = clientId := by
  cases h <;> cases hcall <;> rfl

/-- A step of a client of ABD on a message is matched. -/
theorem Separates.receive_abd (hserver : ∀ i, FitsBuffer (config.serverId i))
    (hrun : RunApart config (Abd.State.initial, Sodaw.WireState.initial) (s, v))
    (h : Separates config w (s, v)) {m : Fin n × Frame × List Frame}
    {heap : Abd.Heap} {client : Abd.Client}
    (hclient : w.clients m.2.1 = .abd client) (hguard : Guard config w (.receive m heap))
    (hsent : m ∈ w.toClients.sent) {turn : Turn n Abd.Client Abd.Phase}
    (hturn : client.receiveFrames config.strcmp m.2.1 heap m.2.2 = some turn)
    (htake : ({ w with toClients := w.toClients.deliver m } : State n).takeTurn m.2.1
      (.abd turn) = some w') :
    ∃ t, RunApart config (s, v) t ∧ Separates config w' t := by
  obtain ⟨hrunABD, hrunSODAW⟩ := run_sideBySide_iff.mp hrun
  obtain ⟨hidle, hexited⟩ := Abd.Client.running_of_receiveFrames hturn
  obtain ⟨hnew, hfitsTag⟩ := hguard
  rw [hclient] at hfitsTag
  rcases (h.toClients m).mp hsent with ⟨⟨i, name, frames⟩, hresponse, rfl⟩ | hsodaw
  · obtain ⟨hfits, -⟩ :=
      (Abd.Limited.of_run (fun _ _ hguard ↦ hguard.2) hrunABD).answered hresponse
    have hidentity : (Abd.responseMessage config.serverId (i, name, frames)).2.1 = name.client :=
      frame_of_fits hfits.call.client
    have hown : client = s.clients name.client := h.eq_of_abd (hidentity ▸ hclient) hexited
    have hreceive := abd_receives hserver hrunABD hresponse name.client heap client
    rw [hidentity, hreceive] at hturn
    rw [hidentity] at hclient htake hfitsTag
    have hallowed : AbdGuard config s (.receive (i, name, frames) heap) :=
      ⟨fun hdelivered ↦ hnew (h.abdReceived _ hdelivered), fun other hother ↦
        hfitsTag other (by rw [hreceive, hown]; exact hother)⟩
    have hmatch : Abd.step config.strcmp config.initData s (.receive (i, name, frames) heap) =
        some (({ s with calls := s.calls.collect (i, name, frames) } : Abd.State n).takeTurn
          name.client turn) := by
      simp [Abd.step, hresponse, ← hown, hturn]
    exact ⟨_, (Run.single hallowed hmatch).left v, (h.collect (i, name, frames)).takeAbdTurn
      (client_eq_of_receives (Abd.Client.receives hturn))
      (by simp [hclient, Client.sodawClient]) htake⟩
  · obtain ⟨client', hskip, hafter⟩ := abd_skips hserver hrunSODAW hsodaw heap hidle hexited
    obtain rfl := Option.some.inj (hskip.symm.trans hturn)
    refine ⟨_, Run.refl, (h.drop m).skip rfl rfl ?_ htake⟩
    rcases hafter with rfl | ⟨rfl, hsmall⟩
    · exact Or.inl hclient.symm
    · exact Or.inr ⟨rfl, by simp [hclient, Client.sodawClient], hsmall⟩

/-- A process that runs an operation of SODAW has none of ABD. -/
theorem Separates.idle_of_sodaw (h : Separates config w (s, v)) {clientId : CString}
    {client : Sodaw.Client} (hclient : w.clients clientId = .sodaw client) :
    s.clients clientId = .idle := by
  rcases h.abdClients clientId with hsame | ⟨hended, -⟩
  · rw [← hsame, hclient]
    rfl
  · exact absurd (hclient.symm.trans hended) (by rintro ⟨⟩)

/-- A turn of a client of SODAW is matched by the step that takes the turn. -/
theorem Separates.matched {w₁ : State n} {v₁ : Sodaw.WireState n}
    (h : Separates config w₁ (s, v₁)) {a : Sodaw.WireAction n} {clientId : CString}
    {turn : Turn n Sodaw.Client Sodaw.Phase} (hfree : s.clients clientId = .idle)
    (hallowed : Sodaw.WireGuard config v a)
    (hmatch : Sodaw.wireStep config v a = v₁.takeTurn clientId turn)
    (htake : w₁.takeTurn clientId (.sodaw turn) = some w') :
    ∃ t, RunApart config (s, v) t ∧ Separates config w' t := by
  obtain ⟨v', hv', hseparates⟩ := h.takeSodawTurn hfree htake
  exact ⟨_, (Run.single hallowed (hmatch.trans hv')).right s, hseparates⟩

/-- A step of a client of SODAW on a message is matched. -/
theorem Separates.receive_sodaw (hserver : ∀ i, FitsBuffer (config.serverId i))
    (hrun : RunApart config (Abd.State.initial, Sodaw.WireState.initial) (s, v))
    (h : Separates config w (s, v)) {m : Fin n × Frame × List Frame} {client : Sodaw.Client}
    (hclient : w.clients m.2.1 = .sodaw client) (hnew : m ∉ w.toClients.delivered)
    (hsent : m ∈ w.toClients.sent) {turn : Turn n Sodaw.Client Sodaw.Phase}
    (hturn : client.receiveFrames config.strcmp m.2.1 m.2.2 = some turn)
    (htake : ({ w with toClients := w.toClients.deliver m } : State n).takeTurn m.2.1
      (.sodaw turn) = some w') :
    ∃ t, RunApart config (s, v) t ∧ Separates config w' t := by
  obtain ⟨hrunABD, hrunSODAW⟩ := run_sideBySide_iff.mp hrun
  obtain ⟨hidle, hexited⟩ := Sodaw.Client.running_of_receiveFrames hturn
  rcases (h.toClients m).mp hsent with ⟨response, hresponse, rfl⟩ | hsodaw
  · obtain rfl := Option.some.inj
      ((sodaw_skips hserver hrunABD hresponse _ hidle hexited).symm.trans hturn)
    refine ⟨_, Run.refl, (h.drop _).skip rfl rfl ?_ htake⟩
    exact Or.inl hclient.symm
  · have hown := h.eq_of_sodaw hclient
    have hallowed : Sodaw.WireGuard config v (.receive m) :=
      fun hdelivered ↦ hnew (h.sodawReceived hdelivered)
    refine (h.deliver m).matched (h.idle_of_sodaw hclient) hallowed ?_ htake
    simp [Sodaw.wireStep, hsodaw, ← hown, hturn]

/-- A process between two operations has none of either algorithm. -/
theorem Separates.idle (h : Separates config w (s, v)) {clientId : CString}
    (hidle : (w.clients clientId).IsIdle) :
    s.clients clientId = .idle ∧ v.clients clientId = .idle := by
  rw [← h.sodawClients clientId]
  rcases h.abdClients clientId with hsame | ⟨hended, -⟩
  · rw [← hsame]
    rcases hidle with heq | heq <;> rw [heq] <;> exact ⟨rfl, rfl⟩
  · rw [hended] at hidle
    exact absurd hidle (by decide)

/-- The start of a write is matched. -/
theorem Separates.step_invokeWrite (h : Separates config w (s, v)) {algorithm : Algorithm}
    {clientId : CString} {opNum : ℕ} {object : CString} {payload : Frame}
    (hguard : Guard config w (.invokeWrite algorithm clientId opNum object payload))
    (hstep : step config w (.invokeWrite algorithm clientId opNum object payload) = some w') :
    ∃ t, RunApart config (s, v) t ∧ Separates config w' t := by
  simp only [step, Option.ite_none_right_eq_some] at hstep
  obtain ⟨hidle, htake⟩ := hstep
  obtain ⟨habd, hsodaw⟩ := h.idle hidle
  obtain ⟨hfresh, hfits⟩ := hguard
  cases algorithm with
  | abd =>
    rw [h.abdEvents] at hfresh
    have hallowed : AbdGuard config s (.invokeWrite clientId opNum object payload) :=
      ⟨hfresh, hfits⟩
    exact ⟨_, (Run.single hallowed (if_pos habd)).left v,
      h.takeAbdTurn (by rintro _ _ ⟨⟩; rfl) (by rw [h.sodawClients, hsodaw]) htake⟩
  | sodaw =>
    rw [h.sodawEvents] at hfresh
    have hallowed : Sodaw.WireGuard config v (.invokeWrite clientId opNum object payload) :=
      ⟨hfresh, hfits⟩
    exact h.matched habd hallowed (if_pos hsodaw) htake

/-- The start of a read is matched. -/
theorem Separates.step_invokeRead (h : Separates config w (s, v)) {algorithm : Algorithm}
    {clientId : CString} {opNum : ℕ} {object : CString}
    (hguard : Guard config w (.invokeRead algorithm clientId opNum object))
    (hstep : step config w (.invokeRead algorithm clientId opNum object) = some w') :
    ∃ t, RunApart config (s, v) t ∧ Separates config w' t := by
  simp only [step, Option.ite_none_right_eq_some] at hstep
  obtain ⟨hidle, htake⟩ := hstep
  obtain ⟨habd, hsodaw⟩ := h.idle hidle
  obtain ⟨hfresh, hfits⟩ := hguard
  cases algorithm with
  | abd =>
    rw [h.abdEvents] at hfresh
    have hallowed : AbdGuard config s (.invokeRead clientId opNum object) := ⟨hfresh, hfits⟩
    exact ⟨_, (Run.single hallowed (if_pos habd)).left v,
      h.takeAbdTurn (by rintro _ _ ⟨⟩; rfl) (by rw [h.sodawClients, hsodaw]) htake⟩
  | sodaw =>
    rw [h.sodawEvents] at hfresh
    have hallowed : Sodaw.WireGuard config v (.invokeRead clientId opNum object) :=
      ⟨hfresh, hfits⟩
    exact h.matched habd hallowed (if_pos hsodaw) htake

/-- If the ids of the servers fit, the relation is a simulation of the shared system by the two
algorithms side by side. -/
theorem separates (hserver : ∀ i, FitsBuffer (config.serverId i)) :
    Simulation (step config) (Guard config) State.initial
      (sideBySide (Abd.step config.strcmp config.initData) (Sodaw.wireStep config))
      (sideBySideGuard (AbdGuard config) (Sodaw.WireGuard config))
      (Abd.State.initial, Sodaw.WireState.initial) (Separates config) where
  initial := separates_initial
  step := by
    rintro w ⟨s, v⟩ b w' - hrun h hguard hstep
    cases b with
    | invokeWrite => exact h.step_invokeWrite hguard hstep
    | invokeRead => exact h.step_invokeRead hguard hstep
    | serve m => exact h.step_serve hserver hrun hguard hstep
    | receive m heap =>
      simp only [step, Option.ite_none_right_eq_some, Option.bind_eq_bind,
        Option.bind_eq_some_iff] at hstep
      obtain ⟨hsent, turn, hturn, htake⟩ := hstep
      cases hclient : w.clients m.2.1 with
      | abd client =>
        rw [hclient] at hturn
        obtain ⟨turn, hreceive, rfl⟩ := Option.map_eq_some_iff.mp hturn
        exact h.receive_abd hserver hrun hclient hguard hsent hreceive htake
      | sodaw client =>
        rw [hclient] at hturn
        obtain ⟨turn, hreceive, rfl⟩ := Option.map_eq_some_iff.mp hturn
        exact h.receive_sodaw hserver hrun hclient hguard.1 hsent hreceive htake
    | timeout clientId =>
      simp only [step, Option.bind_eq_bind, Option.bind_eq_some_iff] at hstep
      obtain ⟨turn, hturn, htake⟩ := hstep
      cases hclient : w.clients clientId with
      | abd client => simp [hclient, Client.timeout] at hturn
      | sodaw client =>
        have hown := h.eq_of_sodaw hclient
        rw [hclient] at hturn
        obtain ⟨turn, htimeout, rfl⟩ := Option.map_eq_some_iff.mp hturn
        have hallowed : Sodaw.WireGuard config v (.timeout clientId) := by
          have hnew : (w.clients clientId).NewTagFits config.strcmp clientId := hguard
          rw [hclient, hown] at hnew
          exact hnew
        refine h.matched (h.idle_of_sodaw hclient) hallowed ?_ htake
        simp [Sodaw.wireStep, ← hown, htimeout]
    | stop i =>
      obtain rfl := Option.some.inj hstep
      have hmatch : Sodaw.wireStep config v (.stop i) =
          some { v with alive := Function.update v.alive i false } := rfl
      have hallowed : Sodaw.WireGuard config v (.stop i) := trivial
      refine ⟨(s, _), (Run.single hallowed hmatch).right s, { h with alive := ?_ }⟩
      rw [h.alive]

/-- In every run of the two algorithms on the same processes, each algorithm does what it does in
some run on processes of its own. -/
theorem exists_runs_of_shared (hserver : ∀ i, FitsBuffer (config.serverId i))
    (run : SharedRun config w) :
    (∃ s : Abd.State n,
      Run (Abd.step config.strcmp config.initData) Abd.Guard Abd.State.initial s ∧
        s.history = w.events .abd) ∧
    ∃ u : Sodaw.State n, Run (Sodaw.step config) Sodaw.Guard Sodaw.State.initial u ∧
      u.history = w.events .sodaw := by
  obtain ⟨⟨s, v⟩, hrun, hseparates⟩ := (separates hserver).run run
  obtain ⟨hs, hv⟩ := run_sideBySide_iff.mp hrun
  obtain ⟨u, hu, hrefines⟩ := (Sodaw.refines hserver).run hv
  exact ⟨⟨s, hs.weaken fun _ _ h ↦ h.1, hseparates.abdEvents.symm⟩,
    u, hu.weaken fun _ _ h ↦ h.1, hrefines.history.symm.trans hseparates.sodawEvents.symm⟩

/-- An action of ABD, as it is on the wire. -/
def Action.ofAbd (config : Sodaw.Config n) : Abd.Action n → Action n
  | .invokeWrite clientId opNum object payload => .invokeWrite .abd clientId opNum object payload
  | .invokeRead clientId opNum object => .invokeRead .abd clientId opNum object
  | .serve request => .serve (Abd.requestMessage request)
  | .receive response heap => .receive (Abd.responseMessage config.serverId response) heap

/-- An action of SODAW. -/
def Action.ofSodaw : Sodaw.WireAction n → Action n
  | .invokeWrite clientId opNum object payload =>
    .invokeWrite .sodaw clientId opNum object payload
  | .invokeRead clientId opNum object => .invokeRead .sodaw clientId opNum object
  | .serve m => .serve m
  | .receive m => .receive m Abd.Heap.adjacent
  | .timeout clientId => .timeout clientId
  | .stop i => .stop i

/-- The state after these actions, if all are possible and allowed. -/
def executeShared (config : Sodaw.Config n) (actions : List (Action n)) : Option (State n) :=
  execute (step config) (Guard config) State.initial actions

/-- The client `w` writes by ABD while the third server is slow, and then by SODAW. Its first loop
of SODAW gets the tag that the third server sends for ABD. -/
def sampleSwitch (first second third : Fin 3) (payload : Frame) : List (Action 3) :=
  let object := ascii ['o']
  let writer := ascii ['w']
  let tagStr := tagToString ⟨1, writer⟩
  let sodaw := (Sodaw.sampleWrite [1, 2, 3, 4]).map fun a ↦
    Action.ofSodaw (a.onWire (Sodaw.sampleConfig 3))
  ([ .invokeWrite writer 1 object payload,
      .serve (first, ⟨writer, 1, .getTag⟩, ⟨object, [], []⟩),
      .serve (second, ⟨writer, 1, .getTag⟩, ⟨object, [], []⟩),
      .receive (first, ⟨writer, 1, .getTag⟩, ⟨object, tagToString initTag, []⟩) .adjacent,
      .receive (second, ⟨writer, 1, .getTag⟩, ⟨object, tagToString initTag, []⟩) .adjacent,
      .serve (first, ⟨writer, 1, .writeValue⟩, ⟨object, tagStr, payload⟩),
      .serve (second, ⟨writer, 1, .writeValue⟩, ⟨object, tagStr, payload⟩),
      .receive (first, ⟨writer, 1, .writeValue⟩, ⟨object, tagStr, []⟩) .adjacent,
      .receive (second, ⟨writer, 1, .writeValue⟩, ⟨object, tagStr, []⟩) .adjacent,
      .serve (third, ⟨writer, 1, .getTag⟩, ⟨object, [], []⟩) ] : List (Abd.Action 3)).map
      (Action.ofAbd (Sodaw.sampleConfig 3)) ++
    sodaw.take 2 ++
    [.receive (Abd.responseMessage (Sodaw.sampleConfig 3).serverId
      (third, ⟨writer, 1, .getTag⟩, ⟨object, tagToString initTag, []⟩)) .adjacent] ++
    sodaw.drop 2

/-- Both writes of `sampleSwitch` return. -/
def sampleSwitchHistory (payload : Frame) : List (Algorithm × Event) :=
  let object := ascii ['o']
  let writer := ascii ['w']
  ((Sodaw.sampleHistory [1, 2, 3, 4]).drop 3).map (fun e ↦ (.sodaw, e)) ++
    [ (.abd, .writeCompleted writer 1 object ⟨1, writer⟩),
      (.abd, .writeTagged writer 1 object ⟨1, writer⟩ payload),
      (.abd, .writeInvoked writer 1 object payload) ]

/-- The two writes of one client. -/
theorem exists_runs_of_shared_sample : ∃ w : State 3, w.history = sampleSwitchHistory [5] ∧
    (∃ s : Abd.State 3,
      Run (Abd.step Strcmp.difference [9, 9, 9, 9]) Abd.Guard Abd.State.initial s ∧
        s.history = w.events .abd) ∧
    ∃ u : Sodaw.State 3,
      Run (Sodaw.step (Sodaw.sampleConfig 3)) Sodaw.Guard Sodaw.State.initial u ∧
        u.history = w.events .sodaw := by
  have hhistory : (executeShared (Sodaw.sampleConfig 3) (sampleSwitch 0 1 2 [5])).map
      State.history = some (sampleSwitchHistory [5]) := by
    decide +kernel
  obtain ⟨w, hexecute, hw⟩ := Option.map_eq_some_iff.mp hhistory
  have hserver : ∀ i, FitsBuffer ((Sodaw.sampleConfig 3).serverId i) := by decide
  have hrun : SharedRun (Sodaw.sampleConfig 3) w := run_of_execute hexecute
  have hruns := exists_runs_of_shared hserver hrun
  exact ⟨w, hw, hruns⟩

end Simulation

end Colas.Shared
