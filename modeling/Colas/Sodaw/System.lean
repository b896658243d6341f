import Colas.Library.Run
import Colas.Sodaw.Client

/-!
# The SODAW system

`n` servers, any number of client processes, and the messages between them: requests and responses,
coded elements from servers to readers, and notices between servers. The adversary chooses the
actions, so messages are delayed and reordered without limit, and a server can stop at any time.
`step` has no result where the action is impossible in the state or a process would fail an
assertion or overflow an `int`.

`Guard` is what the properties of runs assume of the environment: a client never uses an operation
number twice, and no message to or from a client is delivered twice. Notices may be delivered as
often as the adversary likes. `FreshNumbers` is the part of `Guard` about operation numbers,
`ReadsOnce` the one about `READ_VALUE` and elements, and `OneObject` says that all operations are on
one object. `CountsUp` is stronger than `FreshNumbers`: the operation numbers of a client grow. A
state is `Quiescent` when nothing is in flight to a process that takes it.

The invariant of this module, `Shape`, holds in every run, without a guard: stores have one version
for each object, every tag on the network is the rendering of a tag, and every response repeats the
object, and for `WRITE_PUT` the tag, of a request that was handled. `ServerStep.move` describes the
handling of a request by `Handles`, and the versions only grow (`storedTag_le`).
-/

set_option autoImplicit false
set_option relaxedAutoImplicit false

namespace Colas.Sodaw

open TransitionSystem

variable {n : ℕ}

/-- The state of the system. -/
structure State (n : ℕ) where
  /-- The servers. -/
  servers : Fin n → Server
  /-- Which servers run. -/
  alive : Fin n → Bool
  /-- The client processes, by client id. -/
  clients : CString → Client
  /-- The requests and the responses. -/
  calls : Calls (Fin n) (CallId Phase) Body Body
  /-- The coded elements, under the names of the requests that they answer. -/
  elements : Network (Fin n × CallId Phase × Body)
  /-- The notices with their sender and their receiver. -/
  disperses : Network (Fin n × Fin n × Disperse)
  /-- What the outside has seen, newest first. -/
  history : List Event

/-- The state before the first operation. -/
def State.initial : State n where
  servers := fun _ ↦ Server.initial
  alive := fun _ ↦ true
  clients := fun _ ↦ .idle
  calls := Calls.empty
  elements := Network.empty
  disperses := Network.empty
  history := []

/-- The state after a turn of a client. -/
def State.takeTurn (s : State n) (clientId : CString) (turn : Turn n Client Phase) : State n :=
  { s with
    clients := Function.update s.clients clientId turn.client
    calls := turn.sendOn s.calls
    history := turn.event.toList ++ s.history }

/-- The state after a server has handled a request. -/
def State.handle (s : State n) (request : Fin n × CallId Phase × Body) (server : Server)
    (output : Output) : State n :=
  { s with
    servers := Function.update s.servers request.1 server
    calls := output.response.elim (s.calls.serve request) fun response ↦
      (s.calls.serve request).answer (request.1, request.2.1, response)
    elements := s.elements.send (output.elements.map fun element ↦ (request.1, element))
    disperses := s.disperses.send (output.disperses.flatMap fun notice ↦
      (List.finRange n).map fun j ↦ (request.1, j, notice)) }

/-- The state after a server has handled a notice. -/
def State.handleNotice (s : State n) (notice : Fin n × Fin n × Disperse) (server : Server) :
    State n :=
  { s with
    servers := Function.update s.servers notice.2.1 server
    disperses := s.disperses.deliver notice }

/-- The actions of the system. -/
inductive Action (n : ℕ)
  | invokeWrite (clientId : CString) (opNum : ℕ) (object : CString) (payload : Frame)
  | invokeRead (clientId : CString) (opNum : ℕ) (object : CString)
  | serve (request : Fin n × CallId Phase × Body)
  | serveNotice (notice : Fin n × Fin n × Disperse)
  | receive (response : Fin n × CallId Phase × Body)
  | receiveElement (element : Fin n × CallId Phase × Body)
  | timeout (clientId : CString)
  | stop (i : Fin n)

/-- One step of the system. -/
def step (config : Config n) (s : State n) : Action n → Option (State n)
  | .invokeWrite clientId opNum object payload =>
    if s.clients clientId = .idle then
      some (s.takeTurn clientId (sodawWrite clientId opNum object payload))
    else none
  | .invokeRead clientId opNum object =>
    if s.clients clientId = .idle then
      some (s.takeTurn clientId (sodawRead clientId opNum object))
    else none
  | .serve request =>
    if request ∈ s.calls.requests.sent ∧ s.alive request.1 then do
      let result ← algorithmSODAW config.strcmp (config.serverArgs request.1)
        (s.servers request.1) request.2.1 request.2.2
      some (s.handle request result.1 result.2)
    else none
  | .serveNotice notice =>
    if notice ∈ s.disperses.sent ∧ s.alive notice.2.1 then do
      let server ← algorithmSODAWOnNotice (config.serverArgs notice.2.1) (s.servers notice.2.1)
        notice.2.2
      some (s.handleNotice notice server)
    else none
  | .receive response =>
    if response ∈ s.calls.answers.sent then do
      let name := response.2.1
      let turn ← (s.clients name.client).receive config.strcmp name.client name.opnum name.phase
        response.2.2
      some (({ s with calls := s.calls.collect response } : State n).takeTurn name.client turn)
    else none
  | .receiveElement element =>
    if element ∈ s.elements.sent then do
      let name := element.2.1
      let turn ← (s.clients name.client).receive config.strcmp name.client name.opnum name.phase
        element.2.2
      some (({ s with elements := s.elements.deliver element } : State n).takeTurn name.client
        turn)
    else none
  | .timeout clientId => do
    let turn ← (s.clients clientId).timeout config clientId
    some (s.takeTurn clientId turn)
  | .stop i => some { s with alive := Function.update s.alive i false }

/-- A client does not use an operation number twice. -/
def FreshNumbers (s : State n) : Action n → Prop
  | .invokeWrite clientId opNum _ _ => ¬ Invoked s.history clientId opNum
  | .invokeRead clientId opNum _ => ¬ Invoked s.history clientId opNum
  | _ => True

/-- A client does not use an operation number twice, and a message to or from a client is not
delivered twice. -/
def Guard (s : State n) : Action n → Prop
  | .invokeWrite clientId opNum _ _ => ¬ Invoked s.history clientId opNum
  | .invokeRead clientId opNum _ => ¬ Invoked s.history clientId opNum
  | .serve request => request ∉ s.calls.requests.delivered
  | .receive response => response ∉ s.calls.answers.delivered
  | .receiveElement element => element ∉ s.elements.delivered
  | .serveNotice _ => True
  | .timeout _ => True
  | .stop _ => True

theorem Guard.freshNumbers {s : State n} {a : Action n} (h : Guard s a) : FreshNumbers s a := by
  cases a with
  | invokeWrite => exact h
  | invokeRead => exact h
  | _ => trivial

/-- A server does not handle a `READ_VALUE` twice, and no element is delivered twice. -/
def ReadsOnce (s : State n) : Action n → Prop
  | .serve request => request.2.1.phase = .readValue → request ∉ s.calls.requests.delivered
  | .receiveElement element => element ∉ s.elements.delivered
  | _ => True

theorem Guard.readsOnce {s : State n} {a : Action n} (h : Guard s a) : ReadsOnce s a := by
  cases a with
  | serve => exact fun _ ↦ h
  | receiveElement => exact h
  | _ => trivial

/-- All operations are on one object. -/
def OneObject (object : CString) : Action n → Prop
  | .invokeWrite _ _ object' _ => object' = object
  | .invokeRead _ _ object' => object' = object
  | _ => True

/-- A client numbers its operations in the order in which it starts them. -/
def CountsUp (s : State n) : Action n → Prop
  | .invokeWrite clientId opNum _ _ => ∀ e ∈ s.history, Event.Below clientId opNum e
  | .invokeRead clientId opNum _ => ∀ e ∈ s.history, Event.Below clientId opNum e
  | _ => True

theorem CountsUp.freshNumbers {s : State n} {a : Action n} (h : CountsUp s a) :
    FreshNumbers s a := by
  cases a with
  | invokeWrite => exact fun hinvoked ↦ lt_irrefl _ (lt_of_below h hinvoked)
  | invokeRead => exact fun hinvoked ↦ lt_irrefl _ (lt_of_below h hinvoked)
  | _ => trivial

instance (s : State n) (a : Action n) : Decidable (FreshNumbers s a) := by
  cases a <;> unfold FreshNumbers <;> infer_instance

instance (s : State n) (a : Action n) : Decidable (Guard s a) := by
  cases a <;> unfold Guard <;> infer_instance

instance (s : State n) (a : Action n) : Decidable (ReadsOnce s a) := by
  cases a <;> unfold ReadsOnce <;> infer_instance

instance (object : CString) (a : Action n) : Decidable (OneObject object a) := by
  cases a <;> unfold OneObject <;> infer_instance

instance (s : State n) (a : Action n) : Decidable (CountsUp s a) := by
  cases a <;> unfold CountsUp <;> infer_instance

/-- The tag that a server stores for an object. -/
def State.storedTag (config : Config n) (s : State n) (object : CString) (i : Fin n) : Tag :=
  ((s.servers i).version config.initData object).1

/-- Nothing is in flight to a server that runs or to a client that waits. -/
structure Quiescent (s : State n) : Prop where
  requests : s.calls.requests.NoneInFlight fun m ↦ s.alive m.1 = true
  answers : s.calls.answers.NoneInFlight fun m ↦ (s.clients m.2.1.client).awaits ≠ none
  elements : s.elements.NoneInFlight fun m ↦ (s.clients m.2.1.client).awaits ≠ none

instance (s : State n) : Decidable (Quiescent s) :=
  decidable_of_iff
    (s.calls.requests.NoneInFlight (fun m ↦ s.alive m.1 = true) ∧
      s.calls.answers.NoneInFlight (fun m ↦ (s.clients m.2.1.client).awaits ≠ none) ∧
      s.elements.NoneInFlight fun m ↦ (s.clients m.2.1.client).awaits ≠ none)
    ⟨fun ⟨hrequests, hanswers, helements⟩ ↦ ⟨hrequests, hanswers, helements⟩,
      fun h ↦ ⟨h.requests, h.answers, h.elements⟩⟩

/-- The servers that run. -/
def State.running (s : State n) : Finset (Fin n) := Finset.univ.filter fun i ↦ s.alive i = true

/-- The servers that have stopped. -/
def State.stopped (s : State n) : Finset (Fin n) := Finset.univ.filter fun i ↦ ¬ s.alive i = true

theorem State.mem_running {s : State n} {i : Fin n} : i ∈ s.running ↔ s.alive i = true := by
  simp [State.running]

theorem State.card_running (s : State n) : s.running.card + s.stopped.card = n := by
  rw [State.running, State.stopped, Finset.card_filter_add_card_filter_not, Finset.card_univ,
    Fintype.card_fin]

/-! ### Steps of the two parties -/

section Steps

variable {config : Config n} {s t : State n}

/-- A step of a client: it starts an operation, it takes a turn on a message, or it ends a loop. -/
inductive ClientStep (config : Config n) (s : State n) : Action n → State n → Prop
  | write (clientId : CString) (opNum : ℕ) (object : CString) (payload : Frame)
    (hidle : s.clients clientId = .idle) :
    ClientStep config s (.invokeWrite clientId opNum object payload)
      (s.takeTurn clientId (sodawWrite clientId opNum object payload))
  | read (clientId : CString) (opNum : ℕ) (object : CString)
    (hidle : s.clients clientId = .idle) :
    ClientStep config s (.invokeRead clientId opNum object)
      (s.takeTurn clientId (sodawRead clientId opNum object))
  | receive (i : Fin n) (name : CallId Phase) (frames : Body) (turn : Turn n Client Phase)
    (hsent : (i, name, frames) ∈ s.calls.answers.sent)
    (hturn : Receives name.client name.opnum frames name.phase (s.clients name.client) turn) :
    ClientStep config s (.receive (i, name, frames))
      (({ s with calls := s.calls.collect (i, name, frames) } : State n).takeTurn name.client turn)
  | receiveElement (i : Fin n) (name : CallId Phase) (frames : Body)
    (turn : Turn n Client Phase) (hsent : (i, name, frames) ∈ s.elements.sent)
    (hturn : Receives name.client name.opnum frames name.phase (s.clients name.client) turn) :
    ClientStep config s (.receiveElement (i, name, frames))
      (({ s with elements := s.elements.deliver (i, name, frames) } : State n).takeTurn
        name.client turn)
  | timeout (clientId : CString) (turn : Turn n Client Phase)
    (hturn : TimesOut config clientId (s.clients clientId) turn) :
    ClientStep config s (.timeout clientId) (s.takeTurn clientId turn)

/-- A step of a server: it handles a request or a notice that was sent, or it stops. -/
inductive ServerStep (config : Config n) (s : State n) : Action n → State n → Prop
  | serve (i : Fin n) (name : CallId Phase) (frames : Body) (server : Server) (output : Output)
    (hsent : (i, name, frames) ∈ s.calls.requests.sent) (halive : s.alive i)
    (hserver : algorithmSODAW config.strcmp (config.serverArgs i) (s.servers i) name frames =
      some (server, output)) :
    ServerStep config s (.serve (i, name, frames)) (s.handle (i, name, frames) server output)
  | serveNotice (i j : Fin n) (notice : Disperse) (server : Server)
    (hsent : (i, j, notice) ∈ s.disperses.sent) (halive : s.alive j)
    (hserver : algorithmSODAWOnNotice (config.serverArgs j) (s.servers j) notice = some server) :
    ServerStep config s (.serveNotice (i, j, notice)) (s.handleNotice (i, j, notice) server)
  | stop (i : Fin n) :
    ServerStep config s (.stop i) { s with alive := Function.update s.alive i false }

/-- Every step is a step of a client or of a server. -/
theorem step_cases {a : Action n} (h : step config s a = some t) :
    ClientStep config s a t ∨ ServerStep config s a t := by
  cases a with
  | invokeWrite clientId opNum object payload =>
    simp only [step, Option.ite_none_right_eq_some, Option.some.injEq] at h
    obtain ⟨hidle, rfl⟩ := h
    exact Or.inl (.write clientId opNum object payload hidle)
  | invokeRead clientId opNum object =>
    simp only [step, Option.ite_none_right_eq_some, Option.some.injEq] at h
    obtain ⟨hidle, rfl⟩ := h
    exact Or.inl (.read clientId opNum object hidle)
  | serve request =>
    simp only [step, Option.ite_none_right_eq_some, Option.bind_eq_bind,
      Option.bind_eq_some_iff, Option.some.injEq] at h
    obtain ⟨⟨hsent, halive⟩, result, hserver, rfl⟩ := h
    exact Or.inr (.serve _ _ _ result.1 result.2 hsent halive hserver)
  | serveNotice notice =>
    simp only [step, Option.ite_none_right_eq_some, Option.bind_eq_bind,
      Option.bind_eq_some_iff, Option.some.injEq] at h
    obtain ⟨⟨hsent, halive⟩, server, hserver, rfl⟩ := h
    exact Or.inr (.serveNotice _ _ _ server hsent halive hserver)
  | receive response =>
    simp only [step, Option.ite_none_right_eq_some, Option.bind_eq_bind,
      Option.bind_eq_some_iff, Option.some.injEq] at h
    obtain ⟨hsent, turn, hturn, rfl⟩ := h
    exact Or.inl (.receive _ _ _ turn hsent (Client.receives hturn))
  | receiveElement element =>
    simp only [step, Option.ite_none_right_eq_some, Option.bind_eq_bind,
      Option.bind_eq_some_iff, Option.some.injEq] at h
    obtain ⟨hsent, turn, hturn, rfl⟩ := h
    exact Or.inl (.receiveElement _ _ _ turn hsent (Client.receives hturn))
  | timeout clientId =>
    simp only [step, Option.bind_eq_bind, Option.bind_eq_some_iff, Option.some.injEq] at h
    obtain ⟨turn, hturn, rfl⟩ := h
    exact Or.inl (.timeout clientId turn (Client.timesOut hturn))
  | stop i =>
    obtain rfl := Option.some.inj h
    exact Or.inr (.stop i)

/-- A step of a client leaves the servers and what they have sent as they are. -/
structure ServersKept (s t : State n) : Prop where
  servers : t.servers = s.servers
  alive : t.alive = s.alive
  delivered : t.calls.requests.delivered = s.calls.requests.delivered
  requests : ∀ m ∈ s.calls.requests.sent, m ∈ t.calls.requests.sent
  answers : t.calls.answers.sent = s.calls.answers.sent
  elements : t.elements.sent = s.elements.sent
  disperses : t.disperses = s.disperses

theorem serversKept_takeTurn (s : State n) (clientId : CString) (turn : Turn n Client Phase) :
    ServersKept s (s.takeTurn clientId turn) where
  servers := rfl
  alive := rfl
  delivered := turn.delivered_sendOn s.calls
  requests := fun ⟨_, _, _⟩ hm ↦ (turn.mem_requests_sendOn s.calls).mpr (Or.inr hm)
  answers := congrArg Network.sent (turn.answers_sendOn s.calls)
  elements := rfl
  disperses := rfl

theorem ClientStep.serversKept {a : Action n} (h : ClientStep config s a t) :
    ServersKept s t := by
  cases h with
  | write => exact serversKept_takeTurn _ _ _
  | read => exact serversKept_takeTurn _ _ _
  | receive i name frames turn =>
    exact { serversKept_takeTurn { s with calls := s.calls.collect (i, name, frames) } name.client
      turn with }
  | receiveElement i name frames turn =>
    exact { serversKept_takeTurn { s with elements := s.elements.deliver (i, name, frames) }
      name.client turn with }
  | timeout => exact serversKept_takeTurn _ _ _

/-- A step of a server leaves the clients as they are. -/
theorem ServerStep.clients_eq {a : Action n} (h : ServerStep config s a t) :
    t.clients = s.clients ∧ t.history = s.history ∧
      t.calls.requests.sent = s.calls.requests.sent ∧
      t.calls.answers.delivered = s.calls.answers.delivered ∧
      t.elements.delivered = s.elements.delivered := by
  cases h with
  | serve i name frames server output =>
    refine ⟨rfl, rfl, ?_, ?_, rfl⟩ <;>
      rcases hcase : output.response with - | response <;> simp [State.handle, hcase]
  | serveNotice => exact ⟨rfl, rfl, rfl, rfl, rfl⟩
  | stop => exact ⟨rfl, rfl, rfl, rfl, rfl⟩

/-- No answer that was sent is lost. -/
theorem ServerStep.answers_subset {a : Action n} (h : ServerStep config s a t) :
    ∀ m ∈ s.calls.answers.sent, m ∈ t.calls.answers.sent := by
  cases h with
  | serve i name frames server output =>
    rcases hcase : output.response with - | response <;> simp +contextual [State.handle, hcase]
  | serveNotice => exact fun _ hm ↦ hm
  | stop => exact fun _ hm ↦ hm

/-- No element that was sent is lost. -/
theorem ServerStep.elements_subset {a : Action n} (h : ServerStep config s a t) :
    ∀ m ∈ s.elements.sent, m ∈ t.elements.sent := by
  cases h with
  | serve => exact fun _ hm ↦ List.mem_append_right _ hm
  | serveNotice => exact fun _ hm ↦ hm
  | stop => exact fun _ hm ↦ hm

end Steps

/-! ### The shape of the states -/

/-- What holds in every run, whatever is delivered twice and whichever numbers are used. -/
structure Shape (config : Config n) (s : State n) : Prop where
  /-- Every object has one version. -/
  stores : ∀ i, WellFormed (s.servers i).objects
  /-- Version numbers are not negative. -/
  stored : ∀ object i, 0 ≤ (s.storedTag config object i).number
  /-- A request whose phase has a tag carries the rendering of one. -/
  requested : ∀ {i name frames}, (i, name, frames) ∈ s.calls.requests.sent →
    name.phase.CarriesTag → frames.tag = tagToString frames.tagValue ∧ 0 ≤ frames.tagValue.number
  /-- Only requests that were sent are handled. -/
  served : ∀ m ∈ s.calls.requests.delivered, m ∈ s.calls.requests.sent
  /-- A response is not to a `READ_VALUE`, carries a tag, and repeats the object, and for
  `WRITE_PUT` the tag, of a request that was handled. -/
  answered : ∀ {i name frames}, (i, name, frames) ∈ s.calls.answers.sent →
    name.phase ≠ .readValue ∧ frames.tag = tagToString frames.tagValue ∧
      0 ≤ frames.tagValue.number ∧ ∃ request, (i, name, request) ∈ s.calls.requests.delivered ∧
        frames.object = request.object ∧ (name.phase = .writePut → frames.tag = request.tag)
  /-- An element carries a tag. -/
  element : ∀ {i name frames}, (i, name, frames) ∈ s.elements.sent →
    frames.tag = tagToString frames.tagValue ∧ 0 ≤ frames.tagValue.number
  /-- A notice carries two tags. -/
  noticed : ∀ {i j notice}, (i, j, notice) ∈ s.disperses.sent →
    ∃ sendTag readTag, notice.sendTag = tagToString sendTag ∧ notice.readTag = tagToString readTag
  /-- So do the clients. -/
  clients : ∀ clientId, (s.clients clientId).Nonneg

section ShapeSteps

variable {config : Config n} {s t : State n}

/-- What a step of a server is, for servers with one version for each object. -/
inductive ServerMove (config : Config n) (s : State n) : Action n → State n → Prop
  | serve (i : Fin n) (name : CallId Phase) (frames : Body) (server : Server) (output : Output)
    (hsent : (i, name, frames) ∈ s.calls.requests.sent) (halive : s.alive i)
    (hwell : WellFormed server.objects)
    (hhandles : Handles config.strcmp (config.serverArgs i)
      ((s.servers i).version config.initData) (s.servers i).tables name frames
      (server.version config.initData) server.tables output) :
    ServerMove config s (.serve (i, name, frames)) (s.handle (i, name, frames) server output)
  | serveNotice (i j : Fin n) (notice : Disperse) (server : Server)
    (hsent : (i, j, notice) ∈ s.disperses.sent) (halive : s.alive j)
    (hwell : WellFormed server.objects)
    (hversion : server.version config.initData = (s.servers j).version config.initData)
    (hhandles : HandlesNotice (config.serverArgs j) (s.servers j).tables notice server.tables) :
    ServerMove config s (.serveNotice (i, j, notice)) (s.handleNotice (i, j, notice) server)
  | stop (i : Fin n) :
    ServerMove config s (.stop i) { s with alive := Function.update s.alive i false }

/-- A step of a server does what `Handles` and `HandlesNotice` say. -/
theorem ServerStep.move (h : Shape config s) {a : Action n} (hstep : ServerStep config s a t) :
    ServerMove config s a t := by
  cases hstep with
  | serve i name frames server output hsent halive hserver =>
    have hcorrect := algorithmSODAW_eq config.strcmp (config.serverArgs i) (h.stores i)
      fun hphase ↦ (h.requested hsent hphase).1
    rw [hserver] at hcorrect
    obtain ⟨hwell, hhandles⟩ := hcorrect.of_eq_some
    exact .serve i name frames server output hsent halive hwell hhandles
  | serveNotice i j notice server hsent halive hserver =>
    obtain ⟨sendTag, readTag, hsend, hread⟩ := h.noticed hsent
    obtain ⟨hwell, hversion, hhandles⟩ :=
      eq_of_algorithmSODAWOnNotice (h.stores j) hsend hread hserver
    exact .serveNotice i j notice server hsent halive hwell hversion hhandles
  | stop i => exact .stop i

section Handle

variable (s : State n) (i : Fin n) (name : CallId Phase) (frames : Body) (server : Server)
  (output : Output)

@[simp] theorem requests_sent_handle :
    (s.handle (i, name, frames) server output).calls.requests.sent = s.calls.requests.sent := by
  rcases hcase : output.response with - | response <;> simp [State.handle, hcase]

@[simp] theorem requests_delivered_handle :
    (s.handle (i, name, frames) server output).calls.requests.delivered =
      (i, name, frames) :: s.calls.requests.delivered := by
  rcases hcase : output.response with - | response <;> simp [State.handle, hcase]

variable {s i name frames server output}

theorem mem_answers_handle {j : Fin n} {other : CallId Phase} {body : Body} :
    (j, other, body) ∈ (s.handle (i, name, frames) server output).calls.answers.sent ↔
      (j = i ∧ other = name ∧ output.response = some body) ∨
        (j, other, body) ∈ s.calls.answers.sent := by
  rcases hcase : output.response with - | response
  · simp [State.handle, hcase]
  · simp [State.handle, hcase, eq_comm]

theorem mem_elements_handle {j : Fin n} {other : CallId Phase} {body : Body} :
    (j, other, body) ∈ (s.handle (i, name, frames) server output).elements.sent ↔
      (j = i ∧ (other, body) ∈ output.elements) ∨ (j, other, body) ∈ s.elements.sent := by
  simp only [State.handle, Network.sent_send, List.mem_append, List.mem_map, Prod.mk.injEq]
  refine or_congr_left ⟨?_, ?_⟩
  · rintro ⟨element, hmem, rfl, rfl⟩
    exact ⟨rfl, hmem⟩
  · rintro ⟨rfl, hmem⟩
    exact ⟨_, hmem, rfl, rfl⟩

theorem mem_disperses_handle {j k : Fin n} {notice : Disperse} :
    (j, k, notice) ∈ (s.handle (i, name, frames) server output).disperses.sent ↔
      (j = i ∧ notice ∈ output.disperses) ∨ (j, k, notice) ∈ s.disperses.sent := by
  simp only [State.handle, Network.sent_send, List.mem_append, List.mem_flatMap, List.mem_map,
    List.mem_finRange, true_and, Prod.mk.injEq]
  refine or_congr_left ⟨?_, ?_⟩
  · rintro ⟨other, hmem, l, rfl, rfl, rfl⟩
    exact ⟨rfl, hmem⟩
  · rintro ⟨rfl, hmem⟩
    exact ⟨notice, hmem, k, rfl, rfl, rfl⟩

/-- The server that handles a request changes, and the others do not. -/
theorem servers_handle (j : Fin n) :
    (s.handle (i, name, frames) server output).servers j =
      if j = i then server else s.servers j := by
  by_cases hj : j = i
  · subst hj
    simp [State.handle]
  · simp [State.handle, hj]

theorem servers_handleNotice {j k l : Fin n} {notice : Disperse} :
    (s.handleNotice (j, k, notice) server).servers l =
      if l = k then server else s.servers l := by
  by_cases hl : l = k
  · subst hl
    simp [State.handleNotice]
  · simp [State.handleNotice, hl]

/-- A notice leaves the stored tags. -/
theorem storedTag_handleNotice {j k : Fin n} {notice : Disperse}
    (hversion : server.version config.initData = (s.servers k).version config.initData)
    (object : CString) (l : Fin n) :
    (s.handleNotice (j, k, notice) server).storedTag config object l =
      s.storedTag config object l := by
  rw [State.storedTag, State.storedTag, servers_handleNotice]
  split_ifs with hl
  · rw [hversion, hl]
  · rfl

end Handle

theorem shape_initial : Shape config (State.initial : State n) where
  stores := fun _ ↦ wellFormed_empty
  stored := fun object i ↦ by
    have hinit : (State.initial : State n).storedTag config object i = initTag := by
      simp [State.storedTag, State.initial, Server.version, Server.initial, contents]
    rw [hinit]
    exact le_rfl
  requested := fun h ↦ absurd h List.not_mem_nil
  served := fun _ h ↦ absurd h List.not_mem_nil
  answered := fun h ↦ absurd h List.not_mem_nil
  element := fun h ↦ absurd h List.not_mem_nil
  noticed := fun h ↦ absurd h List.not_mem_nil
  clients := fun _ ↦ trivial

/-- A turn of a client keeps the shape. -/
theorem Shape.takeTurn (h : Shape config s) {clientId : CString} {turn : Turn n Client Phase}
    (hturn : Rendered turn) : Shape config (s.takeTurn clientId turn) where
  stores := h.stores
  stored := h.stored
  requested := fun {i name frames} hmem hphase ↦ by
    rcases (turn.mem_requests_sendOn s.calls).mp hmem with ⟨content, hcall, rfl⟩ | hold
    · exact hturn.2 name content hcall hphase i
    · exact h.requested hold hphase
  served := fun m hm ↦ by
    have hold : m ∈ s.calls.requests.delivered := by
      rwa [(serversKept_takeTurn s clientId turn).delivered] at hm
    exact (serversKept_takeTurn s clientId turn).requests m (h.served m hold)
  answered := fun {i name frames} hmem ↦ by
    rw [(serversKept_takeTurn s clientId turn).answers] at hmem
    rw [(serversKept_takeTurn s clientId turn).delivered]
    exact h.answered hmem
  element := h.element
  noticed := h.noticed
  clients := (Function.forall_update_iff s.clients fun _ client ↦ client.Nonneg).mpr
    ⟨hturn.1, fun other _ ↦ h.clients other⟩

/-- A step of a client keeps the shape. -/
theorem Shape.clientStep (h : Shape config s) {a : Action n} (hstep : ClientStep config s a t) :
    Shape config t := by
  cases hstep with
  | write clientId opNum object payload hidle =>
    refine h.takeTurn ⟨⟨rfl, fun tag htag ↦ absurd htag List.not_mem_nil⟩, ?_⟩
    rintro name content ⟨⟩ hphase
    exact absurd hphase not_carriesTag_get.1
  | read clientId opNum object hidle =>
    refine h.takeTurn ⟨⟨rfl, fun tag htag ↦ absurd htag List.not_mem_nil⟩, ?_⟩
    rintro name content ⟨⟩ hphase
    exact absurd hphase not_carriesTag_get.2
  | receive i name frames turn hsent hturn =>
    have hcollected : Shape config { s with calls := s.calls.collect (i, name, frames) } :=
      { h with }
    exact hcollected.takeTurn (hturn.rendered (h.clients name.client) (h.answered hsent).2.2.1)
  | receiveElement i name frames turn hsent hturn =>
    have hdelivered :
        Shape config { s with elements := s.elements.deliver (i, name, frames) } := { h with }
    exact hdelivered.takeTurn (hturn.rendered (h.clients name.client) (h.element hsent).2)
  | timeout clientId turn hturn => exact h.takeTurn (hturn.rendered (h.clients clientId))

/-- A step of a server keeps the shape. -/
theorem Shape.serverMove (h : Shape config s) {a : Action n} (hmove : ServerMove config s a t) :
    Shape config t := by
  cases hmove with
  | serve i name frames server output hsent halive hwell hhandles =>
    have hstored : ∀ object, 0 ≤ ((s.servers i).version config.initData object).1.number :=
      fun object ↦ h.stored object i
    have hrequest := h.requested hsent
    obtain ⟨helements, hnotices⟩ := hhandles.rendered hstored hrequest
    refine
      { stores := fun j ↦ ?_
        stored := fun object j ↦ ?_
        requested := fun {j other body} hmem ↦ ?_
        served := fun m hm ↦ ?_
        answered := fun {j other body} hmem ↦ ?_
        element := fun {j other body} hmem ↦ ?_
        noticed := fun {j k notice} hmem ↦ ?_
        clients := h.clients }
    · rw [servers_handle]
      split_ifs
      · exact hwell
      · exact h.stores j
    · rw [State.storedTag, servers_handle]
      split_ifs
      · exact (hstored object).trans (Tag.number_le_of_le (hhandles.version_le object))
      · exact h.stored object j
    · rw [requests_sent_handle] at hmem
      exact h.requested hmem
    · rw [requests_delivered_handle] at hm
      rw [requests_sent_handle]
      rcases List.mem_cons.mp hm with rfl | hold
      · exact hsent
      · exact h.served m hold
    · rw [requests_delivered_handle]
      rcases mem_answers_handle.mp hmem with ⟨rfl, rfl, hresponse⟩ | hold
      · obtain ⟨hphase, htag, hz, hobject, hput⟩ :=
          hhandles.response hstored hrequest hresponse
        exact ⟨hphase, htag, hz, frames, List.mem_cons_self, hobject, hput⟩
      · obtain ⟨hphase, htag, hz, request, hdelivered, hrest⟩ := h.answered hold
        exact ⟨hphase, htag, hz, request, List.mem_cons_of_mem _ hdelivered, hrest⟩
    · rcases mem_elements_handle.mp hmem with ⟨rfl, hnew⟩ | hold
      · exact helements _ hnew
      · exact h.element hold
    · rcases mem_disperses_handle.mp hmem with ⟨rfl, hnew⟩ | hold
      · exact hnotices _ hnew
      · exact h.noticed hold
  | serveNotice i j notice server hsent halive hwell hversion hhandles =>
    refine { h with stores := fun k ↦ ?_, stored := fun object k ↦ ?_ }
    · rw [servers_handleNotice]
      split_ifs
      · exact hwell
      · exact h.stores k
    · rw [storedTag_handleNotice hversion]
      exact h.stored object k
  | stop i => exact { h with }

/-- Every state of every run has the shape. -/
theorem Shape.of_run {guard : State n → Action n → Prop}
    (run : Run (step config) guard State.initial s) : Shape config s :=
  run.invariant shape_initial fun _ _ _ h _ hstep ↦
    (step_cases hstep).elim h.clientStep fun hserver ↦ h.serverMove (hserver.move h)

/-- In every step the stored tags grow. -/
theorem storedTag_le (h : Shape config s) {a : Action n} (hstep : step config s a = some t)
    (object : CString) (i : Fin n) :
    s.storedTag config object i ≤ t.storedTag config object i := by
  rcases step_cases hstep with hclient | hserver
  · rw [State.storedTag, State.storedTag, hclient.serversKept.servers]
  · cases hserver.move h with
    | serve j name frames server output hsent halive hwell hhandles =>
      rw [State.storedTag, State.storedTag, servers_handle]
      split_ifs with hi
      · subst hi
        exact hhandles.version_le object
      · exact le_rfl
    | serveNotice j k notice server hsent halive hwell hversion hhandles =>
      rw [storedTag_handleNotice hversion]
    | stop => exact le_rfl

end ShapeSteps

/-! ### Runs -/

/-- A configuration with files of four bytes. -/
def sampleConfig (n : ℕ) : Config n where
  strcmp := Strcmp.difference
  serverId := fun i ↦ [Fin.ofNat 256 (49 + i)]
  initData := [9, 9, 9, 9]
  filesizeKb := 1 / 256
  codingAlgorithm := .fullVector
  codecs := fun _ ↦ Codec.complement

/-- The stripe of a server. -/
def sampleStripe {n : ℕ} (i : Fin n) (payload : Frame) : Frame :=
  ((encodePayload (sampleConfig n) payload).map fun info ↦ info.encodedData.getD i []).getD []

/-- A write to the first two servers. -/
def sampleWrite (payload : Frame) : List (Action 3) :=
  let object := ascii ['o']
  let writer := ascii ['w']
  let tagStr := tagToString ⟨1, writer⟩
  [ .invokeWrite writer 1 object payload,
    .serve (0, ⟨writer, 1, .writeGet⟩, ⟨object, [], []⟩),
    .serve (1, ⟨writer, 1, .writeGet⟩, ⟨object, [], []⟩),
    .receive (0, ⟨writer, 1, .writeGet⟩, ⟨object, tagToString initTag, []⟩),
    .receive (1, ⟨writer, 1, .writeGet⟩, ⟨object, tagToString initTag, []⟩),
    .timeout writer,
    .serve (0, ⟨writer, 1, .writePut⟩, ⟨object, tagStr, sampleStripe (0 : Fin 3) payload⟩),
    .serve (1, ⟨writer, 1, .writePut⟩, ⟨object, tagStr, sampleStripe (1 : Fin 3) payload⟩),
    .receive (0, ⟨writer, 1, .writePut⟩, ⟨object, tagStr, []⟩),
    .receive (1, ⟨writer, 1, .writePut⟩, ⟨object, tagStr, []⟩) ]

/-- A later read that asks the last two servers for tags and collects the elements of the first
two. -/
def sampleRead (payload : Frame) : List (Action 3) :=
  let object := ascii ['o']
  let reader := ascii ['r']
  let tagStr := tagToString ⟨1, ascii ['w']⟩
  [ .invokeRead reader 1 object,
    .serve (1, ⟨reader, 1, .readGet⟩, ⟨object, [], []⟩),
    .serve (2, ⟨reader, 1, .readGet⟩, ⟨object, [], []⟩),
    .receive (1, ⟨reader, 1, .readGet⟩, ⟨object, tagStr, []⟩),
    .receive (2, ⟨reader, 1, .readGet⟩, ⟨object, tagToString initTag, []⟩),
    .timeout reader,
    .serve (0, ⟨reader, 1, .readValue⟩, ⟨object, tagStr, []⟩),
    .serve (1, ⟨reader, 1, .readValue⟩, ⟨object, tagStr, []⟩),
    .receiveElement (0, ⟨reader, 1, .readValue⟩,
      ⟨object, tagStr, sampleStripe (0 : Fin 3) payload⟩),
    .receiveElement (1, ⟨reader, 1, .readValue⟩,
      ⟨object, tagStr, sampleStripe (1 : Fin 3) payload⟩) ]

/-- The notice of a server about the element that it has sent to the reader. -/
def sampleNotice (i : Fin 3) : Disperse :=
  let tagStr := tagToString ⟨1, ascii ['w']⟩
  ⟨(sampleConfig 3).serverId i, ascii ['o'], tagStr, ascii ['r'], tagStr, 1⟩

/-- The history of the write and the read, once the read has decoded the payload. -/
def sampleHistory (payload : Frame) : List Event :=
  let object := ascii ['o']
  let writer := ascii ['w']
  let reader := ascii ['r']
  [ .readCompleted reader 1 object ⟨1, writer⟩ payload,
    .readTagged reader 1 object ⟨1, writer⟩ none,
    .readInvoked reader 1 object,
    .writeCompleted writer 1 object ⟨1, writer⟩,
    .writeTagged writer 1 object ⟨1, writer⟩ payload,
    .writeInvoked writer 1 object payload ]

end Colas.Sodaw
