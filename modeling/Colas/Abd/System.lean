import Colas.Abd.Client
import Colas.Library.Quorum
import Colas.Library.Run

/-!
# The ABD system

`n` servers, any number of client processes, and the messages between them. A step is one of four
actions: a client starts a write or a read, a server handles a request, or a client receives a
response. The adversary chooses the actions, so messages are delayed and reordered without limit,
and a message that was sent can be handled at any later time. `step` has no result where the action
is impossible in the state or a process would fail an assertion or leave a buffer.

`Guard` is what the properties of runs assume of the environment: a client never uses an operation
number twice, and no message is delivered twice. `FreshNumbers` is its first half.

The invariant of this module, `Shape`, holds in every run, without a guard: stores have one version
for each object, every tag on the network is the rendering of a tag, and every response repeats the
object, and for `WRITE_VALUE` the tag, of a request that was sent. From it, `ServerStep.eq`
describes the handling of a request as an update of the map of versions, and the versions only grow
(`storedTag_le`).
-/

set_option autoImplicit false
set_option relaxedAutoImplicit false

namespace Colas.Abd

open TransitionSystem

variable {n : ℕ}

/-- The state of the system. -/
structure State (n : ℕ) where
  /-- The servers. -/
  servers : Fin n → Server
  /-- The client processes, by client id. -/
  clients : CString → Client
  /-- The requests and the responses. -/
  calls : Calls (Fin n) (CallId Phase) Body Body
  /-- What the outside has seen, newest first. -/
  history : List Event

/-- The state before the first operation. -/
def State.initial : State n :=
  ⟨fun _ ↦ Server.initial, fun _ ↦ .idle, Calls.empty, []⟩

/-- The state after a turn of a client. -/
def State.takeTurn (s : State n) (clientId : CString) (turn : Turn n Client Phase) : State n where
  servers := s.servers
  clients := Function.update s.clients clientId turn.client
  calls := turn.sendOn s.calls
  history := turn.event.toList ++ s.history

/-- The state after a server has handled a request and sent a response. -/
def State.handle (s : State n) (request : Fin n × CallId Phase × Body) (server : Server)
    (response : Body) : State n where
  servers := Function.update s.servers request.1 server
  clients := s.clients
  calls := (s.calls.serve request).answer (request.1, request.2.1, response)
  history := s.history

/-- The actions of the system. -/
inductive Action (n : ℕ)
  | invokeWrite (clientId : CString) (opNum : ℕ) (object : CString) (payload : Frame)
  | invokeRead (clientId : CString) (opNum : ℕ) (object : CString)
  | serve (request : Fin n × CallId Phase × Body)
  | receive (response : Fin n × CallId Phase × Body) (heap : Heap)

/-- One step of the system. -/
def step (strcmp : Strcmp) (initData : Frame) (s : State n) : Action n → Option (State n)
  | .invokeWrite clientId opNum object payload =>
    if s.clients clientId = .idle then
      some (s.takeTurn clientId (abdWrite clientId opNum object payload))
    else none
  | .invokeRead clientId opNum object =>
    if s.clients clientId = .idle then some (s.takeTurn clientId (abdRead clientId opNum object))
    else none
  | .serve request =>
    if request ∈ s.calls.requests.sent then do
      let result ←
        algorithmABD strcmp initData (s.servers request.1) request.2.1.phase request.2.2
      some (s.handle request result.1 result.2)
    else none
  | .receive response heap =>
    if response ∈ s.calls.answers.sent then do
      let name := response.2.1
      let turn ← (s.clients name.client).receive strcmp name.client heap name.opnum name.phase
        response.2.2
      some (({ s with calls := s.calls.collect response } : State n).takeTurn name.client turn)
    else none

/-- A client does not use an operation number twice. -/
def FreshNumbers (s : State n) : Action n → Prop
  | .invokeWrite clientId opNum _ _ => ¬ Invoked s.history clientId opNum
  | .invokeRead clientId opNum _ => ¬ Invoked s.history clientId opNum
  | .serve _ => True
  | .receive _ _ => True

/-- A client does not use an operation number twice, and a message is not delivered twice. -/
def Guard (s : State n) : Action n → Prop
  | .invokeWrite clientId opNum _ _ => ¬ Invoked s.history clientId opNum
  | .invokeRead clientId opNum _ => ¬ Invoked s.history clientId opNum
  | .serve request => request ∉ s.calls.requests.delivered
  | .receive response _ => response ∉ s.calls.answers.delivered

instance (s : State n) (a : Action n) : Decidable (Guard s a) :=
  match a with
  | .invokeWrite clientId opNum _ _ =>
    inferInstanceAs (Decidable (¬ Invoked s.history clientId opNum))
  | .invokeRead clientId opNum _ =>
    inferInstanceAs (Decidable (¬ Invoked s.history clientId opNum))
  | .serve request => inferInstanceAs (Decidable (request ∉ s.calls.requests.delivered))
  | .receive response _ => inferInstanceAs (Decidable (response ∉ s.calls.answers.delivered))

instance (s : State n) (a : Action n) : Decidable (FreshNumbers s a) :=
  match a with
  | .invokeWrite clientId opNum _ _ =>
    inferInstanceAs (Decidable (¬ Invoked s.history clientId opNum))
  | .invokeRead clientId opNum _ =>
    inferInstanceAs (Decidable (¬ Invoked s.history clientId opNum))
  | .serve _ => inferInstanceAs (Decidable True)
  | .receive _ _ => inferInstanceAs (Decidable True)

/-- The tag that a server stores for an object. -/
def State.storedTag (initData : Frame) (s : State n) (object : CString) (i : Fin n) : Tag :=
  ((s.servers i).version initData object).1

/-! ### Turns -/

section Turns

variable (s : State n) (clientId : CString) (turn : Turn n Client Phase)

@[simp] theorem servers_takeTurn : (s.takeTurn clientId turn).servers = s.servers := rfl

@[simp] theorem history_takeTurn :
    (s.takeTurn clientId turn).history = turn.event.toList ++ s.history := rfl

@[simp] theorem calls_takeTurn : (s.takeTurn clientId turn).calls = turn.sendOn s.calls := rfl

@[simp] theorem clients_takeTurn :
    (s.takeTurn clientId turn).clients = Function.update s.clients clientId turn.client := rfl

end Turns

/-! ### Steps of the two parties -/

section Steps

variable {strcmp : Strcmp} {initData : Frame} {s t : State n}

/-- A step of a client: it starts an operation, or it takes one of the turns of `Receives`. -/
inductive ClientStep (strcmp : Strcmp) (s : State n) : Action n → State n → Prop
  | write (clientId : CString) (opNum : ℕ) (object : CString) (payload : Frame)
    (hidle : s.clients clientId = .idle) :
    ClientStep strcmp s (.invokeWrite clientId opNum object payload)
      (s.takeTurn clientId (abdWrite clientId opNum object payload))
  | read (clientId : CString) (opNum : ℕ) (object : CString)
    (hidle : s.clients clientId = .idle) :
    ClientStep strcmp s (.invokeRead clientId opNum object)
      (s.takeTurn clientId (abdRead clientId opNum object))
  | receive (i : Fin n) (name : CallId Phase) (frames : Body)
    (heap : Heap) (turn : Turn n Client Phase)
    (hsent : (i, name, frames) ∈ s.calls.answers.sent)
    (hturn : Receives strcmp name.client heap name.opnum frames name.phase
      (s.clients name.client) turn) :
    ClientStep strcmp s (.receive (i, name, frames) heap)
      (({ s with calls := s.calls.collect (i, name, frames) } : State n).takeTurn name.client turn)

/-- A step of a server: it handles a request that was sent. -/
inductive ServerStep (strcmp : Strcmp) (initData : Frame) (s : State n) : Action n → State n → Prop
  | serve (i : Fin n) (name : CallId Phase) (frames : Body) (server : Server) (response : Body)
    (hsent : (i, name, frames) ∈ s.calls.requests.sent)
    (hserver : algorithmABD strcmp initData (s.servers i) name.phase frames =
      some (server, response)) :
    ServerStep strcmp initData s (.serve (i, name, frames))
      (s.handle (i, name, frames) server response)

/-- Every step is a step of a client or of a server. -/
theorem step_cases {a : Action n} (h : step strcmp initData s a = some t) :
    ClientStep strcmp s a t ∨ ServerStep strcmp initData s a t := by
  cases a with
  | invokeWrite clientId opNum object payload =>
    simp only [step, Option.ite_none_right_eq_some, Option.some.injEq] at h
    obtain ⟨hidle, rfl⟩ := h
    exact Or.inl (.write clientId opNum object payload hidle)
  | invokeRead clientId opNum object =>
    simp only [step, Option.ite_none_right_eq_some, Option.some.injEq] at h
    obtain ⟨hidle, rfl⟩ := h
    exact Or.inl (.read clientId opNum object hidle)
  | serve request =>
    simp only [step, Option.ite_none_right_eq_some, Option.bind_eq_bind,
      Option.bind_eq_some_iff, Option.some.injEq] at h
    obtain ⟨hsent, result, hserver, rfl⟩ := h
    exact Or.inr (.serve _ _ _ result.1 result.2 hsent hserver)
  | receive response heap =>
    simp only [step, Option.ite_none_right_eq_some, Option.bind_eq_bind,
      Option.bind_eq_some_iff, Option.some.injEq] at h
    obtain ⟨hsent, turn, hturn, rfl⟩ := h
    exact Or.inl (.receive _ _ _ heap turn hsent (Client.receives hturn))

end Steps

/-! ### The shape of the states -/

/-- What holds in every run, whatever is delivered twice and whichever numbers are used. -/
structure Shape (initData : Frame) (s : State n) : Prop where
  /-- Every object has one version. -/
  stores : ∀ i, WellFormed (s.servers i).objects
  /-- Version numbers are not negative. -/
  stored : ∀ object i, 0 ≤ (s.storedTag initData object i).number
  /-- A `WRITE_VALUE` request carries the rendering of a tag. -/
  requested : ∀ {i name frames}, (i, name, frames) ∈ s.calls.requests.sent →
    name.phase = .writeValue → frames.tag = tagToString frames.tagValue ∧ 0 ≤ frames.tagValue.number
  /-- A response carries a tag and repeats the object, and for `WRITE_VALUE` the tag, of a
  request. -/
  answered : ∀ {i name frames}, (i, name, frames) ∈ s.calls.answers.sent →
    0 ≤ frames.tagValue.number ∧ ∃ request, (i, name, request) ∈ s.calls.requests.sent ∧
      frames.object = request.object ∧ (name.phase = .writeValue → frames.tag = request.tag)
  /-- So do the tags that the clients keep. -/
  clients : ∀ clientId, (s.clients clientId).Nonneg

section ShapeSteps

variable {strcmp : Strcmp} {initData : Frame} {s t : State n}

theorem shape_initial : Shape initData (State.initial : State n) where
  stores := fun _ ↦ wellFormed_empty
  stored := fun object i ↦ by
    have hinit : (State.initial : State n).storedTag initData object i = initTag := by
      simp [State.storedTag, State.initial, Server.version, Server.initial, contents]
    rw [hinit]
    exact le_rfl
  requested := fun h ↦ absurd h List.not_mem_nil
  answered := fun h ↦ absurd h List.not_mem_nil
  clients := fun _ ↦ trivial

/-- A turn keeps the shape if it keeps version numbers nonnegative. -/
theorem Shape.takeTurn (h : Shape initData s) {clientId : CString} {turn : Turn n Client Phase}
    (hclient : turn.client.Nonneg)
    (hmulticast : ∀ name content, turn.multicast = some (name, content) →
      name.phase = .writeValue →
        ∀ i, (content i).tag = tagToString (content i).tagValue ∧ 0 ≤ (content i).tagValue.number) :
    Shape initData (s.takeTurn clientId turn) where
  stores := h.stores
  stored := h.stored
  requested := fun {i name frames} hmem hphase ↦ by
    rcases (turn.mem_requests_sendOn s.calls).mp hmem with ⟨content, hcall, rfl⟩ | hold
    · exact hmulticast name content hcall hphase i
    · exact h.requested hold hphase
  answered := fun {i name frames} hmem ↦ by
    rw [calls_takeTurn, Turn.answers_sendOn] at hmem
    obtain ⟨hz, request, hrequest, hrest⟩ := h.answered hmem
    exact ⟨hz, request, (turn.mem_requests_sendOn s.calls).mpr (Or.inr hrequest), hrest⟩
  clients := (Function.forall_update_iff s.clients fun _ client ↦ client.Nonneg).mpr
    ⟨hclient, fun other _ ↦ h.clients other⟩

/-- Receiving a response keeps the shape. -/
theorem Shape.collect (h : Shape initData s) (response : Fin n × CallId Phase × Body) :
    Shape initData { s with calls := s.calls.collect response } where
  stores := h.stores
  stored := h.stored
  requested := h.requested
  answered := h.answered
  clients := h.clients

/-- A client step keeps the shape. -/
theorem Shape.clientStep (h : Shape initData s) {a : Action n} (hstep : ClientStep strcmp s a t) :
    Shape initData t := by
  cases hstep with
  | write clientId opNum object payload hidle =>
    refine h.takeTurn (fun tag htag ↦ absurd htag List.not_mem_nil) ?_
    rintro name content ⟨⟩ ⟨⟩
  | read clientId opNum object hidle =>
    refine h.takeTurn (fun hdata ↦ absurd rfl hdata) ?_
    rintro name content ⟨⟩ ⟨⟩
  | receive i name frames heap turn hsent hturn =>
    obtain ⟨hclient, hmulticast⟩ := hturn.nonneg (h.clients name.client) (h.answered hsent).1
    exact (h.collect _).takeTurn hclient fun other content hcall _ ↦ hmulticast other content hcall

/-- A server step is the update of the version of the object, if the request is a `WRITE_VALUE`
that the server adopts, and sends the response for the versions before it. -/
theorem ServerStep.eq (h : Shape initData s) {a : Action n}
    (hstep : ServerStep strcmp initData s a t) :
    ∃ i name frames server, a = .serve (i, name, frames) ∧
      (i, name, frames) ∈ s.calls.requests.sent ∧
      t = s.handle (i, name, frames) server
        (response ((s.servers i).version initData) name.phase frames) ∧
      WellFormed server.objects ∧
      server.version initData =
        if Adopts strcmp ((s.servers i).version initData) name.phase frames frames.tagValue then
          Function.update ((s.servers i).version initData) frames.object
            (frames.tagValue, frames.payload)
        else (s.servers i).version initData := by
  cases hstep with
  | serve i name frames server reply hsent hserver =>
    obtain ⟨rfl, hwell, hversion⟩ := eq_of_algorithmABD (h.stores i)
      (fun hphase ↦ (h.requested hsent hphase).1) hserver
    exact ⟨i, name, frames, server, rfl, hsent, rfl, hwell, hversion⟩

/-- The versions at a server after a server step. -/
theorem version_handle (request : Fin n × CallId Phase × Body) (server : Server) (reply : Body)
    (i : Fin n) : ((s.handle request server reply).servers i).version initData =
      if i = request.1 then server.version initData else (s.servers i).version initData := by
  by_cases hi : i = request.1
  · subst hi
    simp [State.handle]
  · simp [State.handle, hi]

/-- The version number of the stored tag and of a request to adopt stay nonnegative. -/
theorem Shape.serverStep (h : Shape initData s) {a : Action n}
    (hstep : ServerStep strcmp initData s a t) : Shape initData t := by
  obtain ⟨i, name, frames, server, rfl, hsent, rfl, hwell, hversion⟩ := hstep.eq h
  have hadopted : ∀ object, 0 ≤ (server.version initData object).1.number := by
    intro object
    rw [hversion]
    split_ifs with hadopts
    · by_cases hobject : object = frames.object
      · subst hobject
        rw [Function.update_self]
        exact (h.requested hsent hadopts.1).2
      · rw [Function.update_of_ne hobject]
        exact h.stored object i
    · exact h.stored object i
  refine
    { stores := fun j ↦ ?_
      stored := fun object j ↦ ?_
      requested := h.requested
      answered := fun {j other body} hmem ↦ ?_
      clients := h.clients }
  · by_cases hj : j = i
    · subst hj
      simpa [State.handle] using hwell
    · simpa [State.handle, hj] using h.stores j
  · rw [State.storedTag, version_handle]
    split_ifs
    · exact hadopted object
    · exact h.stored object j
  · rcases List.mem_cons.mp hmem with heq | hold
    · obtain ⟨rfl, rfl, rfl⟩ := by simpa using heq
      refine ⟨?_, frames, hsent, ?_⟩
      · cases hphase : other.phase with
        | getTag => simpa [response, State.storedTag] using h.stored frames.object j
        | getTagValue => simpa [response, State.storedTag] using h.stored frames.object j
        | writeValue => exact (h.requested hsent hphase).2
      · cases hphase : other.phase <;> simp [response]
    · exact h.answered hold

/-- Every state of every run has the shape. -/
theorem Shape.of_run {guard : State n → Action n → Prop}
    (run : Run (step strcmp initData) guard State.initial s) : Shape initData s :=
  run.invariant shape_initial fun _ _ _ h _ hstep ↦
    (step_cases hstep).elim h.clientStep h.serverStep

/-- In every step the stored tags grow. -/
theorem storedTag_le (h : Shape initData s) {a : Action n}
    (hstep : step strcmp initData s a = some t) (object : CString) (i : Fin n) :
    s.storedTag initData object i ≤ t.storedTag initData object i := by
  rcases step_cases hstep with hclient | hserver
  · cases hclient <;> exact le_rfl
  · obtain ⟨j, name, frames, server, rfl, -, rfl, -, hversion⟩ := hserver.eq h
    rw [State.storedTag, State.storedTag, version_handle]
    split_ifs with hi
    · obtain rfl : i = j := hi
      rw [hversion]
      split_ifs with hadopts
      · by_cases hobject : object = frames.object
        · subst hobject
          rw [Function.update_self]
          exact (lt_of_compareTags_eq_neg_one strcmp _ _ hadopts.2).le
        · rw [Function.update_of_ne hobject]
      · exact le_rfl
    · exact le_rfl

end ShapeSteps

end Colas.Abd
