import Colas.Abd.System
import Colas.ServerFrames

/-!
# Room in the buffers for ABD

The strings of the messages of ABD are read into buffers of `BUFSIZE` bytes too. `Fits` is what the
steps of clients have to do with that: the names with which an operation starts fit, and so does the
tag that a writer makes when it has its majority. `Limited` says that all that the messages, the
clients and the servers have fits, and it holds in every run of such steps (`Limited.of_run`).
-/

set_option autoImplicit false
set_option relaxedAutoImplicit false

namespace Colas.Abd

open TransitionSystem

variable {n : ℕ}

/-- The strings of a request of ABD fit. -/
structure RequestFits (name : CallId Phase) (request : Body) : Prop where
  call : CallFits name.client name.opnum request.object
  tag : name.phase = .writeValue → FitsBuffer request.tag

/-- The names and the tags that a client process has fit. -/
def Client.Fits (clientId : CString) : Client → Prop
  | .idle => True
  | .getMaxTag opNum object _ _ _ => CallFits clientId opNum object
  | .getMaxTagValue opNum object _ tag _ => CallFits clientId opNum object ∧ TagFits tag
  | .writeValue opNum object _ _ _ => CallFits clientId opNum object
  | .exited => True

/-- If a writer chooses its tag in the turn, the tag fits. -/
def NewTagFits (turn : Turn n Client Phase) : Prop :=
  match turn.event with
  | some (.writeTagged _ _ _ tag _) => TagFits tag
  | _ => True

instance (turn : Turn n Client Phase) : Decidable (NewTagFits turn) := by
  unfold NewTagFits
  split <;> infer_instance

/-- Operations have names that fit, and writers make tags that do. -/
def Fits (strcmp : Strcmp) (s : State n) : Action n → Prop
  | .invokeWrite clientId opNum object _ => CallFits clientId opNum object
  | .invokeRead clientId opNum object => CallFits clientId opNum object
  | .serve _ => True
  | .receive (_, name, frames) heap =>
    ∀ turn ∈ (s.clients name.client).receive (n := n) strcmp name.client heap name.opnum name.phase
      frames, NewTagFits turn

/-- All that the state has fits, and the responses carry renderings of tags. -/
structure Limited (initData : Frame) (s : State n) : Prop where
  clients : ∀ clientId, (s.clients clientId).Fits clientId
  requested : ∀ {i name frames}, (i, name, frames) ∈ s.calls.requests.sent →
    RequestFits name frames
  answered : ∀ {i name frames}, (i, name, frames) ∈ s.calls.answers.sent →
    AnswerFits name frames ∧ frames.tag = tagToString frames.tagValue
  stored : ∀ object i, TagFits (s.storedTag initData object i)

/-! ### Turns of clients -/

/-- The client after a turn fits, and the requests that it sends do. -/
structure TurnFits (clientId : CString) (turn : Turn n Client Phase) : Prop where
  client : turn.client.Fits clientId
  multicast : ∀ {name content}, turn.multicast = some (name, content) →
    ∀ i, RequestFits name (content i)

theorem turnFits_abdWrite {clientId object : CString} {opNum : ℕ}
    (h : CallFits clientId opNum object) (rawData : Frame) :
    TurnFits clientId (abdWrite (n := n) clientId opNum object rawData) := by
  refine ⟨h, ?_⟩
  rintro name content ⟨⟩ i
  exact ⟨h, by rintro ⟨⟩⟩

theorem turnFits_abdRead {clientId object : CString} {opNum : ℕ}
    (h : CallFits clientId opNum object) :
    TurnFits clientId (abdRead (n := n) clientId opNum object) := by
  have htag : TagFits ⟨-1, []⟩ := by decide
  refine ⟨⟨h, htag⟩, ?_⟩
  rintro name content ⟨⟩ i
  exact ⟨h, by rintro ⟨⟩⟩

/-- The maximum after a response whose tag fits. -/
theorem tagFits_updateMaxTagValue (strcmp : Strcmp) {tag recvTag : Tag} (data : Option Frame)
    (payload : Frame) (htag : TagFits tag) (hrecv : TagFits recvTag) :
    TagFits (updateMaxTagValue strcmp tag data recvTag payload).1 := by
  rcases updateMaxTagValue_eq_or strcmp tag data recvTag payload with heq | heq
  · rwa [heq]
  · rwa [heq]

/-- A turn on a response whose tag fits, if the tag fits that the client makes. -/
theorem Receives.fits {strcmp : Strcmp} {clientId : CString}
    {heap : Heap} {round : ℕ} {phase : Phase} {frames : Body}
    {client : Client} {turn : Turn n Client Phase}
    (h : Receives strcmp clientId heap round frames phase client turn)
    (hclient : client.Fits clientId) (htag : TagFits frames.tagValue) (hnew : NewTagFits turn) :
    TurnFits clientId turn := by
  cases h with
  | stale => exact ⟨hclient, by rintro name content ⟨⟩⟩
  | ended => exact ⟨trivial, by rintro name content ⟨⟩⟩
  | countTag => exact ⟨hclient, by rintro name content ⟨⟩⟩
  | chooseTag =>
    refine ⟨hclient, ?_⟩
    rintro name content ⟨⟩ i
    exact ⟨hclient, fun _ ↦ hnew⟩
  | countValue =>
    exact ⟨⟨hclient.1, tagFits_updateMaxTagValue strcmp _ _ hclient.2 htag⟩,
      by rintro name content ⟨⟩⟩
  | chooseValue =>
    refine ⟨hclient.1, ?_⟩
    rintro name content ⟨⟩ i
    exact ⟨hclient.1, fun _ ↦ tagFits_updateMaxTagValue strcmp _ _ hclient.2 htag⟩
  | countAck => exact ⟨hclient, by rintro name content ⟨⟩⟩
  | complete => exact ⟨trivial, by rintro name content ⟨⟩⟩

/-! ### The invariant -/

section Invariant

variable {strcmp : Strcmp} {initData : Frame} {s t : State n}

theorem limited_initial : Limited initData (State.initial : State n) where
  clients := fun _ ↦ trivial
  requested := fun h ↦ absurd h List.not_mem_nil
  answered := fun h ↦ absurd h List.not_mem_nil
  stored := fun object i ↦ by
    have hinit : (State.initial : State n).storedTag initData object i = initTag := by
      simp [State.storedTag, State.initial, Server.version, Server.initial, contents]
    rw [hinit]
    decide

/-- A turn that fits. -/
theorem Limited.takeTurn (h : Limited initData s) {clientId : CString}
    {turn : Turn n Client Phase} (hturn : TurnFits clientId turn) :
    Limited initData (s.takeTurn clientId turn) where
  clients := (Function.forall_update_iff s.clients fun other client ↦ client.Fits other).mpr
    ⟨hturn.client, fun other _ ↦ h.clients other⟩
  requested := fun {i name frames} hmem ↦ by
    rcases (turn.mem_requests_sendOn s.calls).mp hmem with ⟨content, hcall, rfl⟩ | hold
    · exact hturn.multicast hcall i
    · exact h.requested hold
  answered := fun {i name frames} hmem ↦ by
    rw [calls_takeTurn, Turn.answers_sendOn] at hmem
    exact h.answered hmem
  stored := h.stored

/-- The turn of a client on a response. -/
theorem exists_turn {response : Fin n × CallId Phase × Body}
    {heap : Heap}
    (h : step strcmp initData s (.receive response heap) = some t) :
    response ∈ s.calls.answers.sent ∧ ∃ turn,
      (s.clients response.2.1.client).receive strcmp response.2.1.client heap response.2.1.opnum
        response.2.1.phase response.2.2 = some turn ∧
      t = ({ s with calls := s.calls.collect response } : State n).takeTurn response.2.1.client
        turn := by
  simp only [step, Option.ite_none_right_eq_some, Option.bind_eq_bind, Option.bind_eq_some_iff,
    Option.some.injEq] at h
  obtain ⟨hsent, turn, hturn, rfl⟩ := h
  exact ⟨hsent, turn, hturn, rfl⟩

/-- A response of a server fits, and carries the rendering of a tag. -/
theorem Limited.response (hshape : Shape initData s) (h : Limited initData s) {i : Fin n}
    {name : CallId Phase} {frames : Body} (hsent : (i, name, frames) ∈ s.calls.requests.sent) :
    AnswerFits name (Abd.response ((s.servers i).version initData) name.phase frames) ∧
      (Abd.response ((s.servers i).version initData) name.phase frames).tag =
        tagToString
          (Abd.response ((s.servers i).version initData) name.phase frames).tagValue := by
  have hfits := h.requested hsent
  have hstored : FitsBuffer (tagToString ((s.servers i).version initData frames.object).1) :=
    h.stored frames.object i
  cases hphase : name.phase with
  | getTag => exact ⟨⟨hfits.call, hstored⟩, by simp [Abd.response]⟩
  | getTagValue => exact ⟨⟨hfits.call, hstored⟩, by simp [Abd.response]⟩
  | writeValue =>
    exact ⟨⟨hfits.call, hfits.tag hphase⟩, (hshape.requested hsent hphase).1⟩

/-- A step of a server. -/
theorem Limited.serverStep (hshape : Shape initData s) (h : Limited initData s) {a : Action n}
    (hstep : ServerStep strcmp initData s a t) : Limited initData t := by
  obtain ⟨i, name, frames, server, rfl, hsent, rfl, hwell, hversion⟩ := hstep.eq hshape
  refine
    { clients := h.clients
      requested := h.requested
      answered := fun {j other body} hmem ↦ ?_
      stored := fun object j ↦ ?_ }
  · rcases List.mem_cons.mp hmem with heq | hold
    · obtain ⟨rfl, rfl, rfl⟩ := by simpa using heq
      exact h.response hshape hsent
    · exact h.answered hold
  · rw [State.storedTag, version_handle]
    split_ifs with hj
    · rw [hversion]
      split_ifs with hadopts
      · by_cases hobject : object = frames.object
        · subst hobject
          rw [Function.update_self, TagFits, ← (hshape.requested hsent hadopts.1).1]
          exact (h.requested hsent).tag hadopts.1
        · rw [Function.update_of_ne hobject]
          exact h.stored object i
      · exact h.stored object i
    · exact h.stored object j

/-- One step. -/
theorem Limited.step (hshape : Shape initData s) (h : Limited initData s) {a : Action n}
    (hfits : Fits strcmp s a) (hstep : Abd.step strcmp initData s a = some t) :
    Limited initData t := by
  rcases step_cases hstep with hclient | hserver
  · cases hclient with
    | write clientId opNum object payload hidle =>
      exact h.takeTurn (turnFits_abdWrite hfits payload)
    | read clientId opNum object hidle => exact h.takeTurn (turnFits_abdRead hfits)
    | receive i name frames heap =>
      obtain ⟨hsent, turn, hturn, heq⟩ := exists_turn hstep
      have hcollected : Limited initData { s with calls := s.calls.collect (i, name, frames) } :=
        { h with }
      obtain ⟨hanswer, htag⟩ := h.answered hsent
      rw [heq]
      exact hcollected.takeTurn ((Client.receives hturn).fits (h.clients name.client)
        (hanswer.tagValue htag) (hfits turn hturn))
  · exact h.serverStep hshape hserver

/-- In every run in which the names and the new tags fit, everything fits. -/
theorem Limited.of_run {guard : State n → Action n → Prop}
    (hfits : ∀ s a, guard s a → Fits strcmp s a)
    (run : Run (Abd.step strcmp initData) guard State.initial s) : Limited initData s :=
  run.invariant_reach limited_initial fun _ _ _ hrun h hguard hstep ↦
    h.step (Shape.of_run hrun) (hfits _ _ hguard) hstep

end Invariant

end Colas.Abd
