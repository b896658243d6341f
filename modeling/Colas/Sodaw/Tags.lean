import Colas.BaseProcess.Writers
import Colas.Sodaw.Elements

/-!
# Where the tags of SODAW come from

Only a writer at the end of its first phase makes a tag, and only a reader asks for a value. So
every tag that a server stores or sends an element with is the initial one or that of a write, and
every `READ_VALUE` is of a read (`TagsMade.of_run`). A notice is about an element, which tells what
its key in a history table is put together from: whether the key has room there can be said of the
operations of a run (`RoomForKeys`).
-/

set_option autoImplicit false
set_option relaxedAutoImplicit false

namespace Colas.Sodaw

open TransitionSystem

variable {n : ℕ} {config : Config n} {s t : State n}

/-- A reader has started its operation. -/
def Client.HasStarted (history : List Event) (clientId : CString) : Client → Prop
  | .get opNum object .read _ _ => .readInvoked clientId opNum object ∈ history
  | .readValue opNum object _ _ _ => .readInvoked clientId opNum object ∈ history
  | _ => True

/-- The requests and the tags come from operations. -/
structure TagsMade (config : Config n) (s : State n) : Prop where
  put : ∀ {i name frames}, (i, name, frames) ∈ s.calls.requests.sent → name.phase = .writePut →
    Made s.history frames.tagValue
  value : ∀ {i name frames}, (i, name, frames) ∈ s.calls.requests.sent →
    name.phase = .readValue → ∃ object, .readInvoked name.client name.opnum object ∈ s.history
  clients : ∀ clientId, (s.clients clientId).HasStarted s.history clientId
  stored : ∀ object i, Made s.history (s.storedTag config object i)
  element : ∀ {i name frames}, (i, name, frames) ∈ s.elements.sent → Made s.history frames.tagValue

theorem Client.HasStarted.mono {history history' : List Event} {clientId : CString}
    {client : Client} (h : client.HasStarted history clientId) (hsub : history ⊆ history') :
    client.HasStarted history' clientId := by
  cases client with
  | get opNum object operation =>
    cases operation with
    | write => trivial
    | read => exact hsub h
  | readValue => exact hsub h
  | _ => trivial

theorem tagsMade_initial : TagsMade config (State.initial : State n) where
  put := fun h ↦ absurd h List.not_mem_nil
  value := fun h ↦ absurd h List.not_mem_nil
  clients := fun _ ↦ trivial
  stored := fun object i ↦ Or.inl <| by
    simp [State.storedTag, State.initial, Server.version, Server.initial, contents]
  element := fun h ↦ absurd h List.not_mem_nil

/-! ### Steps of clients -/

/-- A turn whose requests come from operations. -/
theorem TagsMade.takeTurn (h : TagsMade config s) {clientId : CString} {turn : Turn n Client Phase}
    (hclient : turn.client.HasStarted (turn.event.toList ++ s.history) clientId)
    (hput : ∀ name content, turn.multicast = some (name, content) → name.phase = .writePut →
      ∀ i, Made (turn.event.toList ++ s.history) (content i).tagValue)
    (hvalue : ∀ name content, turn.multicast = some (name, content) → name.phase = .readValue →
      ∃ object, .readInvoked name.client name.opnum object ∈ turn.event.toList ++ s.history) :
    TagsMade config (s.takeTurn clientId turn) := by
  have hsub : s.history ⊆ turn.event.toList ++ s.history := List.subset_append_right _ _
  refine
    { put := fun {i name frames} hmem hphase ↦ ?_
      value := fun {i name frames} hmem hphase ↦ ?_
      clients := (Function.forall_update_iff s.clients fun other client ↦
        Client.HasStarted (turn.event.toList ++ s.history) other client).mpr
          ⟨hclient, fun other _ ↦ (h.clients other).mono hsub⟩
      stored := fun object i ↦ (h.stored object i).mono hsub
      element := fun hmem ↦ (h.element hmem).mono hsub }
  · rcases (turn.mem_requests_sendOn s.calls).mp hmem with ⟨content, hcall, rfl⟩ | hold
    · exact hput name content hcall hphase i
    · exact (h.put hold hphase).mono hsub
  · rcases (turn.mem_requests_sendOn s.calls).mp hmem with ⟨content, hcall, rfl⟩ | hold
    · exact hvalue name content hcall hphase
    · obtain ⟨object, hinvoked⟩ := h.value hold hphase
      exact ⟨object, hsub hinvoked⟩

/-- A turn on a message sends nothing and goes on with the operation. -/
theorem Receives.hasStarted {history : List Event} {clientId : CString} {round : ℕ} {phase : Phase}
    {frames : Body} {client : Client} {turn : Turn n Client Phase}
    (hturn : Receives clientId round frames phase client turn)
    (h : client.HasStarted history clientId) :
    turn.multicast = none ∧ turn.client.HasStarted history clientId := by
  cases hturn with
  | stale => exact ⟨rfl, h⟩
  | @countTag object operation => cases operation <;> exact ⟨rfl, h⟩
  | collect => exact ⟨rfl, h⟩
  | decide => exact ⟨rfl, h⟩
  | _ => exact ⟨rfl, trivial⟩

/-- A step of a client. -/
theorem TagsMade.clientStep (h : TagsMade config s) {a : Action n}
    (hstep : ClientStep config s a t) : TagsMade config t := by
  have hreceive : ∀ {s : State n}, TagsMade config s → ∀ {clientId : CString} {round : ℕ}
      {phase : Phase} {frames : Body} {turn : Turn n Client Phase},
      Receives clientId round frames phase (s.clients clientId) turn →
        TagsMade config (s.takeTurn clientId turn) := by
    intro s h clientId round phase frames turn hturn
    obtain ⟨hnone, hclient⟩ := hturn.hasStarted (h.clients clientId)
    refine h.takeTurn (hclient.mono (List.subset_append_right _ _)) ?_ ?_ <;>
      · intro name content hcall
        rw [hnone] at hcall
        cases hcall
  cases hstep with
  | write clientId opNum object payload hidle =>
    exact h.takeTurn trivial (by rintro name content ⟨⟩ ⟨⟩) (by rintro name content ⟨⟩ ⟨⟩)
  | read clientId opNum object hidle =>
    exact h.takeTurn List.mem_cons_self (by rintro name content ⟨⟩ ⟨⟩)
      (by rintro name content ⟨⟩ ⟨⟩)
  | receive i name frames turn hsent hturn =>
    have hcollected : TagsMade config { s with calls := s.calls.collect (i, name, frames) } :=
      { h with }
    exact hreceive hcollected hturn
  | receiveElement i name frames turn hsent hturn =>
    have hdelivered : TagsMade config
        { s with elements := s.elements.deliver (i, name, frames) } := { h with }
    exact hreceive hdelivered hturn
  | timeout clientId turn hturn =>
    have hown := h.clients clientId
    generalize s.clients clientId = client at hturn hown
    cases hturn with
    | startWrite =>
      refine h.takeTurn trivial ?_ (by rintro name content ⟨⟩ ⟨⟩)
      rintro name content ⟨⟩ - i
      rw [Body.tagValue_tagToString]
      exact Or.inr ⟨_, _, _, _, List.mem_cons_self⟩
    | startRead =>
      refine h.takeTurn hown (by rintro name content ⟨⟩ ⟨⟩) ?_
      rintro name content ⟨⟩ -
      exact ⟨_, hown⟩
    | decoded =>
      exact h.takeTurn trivial (by rintro name content ⟨⟩ ⟨⟩) (by rintro name content ⟨⟩ ⟨⟩)
    | failed => exact h.takeTurn trivial (by rintro name content ⟨⟩) (by rintro name content ⟨⟩)

/-! ### Steps of servers -/

/-- A step of a server. -/
theorem TagsMade.serverMove (h : TagsMade config s) {a : Action n}
    (hmove : ServerMove config s a t) : TagsMade config t := by
  cases hmove with
  | serve i name frames server output hsent halive hwell hhandles =>
    refine
      { put := fun {j other body} hmem ↦ ?_
        value := fun {j other body} hmem ↦ ?_
        clients := h.clients
        stored := fun object j ↦ ?_
        element := fun {j other body} hmem ↦ ?_ }
    · rw [requests_sent_handle] at hmem
      exact h.put hmem
    · rw [requests_sent_handle] at hmem
      exact h.value hmem
    · rw [State.storedTag, servers_handle]
      split_ifs with hj
      · subst hj
        rcases hhandles.version_eq object with hsame | ⟨hphase, -, hnew⟩
        · rw [hsame]
          exact h.stored object j
        · rw [hnew]
          exact h.put hsent hphase
      · exact h.stored object j
    · rcases mem_elements_handle.mp hmem with ⟨rfl, hnew⟩ | hold
      · cases hhandles.sendsElement hnew with
        | relay key reader hphase =>
          rw [Body.tagValue_tagToString]
          exact h.put hsent hphase
        | first =>
          rw [Body.tagValue_tagToString]
          exact h.stored frames.object j
      · exact h.element hold
  | serveNotice i j notice server hsent halive hwell hversion hhandles =>
    refine { h with stored := fun object k ↦ ?_ }
    rw [storedTag_handleNotice hversion]
    exact h.stored object k
  | stop => exact { h with }

/-- In every run the requests and the tags come from operations. -/
theorem TagsMade.of_run {guard : State n → Action n → Prop}
    (run : Run (step config) guard State.initial s) : TagsMade config s :=
  run.invariant_reach tagsMade_initial fun _ _ _ hrun h _ hstep ↦
    (step_cases hstep).elim h.clientStep fun hserver ↦
      h.serverMove (hserver.move (Shape.of_run hrun))

/-! ### Keys of notices -/

/-- The keys of all notices that can be about the reads of the history, with the tags of its writes
and from the servers, fit into the buffer of `HistoryData_keystring`. -/
def RoomForKeys (config : Config n) (history : List Event) : Prop :=
  ∀ client opnum object, .readInvoked client opnum object ∈ history → ∀ i tag, Made history tag →
    (HistoryData.key ⟨client, config.serverId i, [], tagToString tag, opnum⟩).length < bufsize

theorem RoomForKeys.mono {history history' : List Event} (h : RoomForKeys config history')
    (hsub : history ⊆ history') : RoomForKeys config history :=
  fun client opnum object hmem i tag hmade ↦
    h client opnum object (hsub hmem) i tag (hmade.mono hsub)

/-- The key of every notice that was sent has room. -/
theorem RoomForKeys.key_length (hroom : RoomForKeys config s.history)
    {guard : State n → Action n → Prop}
    (run : Run (step config) guard State.initial s) {i j : Fin n} {notice : Disperse}
    (hsent : (i, j, notice) ∈ s.disperses.sent) : notice.history.key.length < bufsize := by
  have hshape := Shape.of_run run
  have hsourced := Sourced.of_run run
  have hmade := TagsMade.of_run run
  obtain ⟨hclientid, frames, helement, htag⟩ := hsourced.dispersed hsent
  obtain ⟨-, ⟨request, hdelivered, -⟩, -⟩ := hsourced.element helement
  obtain ⟨object, hinvoked⟩ := hmade.value (hshape.served _ hdelivered) rfl
  have hkey := hroom _ _ _ hinvoked i _ (hmade.element helement)
  rwa [← (hshape.element helement).1, htag, ← hclientid] at hkey

/-- The write of `sampleHistory` has a short tag. -/
theorem shortTags_sampleHistory (payload : Frame) : ShortTags (sampleHistory payload) := by
  intro client opnum object tag payload' hmem
  obtain rfl : tag = ⟨1, ascii ['w']⟩ := by
    simp only [sampleHistory, List.mem_cons, reduceCtorEq, Event.writeTagged.injEq,
      List.not_mem_nil, or_false, false_or] at hmem
    exact hmem.2.2.2.1
  decide

/-- The notices about the read of `sampleHistory` have short keys. -/
theorem roomForKeys_sampleHistory (payload : Frame) :
    RoomForKeys (sampleConfig 3) (sampleHistory payload) := by
  intro client opnum object hmem i tag hmade
  obtain ⟨rfl, rfl, rfl⟩ : client = ascii ['r'] ∧ opnum = 1 ∧ object = ascii ['o'] := by
    simpa [sampleHistory] using hmem
  obtain rfl | rfl : tag = initTag ∨ tag = ⟨1, ascii ['w']⟩ := by
    rcases hmade with hinit | ⟨client, opnum, object, payload', hwritten⟩
    · exact Or.inl hinit
    · simp only [sampleHistory, List.mem_cons, reduceCtorEq, Event.writeTagged.injEq,
        List.not_mem_nil, or_false, false_or] at hwritten
      exact Or.inr hwritten.2.2.2.1
  · revert i
    decide
  · revert i
    decide

end Colas.Sodaw
