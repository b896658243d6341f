import Colas.Sodaw.Elements
import Colas.Sodaw.Numbers

/-!
# What a majority has answered to SODAW clients

Under `Guard` the responses that a client counts come from different servers. `Counting` says what
follows for the first phase and for `WRITE_PUT`: the variables of a waiting client are functions of
the responses that it has received, and the choice of a tag and the completion of a write are
`Supported` by the responses of a majority. What a reader knows about the elements that it collects
is the subject of `Readers`.
-/

set_option autoImplicit false
set_option relaxedAutoImplicit false

namespace Colas.Sodaw

open TransitionSystem Quorum

variable {n : ℕ}

/-- A majority of servers has acknowledged the tag of a write. -/
def Acknowledged (sent : List (Fin n × CallId Phase × Body)) (clientId : CString) (opNum : ℕ)
    (object : CString) (tag : Tag) : Prop :=
  ReportedByMajority sent ⟨clientId, opNum, .writePut⟩ fun _ frames ↦
    frames.object = object ∧ frames.tagValue = tag

/-- What the events of a write rest on: the responses of a majority, and for a completion the choice
of the tag. -/
def Supported (sent : List (Fin n × CallId Phase × Body)) (history : List Event) : Event → Prop
  | .writeTagged clientId opNum object tag _ =>
    ReportedByMajority sent ⟨clientId, opNum, .writeGet⟩ fun _ frames ↦
      frames.object = object ∧ frames.tagValue.number < tag.number
  | .writeCompleted clientId opNum object tag =>
    Acknowledged sent clientId opNum object tag ∧
      ∃ payload, .writeTagged clientId opNum object tag payload ∈ history
  | _ => True

/-- The variables of a client in terms of the responses it has received. -/
def Bookkeeping (calls : Calls (Fin n) (CallId Phase) Body Body) (clientId : CString) :
    Client → Prop
  | .get opNum object operation responses tagList =>
    Awaiting calls ⟨clientId, opNum, operation.getPhase⟩ object responses ∧
      tagList =
        (calls.readings ⟨clientId, opNum, operation.getPhase⟩).map fun r ↦ r.2.tagValue
  | .writePut opNum object _ responses =>
    Awaiting calls ⟨clientId, opNum, .writePut⟩ object responses
  | _ => True

/-- What holds in every run under `Guard`. -/
structure Counting (s : State n) : Prop where
  /-- Requests and responses are matched one to one. -/
  calls : s.calls.WellFormed
  /-- The clients count responses. -/
  clients : ∀ clientId, Bookkeeping s.calls clientId (s.clients clientId)
  /-- The events rest on the responses of majorities. -/
  events : ∀ e ∈ s.history, Supported s.calls.answers.sent s.history e

/-- Events stay supported when more responses are sent and more events happen. -/
theorem Supported.mono {sent sent' : List (Fin n × CallId Phase × Body)}
    {history history' : List Event} {e : Event} (h : Supported sent history e)
    (hsent : ∀ m ∈ sent, m ∈ sent') (hsub : history ⊆ history') : Supported sent' history' e := by
  cases e with
  | writeTagged => exact ReportedByMajority.mono h hsent fun _ _ _ hP ↦ hP
  | writeCompleted =>
    obtain ⟨hacknowledged, payload, hmem⟩ := h
    exact ⟨ReportedByMajority.mono hacknowledged hsent fun _ _ _ hP ↦ hP, payload, hsub hmem⟩
  | _ => trivial

/-- The variables of a client depend on the responses that it awaits and on its own requests. -/
theorem Bookkeeping.frame {calls calls' : Calls (Fin n) (CallId Phase) Body Body}
    {clientId : CString} {client : Client} (h : Bookkeeping calls clientId client)
    (hreadings : ∀ opNum phase, client.awaits = some (opNum, phase) →
      calls'.readings ⟨clientId, opNum, phase⟩ = calls.readings ⟨clientId, opNum, phase⟩)
    (hrequests : ∀ {i opNum phase frames},
      (i, ⟨clientId, opNum, phase⟩, frames) ∈ calls'.requests.sent →
        (i, ⟨clientId, opNum, phase⟩, frames) ∈ calls.requests.sent) :
    Bookkeeping calls' clientId client := by
  cases client with
  | get opNum object operation responses tagList =>
    obtain ⟨hawaiting, htags⟩ := h
    have hsame := hreadings opNum operation.getPhase rfl
    exact ⟨hawaiting.frame hsame hrequests, by rw [hsame, htags]⟩
  | writePut opNum object tag responses =>
    exact Awaiting.frame h (hreadings opNum .writePut rfl) hrequests
  | _ => trivial

section Steps

variable {config : Config n} {s t : State n}

theorem counting_initial : Counting (State.initial : State n) where
  calls := Calls.wellFormed_empty
  clients := fun _ ↦ trivial
  events := fun _ hmem ↦ absurd hmem List.not_mem_nil

/-- A step of a server keeps the counts. -/
theorem Counting.serverStep (h : Counting s) {a : Action n} (hguard : Guard s a)
    (hstep : ServerStep config s a t) : Counting t := by
  obtain ⟨hclients, hhistory, hrequests, hreceived, -⟩ := hstep.clients_eq
  have hcalls : t.calls.WellFormed ∧ ∀ m ∈ s.calls.answers.sent, m ∈ t.calls.answers.sent := by
    cases hstep with
    | serve i name frames server output hsent =>
      rcases hcase : output.response with - | response
      · simpa [State.handle, hcase] using h.calls.serve hsent
      · refine ⟨?_, fun m hm ↦ ?_⟩
        · simpa [State.handle, hcase] using h.calls.serve_answer hsent hguard
        · simp [State.handle, hcase, hm]
    | serveNotice => exact ⟨h.calls, fun _ hm ↦ hm⟩
    | stop => exact ⟨h.calls, fun _ hm ↦ hm⟩
  refine
    { calls := hcalls.1
      clients := fun clientId ↦ ?_
      events := fun e he ↦ ?_ }
  · rw [hclients]
    refine (h.clients clientId).frame (fun opNum phase _ ↦ ?_) fun hmem ↦ hrequests ▸ hmem
    rw [Calls.readings, Network.readings, hreceived]
    rfl
  · rw [hhistory] at he ⊢
    exact (h.events e he).mono hcalls.2 fun _ he ↦ he

/-- A turn keeps the counts if its multicast is new and its event and its client rest on the
responses received. -/
theorem Counting.takeTurn (hcalls : s.calls.WellFormed) {clientId : CString}
    {turn : Turn n Client Phase}
    (hothers : ∀ other, other ≠ clientId → Bookkeeping s.calls other (s.clients other))
    (hevents : ∀ e ∈ s.history, Supported s.calls.answers.sent s.history e)
    (hopens : ∀ name content, turn.multicast = some (name, content) →
      Opens s.calls (turn.event.toList ++ s.history) clientId name content)
    (hclient : Bookkeeping (turn.sendOn s.calls) clientId turn.client)
    (hevent : ∀ e, turn.event = some e → Supported s.calls.answers.sent s.history e) :
    Counting (s.takeTurn clientId turn) where
  calls := turn.wellFormed_sendOn s.calls hcalls fun name content hcall ↦
    (hopens name content hcall).fresh
  clients := by
    refine (Function.forall_update_iff s.clients (Bookkeeping (turn.sendOn s.calls))).mpr
      ⟨hclient, fun other hother ↦ ?_⟩
    refine (hothers other hother).frame (fun _ _ _ ↦ turn.readings_sendOn s.calls _) ?_
    intro i opNum phase frames hmem
    rcases (turn.mem_requests_sendOn s.calls).mp hmem with ⟨content, hcall, -⟩ | hold
    · exact absurd (hopens _ content hcall).client hother
    · exact hold
  events := fun e he ↦ by
    have hanswers : (s.takeTurn clientId turn).calls.answers.sent = s.calls.answers.sent :=
      (serversKept_takeTurn s clientId turn).answers
    rw [hanswers]
    have hsupported := forall_mem_history hevent hevents e he
    exact hsupported.mono (fun _ hm ↦ hm) (List.subset_append_right _ _)

/-- Starting an operation under a new number keeps the counts. -/
theorem Counting.invoke (hnumbered : Numbered s) (h : Counting s) {clientId : CString} {opNum : ℕ}
    {object : CString} (operation : Operation) {event : Event}
    (hfresh : ¬ Invoked s.history clientId opNum)
    (hstarted : operation.Started (event :: s.history) clientId opNum object)
    (hsupported : Supported s.calls.answers.sent s.history event) :
    Counting (s.takeTurn clientId
      ⟨.get opNum object operation 0 [],
        some (⟨clientId, opNum, operation.getPhase⟩, fun _ ↦ ⟨object, [], []⟩), some event⟩) := by
  have hopens := hnumbered.opens_get operation hfresh hstarted
  refine Counting.takeTurn h.calls (fun other _ ↦ h.clients other) h.events ?_
    ⟨Awaiting.issue h.calls hopens.fresh fun _ ↦ rfl, ?_⟩ ?_
  · rintro name content ⟨⟩
    exact hopens
  · exact (by rw [h.calls.readings_eq_nil hopens.fresh]; rfl :
      [] = (s.calls.readings ⟨clientId, opNum, operation.getPhase⟩).map fun r ↦ r.2.tagValue)
  · rintro e ⟨⟩
    exact hsupported

/-- What a turn on a response does to the counts. -/
theorem Receives.counting (hnumbered : Numbered s) {i : Fin n} {clientId : CString} {opNum : ℕ}
    {phase : Phase} {frames : Body} {turn : Turn n Client Phase}
    (hturn : Receives clientId opNum frames phase (s.clients clientId) turn)
    (hcalls : (s.calls.collect (i, ⟨clientId, opNum, phase⟩, frames)).WellFormed)
    (hanswered : ∀ {i name frames}, (i, name, frames) ∈ s.calls.answers.sent →
      ∃ request, (i, name, request) ∈ s.calls.requests.sent ∧ frames.object = request.object ∧
        (name.phase = .writePut → frames.tag = request.tag))
    (hphase : phase ≠ .readValue) (hown : Bookkeeping s.calls clientId (s.clients clientId)) :
    Bookkeeping (s.calls.collect (i, ⟨clientId, opNum, phase⟩, frames)) clientId turn.client ∧
      ∀ e, turn.event = some e → Supported s.calls.answers.sent s.history e := by
  have hasked := hnumbered.clients clientId
  have hself : (s.calls.collect (i, ⟨clientId, opNum, phase⟩, frames)).readings
      ⟨clientId, opNum, phase⟩ = s.calls.readings ⟨clientId, opNum, phase⟩ ++ [(i, frames)] :=
    Calls.readings_collect_self i _ frames
  generalize s.clients clientId = client at hturn hown hasked
  cases hturn with
  | stale hstale =>
    refine ⟨hown.frame (fun opNum' phase' hawaits ↦ ?_) id, by rintro e ⟨⟩⟩
    refine Calls.readings_collect_of_ne fun hname ↦ hstale ?_
    obtain ⟨-, rfl, rfl⟩ := CallId.mk.inj hname
    exact hawaits
  | @countTag object operation responses tagList =>
    obtain ⟨hawaiting, rfl⟩ := hown
    refine ⟨⟨hawaiting.collect i frames, ?_⟩, by rintro e ⟨⟩⟩
    exact (by rw [hself, List.map_append, List.map_singleton] : _ = ((s.calls.collect
      (i, ⟨clientId, opNum, operation.getPhase⟩, frames)).readings _).map fun r ↦ r.2.tagValue)
  | countAck => exact ⟨Awaiting.collect hown i frames, by rintro e ⟨⟩⟩
  | @complete object tag responses hmany =>
    refine ⟨trivial, ?_⟩
    rintro e ⟨⟩
    refine ⟨(Awaiting.collect hown i frames).reported hcalls hmany fun r hr ↦ ?_, hasked.1⟩
    obtain ⟨request, hrequest, hobject, hsame⟩ :=
      hanswered (hcalls.collected _ (Calls.mem_readings.mp hr))
    obtain ⟨hrequested, htag⟩ := hasked.2.of_mem hnumbered hrequest
    exact ⟨hobject.trans hrequested, by rw [Body.tagValue, hsame rfl]; exact htag⟩
  | collect => exact absurd rfl hphase
  | decide => exact absurd rfl hphase

/-- A turn on an element does not touch the counts. -/
theorem Receives.counting_element {calls : Calls (Fin n) (CallId Phase) Body Body}
    {history : List Event} {clientId : CString} {opNum : ℕ} {frames : Body} {client : Client}
    {turn : Turn n Client Phase} (hturn : Receives clientId opNum frames .readValue client turn)
    (hown : Bookkeeping calls clientId client) :
    Bookkeeping calls clientId turn.client ∧
      ∀ e, turn.event = some e → Supported calls.answers.sent history e := by
  generalize hphase : Phase.readValue = phase at hturn
  cases hturn with
  | stale => exact ⟨hown, by rintro e ⟨⟩⟩
  | @countTag object operation => cases operation <;> cases hphase
  | countAck => cases hphase
  | complete => cases hphase
  | collect => exact ⟨hown, by rintro e ⟨⟩⟩
  | decide =>
    refine ⟨trivial, ?_⟩
    rintro e ⟨⟩
    trivial

/-- What a turn at the end of a loop does to the counts. -/
theorem TimesOut.counting {calls : Calls (Fin n) (CallId Phase) Body Body} {history : List Event}
    {clientId : CString} {client : Client} {turn : Turn n Client Phase}
    (hturn : TimesOut config clientId client turn) (hcalls : calls.WellFormed)
    (hanswered : ∀ {i name frames}, (i, name, frames) ∈ calls.answers.sent →
      ∃ request, (i, name, request) ∈ calls.requests.sent ∧ frames.object = request.object)
    (hasked : Numbering calls history clientId client) (hown : Bookkeeping calls clientId client) :
    Bookkeeping (turn.sendOn calls) clientId turn.client ∧
      ∀ e, turn.event = some e → Supported calls.answers.sent history e := by
  have hopens : ∀ name content, turn.multicast = some (name, content) →
      Opens calls (turn.event.toList ++ history) clientId name content :=
    fun _ _ hcall ↦ hturn.opens hasked hcall
  cases hturn with
  | startWrite hmany hnext hencode =>
    obtain ⟨hawaiting, rfl⟩ := hown
    refine ⟨Awaiting.issue hcalls (hopens _ _ rfl).fresh fun _ ↦ rfl, ?_⟩
    rintro e ⟨⟩
    refine hawaiting.reported hcalls hmany fun r hr ↦ ?_
    obtain ⟨request, hrequest, hobject⟩ :=
      hanswered (hcalls.collected _ (Calls.mem_readings.mp hr))
    refine ⟨hobject.trans (hawaiting.about hrequest), ?_⟩
    have hle := number_le_getMaxTag config.strcmp
      (List.mem_map_of_mem (f := fun r : Fin n × Body ↦ r.2.tagValue) hr)
    rw [(Tag.next_eq_some_iff.mp hnext).1]
    exact Int.lt_add_one_of_le hle
  | startRead => exact ⟨trivial, by rintro e ⟨⟩⟩
  | decoded =>
    refine ⟨trivial, ?_⟩
    rintro e ⟨⟩
    trivial
  | failed => exact ⟨trivial, by rintro e ⟨⟩⟩

/-- A step of a client keeps the counts. -/
theorem Counting.clientStep (hshape : Shape config s) (hsourced : Sourced config s)
    (hnumbered : Numbered s) (h : Counting s) {a : Action n} (hguard : Guard s a)
    (hstep : ClientStep config s a t) : Counting t := by
  have hanswered : ∀ {i name frames}, (i, name, frames) ∈ s.calls.answers.sent →
      ∃ request, (i, name, request) ∈ s.calls.requests.sent ∧ frames.object = request.object ∧
        (name.phase = .writePut → frames.tag = request.tag) := fun hmem ↦ by
    obtain ⟨-, -, -, request, hrequest, hrest⟩ := hshape.answered hmem
    exact ⟨request, hshape.served _ hrequest, hrest⟩
  cases hstep with
  | write clientId opNum object payload hidle =>
    exact h.invoke hnumbered (.write payload) hguard List.mem_cons_self trivial
  | read clientId opNum object hidle =>
    exact h.invoke hnumbered .read hguard List.mem_cons_self trivial
  | receive i name frames turn hsent hturn =>
    have hcalls := h.calls.collect hsent hguard
    obtain ⟨hown, hevent⟩ := hturn.counting hnumbered hcalls hanswered
      (hshape.answered hsent).1 (h.clients name.client)
    refine Counting.takeTurn (s := { s with calls := s.calls.collect (i, name, frames) }) hcalls
      (fun other hother ↦ ?_) h.events (by simp [hturn.multicast_eq]) ?_ hevent
    · refine (h.clients other).frame (fun _ _ _ ↦ Calls.readings_collect_of_ne fun hname ↦
        hother ?_) id
      exact (congrArg CallId.client hname).symm
    · simpa [Turn.sendOn, hturn.multicast_eq] using hown
  | receiveElement i name frames turn hsent hturn =>
    rw [(hsourced.element hsent).1] at hturn
    obtain ⟨hown, hevent⟩ := hturn.counting_element (h.clients name.client)
    refine Counting.takeTurn (s := { s with elements := s.elements.deliver (i, name, frames) })
      h.calls (fun other _ ↦ h.clients other) h.events (by simp [hturn.multicast_eq]) ?_ hevent
    simpa [Turn.sendOn, hturn.multicast_eq] using hown
  | timeout clientId turn hturn =>
    have hasked := hnumbered.clients clientId
    obtain ⟨hown, hevent⟩ := hturn.counting h.calls
      (fun hmem ↦ by
        obtain ⟨request, hrequest, hobject, -⟩ := hanswered hmem
        exact ⟨request, hrequest, hobject⟩) hasked (h.clients clientId)
    exact Counting.takeTurn h.calls (fun other _ ↦ h.clients other) h.events
      (fun _ _ hcall ↦ hturn.opens hasked hcall) hown hevent

/-- Every state of every run under `Guard` is counted. -/
theorem Counting.of_run {guard : State n → Action n → Prop} (hguard : ∀ s a, guard s a → Guard s a)
    (run : Run (step config) guard State.initial s) : Counting s :=
  run.invariant_reach counting_initial fun _ _ _ hrun h hsa hstep ↦
    (step_cases hstep).elim
      (h.clientStep (Shape.of_run hrun) (Sourced.of_run hrun)
        (Numbered.of_run (fun _ _ hsa ↦ (hguard _ _ hsa).freshNumbers) hrun) (hguard _ _ hsa))
      (h.serverStep (hguard _ _ hsa))

end Steps

end Colas.Sodaw
