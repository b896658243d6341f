import Colas.Abd.System

/-!
# What a majority has answered

Under `Guard` the responses that a client counts come from different servers. `Counting` is the
invariant that says what follows: the variables of a waiting client are functions of the responses
it has received, and every event of the history that reports a choice or a completion is
`Supported` by the responses of a majority. A write has a version number above the tags of a
majority; a read has a tag that bounds the tags of a majority; a completed operation has its tag
acknowledged by a majority. Supported events stay supported, so the theorems about runs take what
they need from the last state.
-/

set_option autoImplicit false
set_option relaxedAutoImplicit false

namespace Colas.Abd

open TransitionSystem Quorum

variable {n : ℕ}

/-- The event by which an operation has chosen the tag that it writes. -/
def Tagged (history : List Event) (clientId : CString) (opNum : ℕ) (object : CString) (tag : Tag) :
    Operation → Prop
  | .write => ∃ payload, .writeTagged clientId opNum object tag payload ∈ history
  | .read data => .readTagged clientId opNum object tag (some data) ∈ history

/-- A majority of servers has acknowledged the tag of an operation. -/
def Acknowledged (sent : List (Fin n × CallId Phase × Body)) (clientId : CString) (opNum : ℕ)
    (object : CString) (tag : Tag) : Prop :=
  ReportedByMajority sent ⟨clientId, opNum, .writeValue⟩ fun _ frames ↦
    frames.object = object ∧ frames.tagValue = tag

/-- What an event of the history rests on: the responses of a majority, and for a completion the
choice of the tag. -/
def Supported (sent : List (Fin n × CallId Phase × Body)) (history : List Event) : Event → Prop
  | .writeTagged clientId opNum object tag _ =>
    ReportedByMajority sent ⟨clientId, opNum, .getTag⟩ fun _ frames ↦
      frames.object = object ∧ frames.tagValue.number < tag.number
  | .readTagged clientId opNum object tag _ =>
    ReportedByMajority sent ⟨clientId, opNum, .getTagValue⟩ fun _ frames ↦
      frames.object = object ∧ frames.tagValue ≤ tag
  | .writeCompleted clientId opNum object tag =>
    Acknowledged sent clientId opNum object tag ∧
      Tagged history clientId opNum object tag .write
  | .readCompleted clientId opNum object tag value =>
    Acknowledged sent clientId opNum object tag ∧
      Tagged history clientId opNum object tag (.read value)
  | .writeInvoked _ _ _ _ => True
  | .readInvoked _ _ _ => True

/-- The variables of a client in terms of the responses it has received. -/
def Bookkeeping (calls : Calls (Fin n) (CallId Phase) Body Body) (history : List Event)
    (clientId : CString) : Client → Prop
  | .idle => True
  | .getMaxTag opNum object rawData responses tagList =>
    Awaiting calls ⟨clientId, opNum, .getTag⟩ object responses ∧
      tagList = (calls.readings ⟨clientId, opNum, .getTag⟩).map (fun r ↦ r.2.tagValue) ∧
      .writeInvoked clientId opNum object rawData ∈ history ∧
      ¬ calls.Issued ⟨clientId, opNum, .writeValue⟩
  | .getMaxTagValue opNum object responses tag _ =>
    Awaiting calls ⟨clientId, opNum, .getTagValue⟩ object responses ∧
      (∀ r ∈ calls.readings ⟨clientId, opNum, .getTagValue⟩, r.2.tagValue ≤ tag) ∧
      .readInvoked clientId opNum object ∈ history ∧
      ¬ calls.Issued ⟨clientId, opNum, .writeValue⟩
  | .writeValue opNum object tag operation responses =>
    Awaiting calls ⟨clientId, opNum, .writeValue⟩ object responses ∧
      (∀ i frames, (i, ⟨clientId, opNum, .writeValue⟩, frames) ∈ calls.requests.sent →
        frames.tagValue = tag) ∧
      Tagged history clientId opNum object tag operation ∧ Invoked history clientId opNum
  | .exited => True

/-- What holds in every run under `Guard`. -/
structure Counting (s : State n) : Prop where
  /-- Requests and responses are matched one to one. -/
  calls : s.calls.WellFormed
  /-- A name is used by the operation that it names. -/
  issued : ∀ {name}, s.calls.Issued name → Invoked s.history name.client name.opnum
  /-- The clients count responses. -/
  clients : ∀ clientId, Bookkeeping s.calls s.history clientId (s.clients clientId)
  /-- The events rest on the responses of majorities. -/
  events : ∀ e ∈ s.history, Supported s.calls.answers.sent s.history e

theorem Tagged.mono {history history' : List Event} {clientId : CString} {opNum : ℕ}
    {object : CString} {tag : Tag} {operation : Operation}
    (h : Tagged history clientId opNum object tag operation) (hsub : history ⊆ history') :
    Tagged history' clientId opNum object tag operation := by
  cases operation with
  | write =>
    obtain ⟨payload, hmem⟩ := h
    exact ⟨payload, hsub hmem⟩
  | read data => exact hsub h

/-- Events stay supported when more responses are sent and more events happen. -/
theorem Supported.mono {sent sent' : List (Fin n × CallId Phase × Body)}
    {history history' : List Event} {e : Event} (h : Supported sent history e)
    (hsent : ∀ m ∈ sent, m ∈ sent') (hsub : history ⊆ history') : Supported sent' history' e := by
  cases e with
  | writeTagged => exact ReportedByMajority.mono h hsent fun _ _ _ hP ↦ hP
  | readTagged => exact ReportedByMajority.mono h hsent fun _ _ _ hP ↦ hP
  | writeCompleted =>
    exact ⟨ReportedByMajority.mono h.1 hsent fun _ _ _ hP ↦ hP, h.2.mono hsub⟩
  | readCompleted =>
    exact ⟨ReportedByMajority.mono h.1 hsent fun _ _ _ hP ↦ hP, h.2.mono hsub⟩
  | writeInvoked => trivial
  | readInvoked => trivial

/-- The variables of a client depend on the responses that it awaits and on its own requests. -/
theorem Bookkeeping.frame {calls calls' : Calls (Fin n) (CallId Phase) Body Body}
    {history history' : List Event} {clientId : CString} {client : Client}
    (h : Bookkeeping calls history clientId client)
    (hreadings : ∀ opNum phase, client.awaits = some (opNum, phase) →
      calls'.readings ⟨clientId, opNum, phase⟩ = calls.readings ⟨clientId, opNum, phase⟩)
    (hrequests : ∀ {i opNum phase frames},
      (i, ⟨clientId, opNum, phase⟩, frames) ∈ calls'.requests.sent →
        (i, ⟨clientId, opNum, phase⟩, frames) ∈ calls.requests.sent)
    (hhistory : history ⊆ history') : Bookkeeping calls' history' clientId client := by
  have hissued : ∀ {opNum phase}, ¬ calls.Issued ⟨clientId, opNum, phase⟩ →
      ¬ calls'.Issued ⟨clientId, opNum, phase⟩ :=
    fun hnot ⟨i, frames, hmem⟩ ↦ hnot ⟨i, frames, hrequests hmem⟩
  cases client with
  | idle => trivial
  | exited => trivial
  | getMaxTag opNum object rawData responses tagList =>
    obtain ⟨hawaiting, htags, hinvoked, hnot⟩ := h
    have hsame := hreadings opNum .getTag rfl
    exact ⟨hawaiting.frame hsame hrequests, by rw [hsame, htags], hhistory hinvoked,
      hissued hnot⟩
  | getMaxTagValue opNum object responses tag data =>
    obtain ⟨hawaiting, hbound, hinvoked, hnot⟩ := h
    have hsame := hreadings opNum .getTagValue rfl
    exact ⟨hawaiting.frame hsame hrequests, by rwa [hsame], hhistory hinvoked, hissued hnot⟩
  | writeValue opNum object tag operation responses =>
    obtain ⟨hawaiting, htag, htagged, hinvoked⟩ := h
    exact ⟨hawaiting.frame (hreadings opNum .writeValue rfl) hrequests,
      fun i frames hmem ↦ htag i frames (hrequests hmem), htagged.mono hhistory,
      hinvoked.mono hhistory⟩

section Steps

variable {s : State n}

theorem counting_initial : Counting (State.initial : State n) where
  calls := Calls.wellFormed_empty
  issued := fun ⟨_, _, hmem⟩ ↦ absurd hmem List.not_mem_nil
  clients := fun _ ↦ trivial
  events := fun _ hmem ↦ absurd hmem List.not_mem_nil

/-- Handling a request for the first time keeps the counts. -/
theorem Counting.handle (h : Counting s) {request : Fin n × CallId Phase × Body}
    (hsent : request ∈ s.calls.requests.sent)
    (honce : request ∉ s.calls.requests.delivered) (server : Server) (reply : Body) :
    Counting (s.handle request server reply) where
  calls := h.calls.serve_answer hsent honce
  issued := h.issued
  clients := fun clientId ↦ (h.clients clientId).frame (fun _ _ _ ↦ rfl) id fun _ he ↦ he
  events := fun e he ↦ (h.events e he).mono (fun _ hm ↦ List.mem_cons_of_mem _ hm) fun _ he ↦ he

/-- A turn keeps the counts if its multicast is new and belongs to an operation of the client, and
its event and its client rest on the responses received. -/
theorem Counting.takeTurn (hcalls : s.calls.WellFormed)
    (hissued : ∀ {name}, s.calls.Issued name → Invoked s.history name.client name.opnum)
    {clientId : CString} {turn : Turn n Client Phase}
    (hothers : ∀ other, other ≠ clientId →
      Bookkeeping s.calls s.history other (s.clients other))
    (hevents : ∀ e ∈ s.history, Supported s.calls.answers.sent s.history e)
    (hmulticast : ∀ name content, turn.multicast = some (name, content) →
      name.client = clientId ∧ ¬ s.calls.Issued name ∧
        Invoked (turn.event.toList ++ s.history) clientId name.opnum)
    (hclient : Bookkeeping (turn.sendOn s.calls) (turn.event.toList ++ s.history) clientId
      turn.client)
    (hevent : ∀ e, turn.event = some e → Supported s.calls.answers.sent s.history e) :
    Counting (s.takeTurn clientId turn) where
  calls := turn.wellFormed_sendOn s.calls hcalls fun name content hcall ↦
    (hmulticast name content hcall).2.1
  issued := fun {name} hname ↦ by
    rcases turn.issued_sendOn s.calls hname with ⟨content, hcall⟩ | hold
    · obtain ⟨hclientId, -, hinvoked⟩ := hmulticast name content hcall
      rwa [history_takeTurn, hclientId]
    · exact (hissued hold).mono (List.subset_append_right _ _)
  clients := by
    refine (Function.forall_update_iff s.clients
      (Bookkeeping (turn.sendOn s.calls) (turn.event.toList ++ s.history))).mpr
      ⟨hclient, fun other hother ↦ ?_⟩
    refine (hothers other hother).frame (fun _ _ _ ↦ by simp) ?_
      fun _ he ↦ List.mem_append_right _ he
    intro i opNum phase frames hmem
    rcases (turn.mem_requests_sendOn s.calls).mp hmem with ⟨content, hcall, -⟩ | hold
    · exact absurd (hmulticast _ content hcall).1 hother
    · exact hold
  events := fun e he ↦ by
    rw [calls_takeTurn, Turn.answers_sendOn]
    have hsupported := forall_mem_history hevent hevents e he
    exact hsupported.mono (fun _ hm ↦ hm) (List.subset_append_right _ _)

/-- Under a number that the client has not used, no phase was issued, and issuing the first one
does not issue the last one. -/
theorem Counting.not_issued (h : Counting s) {clientId : CString} {opNum : ℕ}
    (hfresh : ¬ Invoked s.history clientId opNum) :
    (∀ phase, ¬ s.calls.Issued ⟨clientId, opNum, phase⟩) ∧
      ∀ (phase : Phase) (content : Fin n → Body), phase ≠ .writeValue →
        ¬ (s.calls.issue ⟨clientId, opNum, phase⟩ content).Issued
          ⟨clientId, opNum, .writeValue⟩ := by
  have hnew : ∀ phase, ¬ s.calls.Issued ⟨clientId, opNum, phase⟩ :=
    fun phase hissued ↦ hfresh (h.issued hissued)
  refine ⟨hnew, ?_⟩
  rintro phase content hphase ⟨i, frames, hmem⟩
  rw [Calls.requests_issue, Network.sent_send, List.mem_append, Calls.mem_issueRequests] at hmem
  rcases hmem with ⟨hname, -⟩ | hold
  · exact hphase (CallId.mk.inj hname).2.2.symm
  · exact hnew _ ⟨i, frames, hold⟩

/-- Starting a write under a new number keeps the counts. -/
theorem Counting.invokeWrite (h : Counting s) {clientId : CString} {opNum : ℕ}
    (hfresh : ¬ Invoked s.history clientId opNum) (object : CString) (payload : Frame) :
    Counting (s.takeTurn clientId (abdWrite clientId opNum object payload)) := by
  obtain ⟨hnew, hnot⟩ := h.not_issued hfresh
  refine Counting.takeTurn h.calls h.issued (fun other _ ↦ h.clients other) h.events ?_ ?_ ?_
  · rintro name content ⟨⟩
    exact ⟨rfl, hnew _, Or.inl ⟨object, payload, List.mem_cons_self⟩⟩
  · refine ⟨Awaiting.issue h.calls (hnew _) fun _ ↦ rfl, ?_, List.mem_cons_self,
      hnot _ _ (by decide)⟩
    exact (by rw [h.calls.readings_eq_nil (hnew _)]; rfl :
      [] = (s.calls.readings ⟨clientId, opNum, .getTag⟩).map fun r ↦ r.2.tagValue)
  · rintro e ⟨⟩
    trivial

/-- Starting a read under a new number keeps the counts. -/
theorem Counting.invokeRead (h : Counting s) {clientId : CString} {opNum : ℕ}
    (hfresh : ¬ Invoked s.history clientId opNum) (object : CString) :
    Counting (s.takeTurn clientId (abdRead clientId opNum object)) := by
  obtain ⟨hnew, hnot⟩ := h.not_issued hfresh
  refine Counting.takeTurn h.calls h.issued (fun other _ ↦ h.clients other) h.events ?_ ?_ ?_
  · rintro name content ⟨⟩
    exact ⟨rfl, hnew _, Or.inr ⟨object, List.mem_cons_self⟩⟩
  · refine ⟨Awaiting.issue h.calls (hnew _) fun _ ↦ rfl, fun r hr ↦ ?_, List.mem_cons_self,
      hnot _ _ (by decide)⟩
    have hnone : r ∈ s.calls.readings ⟨clientId, opNum, .getTagValue⟩ := hr
    rw [h.calls.readings_eq_nil (hnew _)] at hnone
    exact absurd hnone List.not_mem_nil
  · rintro e ⟨⟩
    trivial

end Steps

section Responses

variable {calls : Calls (Fin n) (CallId Phase) Body Body} {history : List Event}
  {clientId : CString} {opNum responses : ℕ} {phase : Phase} {object : CString} {tag : Tag}

/-- A client starts `ABD_write_value_phase` with a tag. -/
theorem bookkeeping_writeValue {turn : Turn n Client Phase} {operation : Operation}
    {payload : Frame} (hcalls : calls.WellFormed)
    (hnot : ¬ calls.Issued ⟨clientId, opNum, .writeValue⟩)
    (hmulticast : turn.multicast = some (⟨clientId, opNum, .writeValue⟩,
      fun _ ↦ ⟨object, tagToString tag, payload⟩))
    (htagged : Tagged history clientId opNum object tag operation)
    (hinvoked : Invoked history clientId opNum) :
    Bookkeeping (turn.sendOn calls) history clientId
      (.writeValue opNum object tag operation 0) := by
  refine ⟨?_, fun j request hrequest ↦ ?_, htagged, hinvoked⟩
  · rw [Turn.sendOn, hmulticast]
    exact Awaiting.issue hcalls hnot fun _ ↦ rfl
  · rcases (turn.mem_requests_sendOn _).mp hrequest with ⟨content, hcall, rfl⟩ | hold
    · rw [hmulticast] at hcall
      obtain ⟨-, rfl⟩ := Prod.mk.inj (Option.some.inj hcall)
      exact Body.tagValue_tagToString _ _ _
    · exact absurd ⟨j, request, hold⟩ hnot

/-- The maximum of a reader bounds the tags that it has received. -/
theorem readings_le_updateMaxTagValue (strcmp : Strcmp) {i : Fin n} {frames : Body}
    {data : Option Frame}
    (hbound : ∀ r ∈ calls.readings ⟨clientId, opNum, .getTagValue⟩, r.2.tagValue ≤ tag) :
    ∀ r ∈ (calls.collect (i, ⟨clientId, opNum, .getTagValue⟩, frames)).readings
      ⟨clientId, opNum, .getTagValue⟩, r.2.tagValue ≤
        (updateMaxTagValue strcmp tag data frames.tagValue frames.payload).1 := by
  intro r hr
  obtain ⟨hold, hnew⟩ := le_updateMaxTagValue strcmp tag data frames.tagValue frames.payload
  rw [Calls.readings_collect_self, List.mem_append, List.mem_singleton] at hr
  rcases hr with hr | rfl
  · exact (hbound r hr).trans hold
  · exact hnew

variable (hcalls : calls.WellFormed)
  (hanswered : ∀ {i name frames}, (i, name, frames) ∈ calls.answers.sent →
    ∃ request, (i, name, request) ∈ calls.requests.sent ∧ frames.object = request.object ∧
      (name.phase = .writeValue → frames.tag = request.tag))

include hcalls hanswered

/-- The responses that a client has received repeat the object of its requests, and acknowledgements
their tag. -/
theorem about_readings
    (hawaiting : Awaiting calls ⟨clientId, opNum, phase⟩ object responses) :
    ∀ r ∈ calls.readings ⟨clientId, opNum, phase⟩, r.2.object = object ∧ (phase = .writeValue →
      ∃ request, (r.1, ⟨clientId, opNum, phase⟩, request) ∈ calls.requests.sent ∧
        r.2.tag = request.tag) := by
  intro r hr
  obtain ⟨request, hrequest, hobject, htag⟩ :=
    hanswered (hcalls.collected _ (Calls.mem_readings.mp hr))
  exact ⟨hobject.trans (hawaiting.about hrequest), fun hphase ↦ ⟨request, hrequest, htag hphase⟩⟩

/-- A writer with a majority of tags chooses a version number above them. -/
theorem supported_writeTagged (strcmp : Strcmp)
    (hawaiting : Awaiting calls ⟨clientId, opNum, .getTag⟩ object responses)
    (hmany : majority n ≤ responses) {tagList : List Tag}
    (htags : tagList = (calls.readings ⟨clientId, opNum, .getTag⟩).map fun r ↦ r.2.tagValue)
    {newTag : Tag} (hnext : (getMaxTag strcmp tagList).next clientId = some newTag)
    (payload : Frame) : Supported calls.answers.sent history
      (.writeTagged clientId opNum object newTag payload) := by
  refine hawaiting.reported hcalls hmany fun r hr ↦
    ⟨(about_readings hcalls hanswered hawaiting r hr).1, ?_⟩
  have hmem : r.2.tagValue ∈ tagList := htags ▸ List.mem_map_of_mem hr
  rw [(Tag.next_eq_some_iff.mp hnext).1]
  exact Int.lt_add_one_of_le (number_le_getMaxTag strcmp hmem)

/-- A reader with a majority of versions chooses a tag that bounds theirs. -/
theorem supported_readTagged
    (hawaiting : Awaiting calls ⟨clientId, opNum, .getTagValue⟩ object responses)
    (hmany : majority n ≤ responses)
    (hbound : ∀ r ∈ calls.readings ⟨clientId, opNum, .getTagValue⟩, r.2.tagValue ≤ tag)
    (value : Option Frame) :
    Supported calls.answers.sent history (.readTagged clientId opNum object tag value) :=
  hawaiting.reported hcalls hmany fun r hr ↦
    ⟨(about_readings hcalls hanswered hawaiting r hr).1, hbound r hr⟩

/-- A client with a majority of acknowledgements has its tag acknowledged. -/
theorem acknowledged_of_majority
    (hawaiting : Awaiting calls ⟨clientId, opNum, .writeValue⟩ object responses)
    (hmany : majority n ≤ responses)
    (htag : ∀ i frames, (i, ⟨clientId, opNum, .writeValue⟩, frames) ∈ calls.requests.sent →
      frames.tagValue = tag) : Acknowledged calls.answers.sent clientId opNum object tag := by
  refine hawaiting.reported hcalls hmany fun r hr ↦ ?_
  obtain ⟨hobject, hrequest⟩ := about_readings hcalls hanswered hawaiting r hr
  obtain ⟨request, hrequest, hsame⟩ := hrequest rfl
  refine ⟨hobject, ?_⟩
  rw [Body.tagValue, hsame]
  exact htag _ request hrequest

end Responses

section Runs

variable {strcmp : Strcmp} {initData : Frame} {s : State n}

/-- What a turn on a response does to the counts. -/
theorem Receives.counting {calls : Calls (Fin n) (CallId Phase) Body Body} {history : List Event}
    {i : Fin n} {clientId : CString} {opNum : ℕ} {phase : Phase} {frames : Body}
    {heap : Heap} {client : Client} {turn : Turn n Client Phase}
    (hturn : Receives strcmp clientId heap opNum frames phase client turn)
    (hcalls : (calls.collect (i, ⟨clientId, opNum, phase⟩, frames)).WellFormed)
    (hanswered : ∀ {i name frames}, (i, name, frames) ∈ calls.answers.sent →
      ∃ request, (i, name, request) ∈ calls.requests.sent ∧ frames.object = request.object ∧
        (name.phase = .writeValue → frames.tag = request.tag))
    (hown : Bookkeeping calls history clientId client) :
    (∀ name content, turn.multicast = some (name, content) →
      name.client = clientId ∧ ¬ calls.Issued name ∧
        Invoked (turn.event.toList ++ history) clientId name.opnum) ∧
    Bookkeeping (turn.sendOn (calls.collect (i, ⟨clientId, opNum, phase⟩, frames)))
      (turn.event.toList ++ history) clientId turn.client ∧
    ∀ e, turn.event = some e → Supported calls.answers.sent history e := by
  cases hturn with
  | stale hstale =>
    refine ⟨by rintro name content ⟨⟩, ?_, by rintro e ⟨⟩⟩
    refine hown.frame (fun opNum' phase' hawaits ↦ ?_) id fun _ he ↦ he
    refine Calls.readings_collect_of_ne fun hname ↦ hstale ?_
    obtain ⟨-, rfl, rfl⟩ := CallId.mk.inj hname
    exact hawaits
  | ended => exact ⟨by rintro name content ⟨⟩, trivial, by rintro e ⟨⟩⟩
  | countTag =>
    obtain ⟨hawaiting, rfl, hinvoked, hnot⟩ := hown
    refine ⟨by rintro name content ⟨⟩, ⟨hawaiting.collect i frames, ?_, hinvoked, hnot⟩,
      by rintro e ⟨⟩⟩
    exact (by rw [Calls.readings_collect_self, List.map_append, List.map_singleton] : _ =
      ((calls.collect (i, ⟨clientId, opNum, .getTag⟩, frames)).readings _).map
        fun r ↦ r.2.tagValue)
  | @chooseTag object rawData responses tagList newTag hmany hnext =>
    obtain ⟨hawaiting, rfl, hinvoked, hnot⟩ := hown
    have hinvoked' : Invoked history clientId opNum := Or.inl ⟨object, rawData, hinvoked⟩
    refine ⟨?_, bookkeeping_writeValue hcalls hnot rfl ⟨rawData, List.mem_cons_self⟩
      (hinvoked'.mono (List.subset_cons_self _ _)), ?_⟩
    · rintro name content ⟨⟩
      exact ⟨rfl, hnot, hinvoked'.mono (List.subset_cons_self _ _)⟩
    · rintro e ⟨⟩
      exact supported_writeTagged hcalls hanswered strcmp (hawaiting.collect i frames) hmany
        (by rw [Calls.readings_collect_self, List.map_append, List.map_singleton]) hnext rawData
  | @countValue object responses tag data =>
    obtain ⟨hawaiting, hbound, hinvoked, hnot⟩ := hown
    exact ⟨by rintro name content ⟨⟩, ⟨hawaiting.collect i frames,
      readings_le_updateMaxTagValue strcmp hbound, hinvoked, hnot⟩, by rintro e ⟨⟩⟩
  | @chooseValue object responses tag data value hmany hvalue =>
    obtain ⟨hawaiting, hbound, hinvoked, hnot⟩ := hown
    have hinvoked' : Invoked history clientId opNum := Or.inr ⟨object, hinvoked⟩
    refine ⟨?_, bookkeeping_writeValue hcalls hnot rfl List.mem_cons_self
      (hinvoked'.mono (List.subset_cons_self _ _)), ?_⟩
    · rintro name content ⟨⟩
      exact ⟨rfl, hnot, hinvoked'.mono (List.subset_cons_self _ _)⟩
    · rintro e ⟨⟩
      exact supported_readTagged hcalls hanswered (hawaiting.collect i frames) hmany
        (readings_le_updateMaxTagValue strcmp hbound) value
  | @countAck object tag operation responses =>
    obtain ⟨hawaiting, htag, htagged, hinvoked⟩ := hown
    exact ⟨by rintro name content ⟨⟩,
      ⟨hawaiting.collect i frames, htag, htagged, hinvoked⟩, by rintro e ⟨⟩⟩
  | @complete object tag operation responses hmany =>
    obtain ⟨hawaiting, htag, htagged, hinvoked⟩ := hown
    have hacknowledged := acknowledged_of_majority hcalls hanswered (hawaiting.collect i frames)
      hmany htag
    refine ⟨by rintro name content ⟨⟩, trivial, ?_⟩
    rintro e ⟨⟩
    cases operation with
    | write => exact ⟨hacknowledged, htagged⟩
    | read data => exact ⟨hacknowledged, htagged⟩

/-- Every state of every run under `Guard` is counted. -/
theorem Counting.of_run (run : Run (step strcmp initData) Guard State.initial s) :
    Counting s := by
  refine run.invariant_reach counting_initial fun s a t hrun h hguard hstep ↦ ?_
  have hshape := Shape.of_run hrun
  rcases step_cases hstep with hclient | hserver
  · cases hclient with
    | write clientId opNum object payload hidle =>
      exact h.invokeWrite hguard object payload
    | read clientId opNum object hidle =>
      exact h.invokeRead hguard object
    | receive i name frames heap turn hsent hturn =>
      have hcalls := h.calls.collect hsent hguard
      obtain ⟨hmulticast, hown, hevent⟩ := hturn.counting hcalls
        (fun hmem ↦ (hshape.answered hmem).2) (h.clients name.client)
      refine Counting.takeTurn (s := { s with calls := s.calls.collect (i, name, frames) }) hcalls
        h.issued (fun other hother ↦ ?_) h.events hmulticast hown hevent
      refine (h.clients other).frame (fun _ _ _ ↦ Calls.readings_collect_of_ne fun hname ↦
        hother ?_) id fun _ he ↦ he
      exact (congrArg CallId.client hname).symm
  · obtain ⟨i, name, frames, server, rfl, hsent, rfl, -, -⟩ := hserver.eq hshape
    exact h.handle hsent hguard server _

end Runs

end Colas.Abd
