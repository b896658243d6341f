import Colas.Abd.Linearizable
import Colas.Abd.Tags

/-!
# What an ABD operation waits for

As long as any majority of the servers is up, an ABD client that waits can go on, however slow the
others are: some message between it and a server that is up is on its way and can be delivered
(`exists_delivery`). And an operation can go on only so often: it takes at most `4 * n` deliveries
in all, one request and one response for each server in each of its two phases (`deliveries_le`).
That what can be delivered is delivered is left to the network.

The first half needs that the tags of the writes fit into the buffers: `get_object_tag` copies a
stored tag into 64 bytes, a greater number than the greatest `int` cannot be made, and a response to
`GET_TAG` can be received when the block for its tag holds it. To go on can also mean to end: a
reader exits when a server sends it less than a hundred bytes.
-/

set_option autoImplicit false
set_option relaxedAutoImplicit false

namespace Colas.Abd

open TransitionSystem

variable {n : ℕ}

/-- The number of responses that a client has counted. -/
def Client.responses : Client → ℕ
  | .getMaxTag _ _ _ responses _ => responses
  | .getMaxTagValue _ _ responses _ _ => responses
  | .writeValue _ _ _ _ responses => responses
  | .idle => 0
  | .exited => 0

/-- A reader that has no value yet has the tag with which it has started. -/
def Client.Unset : Client → Prop
  | .getMaxTagValue _ _ _ tag data => data = none → tag.number < 0
  | _ => True

/-- The history has an operation that sends requests under the name. -/
def Sends (history : List Event) (name : CallId Phase) : Prop :=
  match name.phase with
  | .getTag => ∃ object payload, .writeInvoked name.client name.opnum object payload ∈ history
  | .getTagValue => ∃ object, .readInvoked name.client name.opnum object ∈ history
  | .writeValue => True

/-- What is known of the messages of waiting clients in every run under `Guard`. -/
structure Live (s : State n) : Prop where
  /-- No request is handled twice. -/
  once : s.calls.requests.delivered.Nodup
  /-- Every request that was handled was answered. -/
  answered : ∀ {i name request}, (i, name, request) ∈ s.calls.requests.delivered →
    ∃ reply, (i, name, reply) ∈ s.calls.answers.sent
  /-- Responses carry tags. -/
  rendered : ∀ {i name reply}, (i, name, reply) ∈ s.calls.answers.sent →
    reply.tag = tagToString reply.tagValue
  /-- Only operations of the right kind send requests. -/
  issued : ∀ {name}, s.calls.Issued name → Sends s.history name
  /-- A client has asked all servers for what it waits for. -/
  asked : ∀ {clientId opNum phase}, (s.clients clientId).awaits = some (opNum, phase) →
    ∀ i, ∃ request, (i, ⟨clientId, opNum, phase⟩, request) ∈ s.calls.requests.sent
  /-- A client that waits has not counted a majority. -/
  few : ∀ clientId, (s.clients clientId).awaits ≠ none →
    (s.clients clientId).responses < majority n
  /-- A reader without a value has the tag with which it has started. -/
  unset : ∀ clientId, (s.clients clientId).Unset

theorem Sends.mono {history history' : List Event} {name : CallId Phase}
    (h : Sends history name) (hsub : history ⊆ history') : Sends history' name := by
  obtain ⟨client, opnum, phase⟩ := name
  cases phase with
  | getTag =>
    obtain ⟨object, payload, hmem⟩ := h
    exact ⟨object, payload, hsub hmem⟩
  | getTagValue =>
    obtain ⟨object, hmem⟩ := h
    exact ⟨object, hsub hmem⟩
  | writeValue => trivial

/-- An operation of one kind does not ask for tags like one of the other kind. -/
theorem Sends.not_both {history : List Event} {client : CString} {opnum : ℕ}
    (hwrite : Sends history ⟨client, opnum, .getTag⟩) (htraced : Traced history)
    (hread : Sends history ⟨client, opnum, .getTagValue⟩) : False := by
  obtain ⟨object, payload, hwritten⟩ := hwrite
  obtain ⟨object', hreading⟩ := hread
  have hwritten' : .writeInvoked client opnum object payload ∈ eventsOf history client opnum :=
    mem_eventsOf.mpr ⟨hwritten, rfl, rfl⟩
  have hreading' : .readInvoked client opnum object' ∈ eventsOf history client opnum :=
    mem_eventsOf.mpr ⟨hreading, rfl, rfl⟩
  have htrace := htraced.trace client opnum
  generalize eventsOf history client opnum = events at hwritten' hreading' htrace
  cases htrace <;> simp_all

/-- An operation that does not store a value asks in one way only. -/
theorem Sends.phase_eq {history : List Event} {client : CString} {opnum : ℕ}
    {phase phase' : Phase} (h : Sends history ⟨client, opnum, phase⟩) (htraced : Traced history)
    (h' : Sends history ⟨client, opnum, phase'⟩)
    (hkind : phase = .writeValue ↔ phase' = .writeValue) : phase = phase' := by
  cases phase with
  | getTag =>
    cases phase' with
    | getTag => rfl
    | getTagValue => exact (h.not_both htraced h').elim
    | writeValue => exact hkind.mpr rfl
  | getTagValue =>
    cases phase' with
    | getTag => exact (h'.not_both htraced h).elim
    | getTagValue => rfl
    | writeValue => exact hkind.mpr rfl
  | writeValue => exact (hkind.mp rfl).symm

section Steps

variable {strcmp : Strcmp} {initData : Frame} {s t : State n}

theorem live_initial : Live (State.initial : State n) where
  once := List.nodup_nil
  answered := fun hmem ↦ absurd hmem List.not_mem_nil
  rendered := fun hmem ↦ absurd hmem List.not_mem_nil
  issued := fun ⟨_, _, hmem⟩ ↦ absurd hmem List.not_mem_nil
  asked := fun hawaits ↦ by cases hawaits
  few := fun _ hawaits ↦ absurd rfl hawaits
  unset := fun _ ↦ trivial

/-- A turn after which the client waits for what it has waited for or has just asked for. -/
theorem Live.takeTurn (h : Live s) {clientId : CString} {turn : Turn n Client Phase}
    (hissued : ∀ name content, turn.multicast = some (name, content) →
      Sends (turn.event.toList ++ s.history) name)
    (hasked : ∀ opNum phase, turn.client.awaits = some (opNum, phase) →
      (s.clients clientId).awaits = some (opNum, phase) ∨
        ∃ content, turn.multicast = some (⟨clientId, opNum, phase⟩, content))
    (hfew : turn.client.awaits ≠ none → turn.client.responses < majority n)
    (hunset : turn.client.Unset) : Live (s.takeTurn clientId turn) where
  once := by
    rw [calls_takeTurn, Turn.delivered_sendOn]
    exact h.once
  answered := fun hmem ↦ by
    rw [calls_takeTurn, Turn.delivered_sendOn] at hmem
    rw [calls_takeTurn, Turn.answers_sendOn]
    exact h.answered hmem
  rendered := fun hmem ↦ by
    rw [calls_takeTurn, Turn.answers_sendOn] at hmem
    exact h.rendered hmem
  issued := fun {name} hname ↦ by
    rcases turn.issued_sendOn s.calls hname with ⟨content, hcall⟩ | hold
    · exact hissued name content hcall
    · exact (h.issued hold).mono (List.subset_append_right _ _)
  asked := fun {other opNum phase} hawaits i ↦ by
    have hold : (s.clients other).awaits = some (opNum, phase) →
        ∃ request, (i, ⟨other, opNum, phase⟩, request) ∈
          (s.takeTurn clientId turn).calls.requests.sent := fun hbefore ↦ by
      obtain ⟨request, hrequest⟩ := h.asked hbefore i
      exact ⟨request, (turn.mem_requests_sendOn s.calls).mpr (Or.inr hrequest)⟩
    by_cases hother : other = clientId
    · subst hother
      rw [clients_takeTurn, Function.update_self] at hawaits
      rcases hasked opNum phase hawaits with hbefore | ⟨content, hcall⟩
      · exact hold hbefore
      · exact ⟨content i, (turn.mem_requests_sendOn s.calls).mpr (Or.inl ⟨content, hcall, rfl⟩)⟩
    · rw [clients_takeTurn, Function.update_of_ne hother] at hawaits
      exact hold hawaits
  few := (Function.forall_update_iff s.clients fun _ (client : Client) ↦
    client.awaits ≠ none → client.responses < majority n).mpr ⟨hfew, fun other _ ↦ h.few other⟩
  unset := (Function.forall_update_iff s.clients fun _ (client : Client) ↦ client.Unset).mpr
    ⟨hunset, fun other _ ↦ h.unset other⟩

/-- A turn on a response keeps what is known. -/
theorem Live.receive (h : Live s) {i : Fin n} {clientId : CString} {opNum : ℕ} {phase : Phase}
    {frames : Body} {heap : Heap} {turn : Turn n Client Phase}
    (hturn : Receives strcmp clientId heap opNum frames phase (s.clients clientId) turn) :
    Live (State.takeTurn
      { s with calls := s.calls.collect (i, ⟨clientId, opNum, phase⟩, frames) } clientId turn) := by
  have hcollected : Live
      { s with calls := s.calls.collect (i, ⟨clientId, opNum, phase⟩, frames) } := { h with }
  have hown := h.unset clientId
  have hfew := h.few clientId
  generalize hclient : s.clients clientId = client at hturn hown hfew
  cases hturn with
  | stale =>
    exact hcollected.takeTurn (by rintro name content ⟨⟩)
      (fun opNum' phase' hawaits ↦ Or.inl (by rw [hclient]; exact hawaits)) hfew hown
  | ended =>
    exact hcollected.takeTurn (by rintro name content ⟨⟩) (by rintro opNum' phase' ⟨⟩)
      (fun hawaits ↦ absurd rfl hawaits) trivial
  | countTag hmore =>
    exact hcollected.takeTurn (by rintro name content ⟨⟩)
      (fun opNum' phase' hawaits ↦ Or.inl (by rw [hclient]; exact hawaits)) (fun _ ↦ hmore) trivial
  | chooseTag =>
    refine hcollected.takeTurn (by rintro name content ⟨⟩; trivial) ?_
      (fun _ ↦ majority_pos n) trivial
    rintro opNum' phase' ⟨⟩
    exact Or.inr ⟨_, rfl⟩
  | @countValue object responses tag data hmore =>
    refine hcollected.takeTurn (by rintro name content ⟨⟩)
      (fun opNum' phase' hawaits ↦ Or.inl (by rw [hclient]; exact hawaits)) (fun _ ↦ hmore) ?_
    intro hnone
    rcases updateMaxTagValue_eq_or strcmp tag data frames.tagValue frames.payload with heq | heq <;>
      rw [heq] at hnone ⊢
    · exact hown hnone
    · exact absurd hnone (Option.some_ne_none _)
  | chooseValue =>
    refine hcollected.takeTurn (by rintro name content ⟨⟩; trivial) ?_
      (fun _ ↦ majority_pos n) trivial
    rintro opNum' phase' ⟨⟩
    exact Or.inr ⟨_, rfl⟩
  | countAck hmore =>
    exact hcollected.takeTurn (by rintro name content ⟨⟩)
      (fun opNum' phase' hawaits ↦ Or.inl (by rw [hclient]; exact hawaits)) (fun _ ↦ hmore) trivial
  | complete =>
    exact hcollected.takeTurn (by rintro name content ⟨⟩) (by rintro opNum' phase' ⟨⟩)
      (fun hawaits ↦ absurd rfl hawaits) trivial

/-- A server that handles a request for the first time answers it. -/
theorem Live.serverStep (h : Live s) (hshape : Shape initData s) {a : Action n}
    (hguard : Guard s a) (hstep : ServerStep strcmp initData s a t) : Live t := by
  obtain ⟨i, name, frames, server, rfl, hsent, rfl, -⟩ := hstep.eq hshape
  refine
    { once := List.nodup_cons.mpr ⟨hguard, h.once⟩
      answered := fun {j other request} hmem ↦ ?_
      rendered := fun {j other reply} hmem ↦ ?_
      issued := h.issued
      asked := h.asked
      few := h.few
      unset := h.unset }
  · rcases List.mem_cons.mp hmem with heq | hold
    · obtain ⟨rfl, rfl, rfl⟩ : j = i ∧ other = name ∧ request = frames := by simpa using heq
      exact ⟨_, List.mem_cons_self⟩
    · obtain ⟨reply, hreply⟩ := h.answered hold
      exact ⟨reply, List.mem_cons_of_mem _ hreply⟩
  · rcases List.mem_cons.mp hmem with heq | hold
    · obtain ⟨rfl, rfl, rfl⟩ := by simpa using heq
      cases hphase : other.phase with
      | getTag => simp [response]
      | getTagValue => simp [response]
      | writeValue => exact (hshape.requested hsent hphase).1
    · exact h.rendered hold

/-- What is known holds in every run. -/
theorem Live.of_run (run : Run (Abd.step strcmp initData) Guard State.initial s) : Live s := by
  refine run.invariant_reach live_initial fun s a t hrun h hguard hstep ↦ ?_
  rcases step_cases hstep with hclient | hserver
  · cases hclient with
    | write clientId opNum object payload hidle =>
      refine h.takeTurn ?_ ?_ (fun _ ↦ majority_pos n) trivial
      · rintro name content ⟨⟩
        exact ⟨object, payload, List.mem_cons_self⟩
      · rintro opNum' phase' ⟨⟩
        exact Or.inr ⟨_, rfl⟩
    | read clientId opNum object hidle =>
      refine h.takeTurn ?_ ?_ (fun _ ↦ majority_pos n) fun _ ↦ by decide
      · rintro name content ⟨⟩
        exact ⟨object, List.mem_cons_self⟩
      · rintro opNum' phase' ⟨⟩
        exact Or.inr ⟨_, rfl⟩
    | receive i name frames heap turn hsent hturn => exact h.receive hturn
  · exact h.serverStep (Shape.of_run hrun) hguard hserver

/-! ### A client that waits can go on -/

/-- A writer with a majority of tags makes a greater one. -/
theorem exists_next_getMaxTag (strcmp : Strcmp) (clientId : CString) {tagList : List Tag}
    {tag : Tag} (hnonneg : ∀ tag ∈ tagList, 0 ≤ tag.number) (hz : 0 ≤ tag.number)
    (hnumbers : ∀ tag ∈ tagList, tag.number < 2 ^ 31 - 1) (hnumber : tag.number < 2 ^ 31 - 1) :
    ∃ newTag, (getMaxTag strcmp (tagList ++ [tag])).next clientId = some newTag := by
  have hmem : getMaxTag strcmp (tagList ++ [tag]) ∈ tagList ++ [tag] := by
    refine getMaxTag_mem strcmp (by simp) fun other hother ↦ ?_
    rcases List.mem_append.mp hother with hold | hnew
    · exact hnonneg other hold
    · rwa [List.mem_singleton.mp hnew]
  refine Tag.exists_next ?_ clientId
  rcases List.mem_append.mp hmem with hold | hnew
  · exact hnumbers _ hold
  · rwa [List.mem_singleton.mp hnew]

/-- A reader has data after a response: the first one replaces the tag with which it has started. -/
theorem exists_updateMaxTagValue (strcmp : Strcmp) {tag recvTag : Tag} {data : Option Frame}
    (payload : Frame) (hunset : data = none → tag.number < 0) (hz : 0 ≤ recvTag.number) :
    ∃ value, (updateMaxTagValue strcmp tag data recvTag payload).2 = some value := by
  rcases data with - | value
  · have hlt : tag < recvTag := (Tag.lt_iff _ _).mpr (Or.inl ((hunset rfl).trans_le hz))
    refine ⟨payload, ?_⟩
    rw [updateMaxTagValue, if_pos ((compareTagPtrs_neg_iff strcmp _ _).mpr hlt)]
  · rcases updateMaxTagValue_eq_or strcmp tag (some value) recvTag payload with heq | heq <;>
      rw [heq]
    · exact ⟨value, rfl⟩
    · exact ⟨payload, rfl⟩

/-- A client receives what it waits for. -/
theorem Client.exists_receive (strcmp : Strcmp) (clientId : CString)
    {heap : Heap} {opNum : ℕ} {phase : Phase} {frames : Body} {client : Client}
    (hawaits : client.awaits = some (opNum, phase)) (hunset : client.Unset)
    (hnonneg : client.Nonneg) (hnumbers : client.Told fun tag ↦ tag.number < 2 ^ 31 - 1)
    (hframes : frames.tag = tagToString frames.tagValue) (hz : 0 ≤ frames.tagValue.number)
    (hnumber : frames.tagValue.number < 2 ^ 31 - 1)
    (hholds : phase = .getTag → heap.Holds frames.tagValue) :
    ∃ turn : Turn n Client Phase,
      client.receive strcmp clientId heap opNum phase frames = some turn := by
  have htag : stringToTag frames.tag = some frames.tagValue := by
    rw [hframes, stringToTag_tagToString]
  rw [← Option.isSome_iff_exists]
  cases client with
  | idle => cases hawaits
  | exited => cases hawaits
  | getMaxTag opNum' object rawData responses tagList =>
    obtain ⟨rfl, rfl⟩ : opNum' = opNum ∧ .getTag = phase := by simpa [Client.awaits] using hawaits
    have hparsed : (stringToTag frames.tag).filter (heap.Holds ·) = some frames.tagValue := by
      rw [htag, Option.filter_some, if_pos (decide_eq_true (hholds rfl))]
    by_cases hmany : majority n ≤ responses + 1
    · obtain ⟨newTag, hnext⟩ :=
        exists_next_getMaxTag strcmp clientId hnonneg hz hnumbers hnumber
      simp [Client.receive, abdGetMaxTagPhase, hparsed, hmany, hnext]
    · simp [Client.receive, abdGetMaxTagPhase, hparsed, hmany]
  | getMaxTagValue opNum' object responses tag data =>
    obtain ⟨rfl, rfl⟩ : opNum' = opNum ∧ .getTagValue = phase := by
      simpa [Client.awaits] using hawaits
    by_cases hsmall : frames.payload.length < 100
    · simp [Client.receive, abdGetMaxTagValuePhase, htag, hsmall]
    · by_cases hmany : majority n ≤ responses + 1
      · obtain ⟨value, hvalue⟩ := exists_updateMaxTagValue strcmp frames.payload hunset hz
        simp [Client.receive, abdGetMaxTagValuePhase, htag, hsmall, hmany, hvalue]
      · simp [Client.receive, abdGetMaxTagValuePhase, htag, hsmall, hmany]
  | writeValue opNum' object tag operation responses =>
    obtain ⟨rfl, rfl⟩ : opNum' = opNum ∧ .writeValue = phase := by
      simpa [Client.awaits] using hawaits
    by_cases hmany : majority n ≤ responses + 1 <;>
      simp [Client.receive, abdWriteValuePhase, hmany]

/-- A client that waits counts the responses that it has received. -/
theorem Counting.length_readings (h : Counting s) {clientId : CString} {opNum : ℕ} {phase : Phase}
    (hawaits : (s.clients clientId).awaits = some (opNum, phase)) :
    (s.calls.readings ⟨clientId, opNum, phase⟩).length = (s.clients clientId).responses := by
  have hown := h.clients clientId
  generalize s.clients clientId = client at hawaits hown
  cases client with
  | idle => cases hawaits
  | exited => cases hawaits
  | getMaxTag =>
    obtain ⟨rfl, rfl⟩ := Prod.mk.inj (Option.some.inj hawaits)
    exact hown.1.count
  | getMaxTagValue =>
    obtain ⟨rfl, rfl⟩ := Prod.mk.inj (Option.some.inj hawaits)
    exact hown.1.count
  | writeValue =>
    obtain ⟨rfl, rfl⟩ := Prod.mk.inj (Option.some.inj hawaits)
    exact hown.1.count

theorem exists_step_receive {i : Fin n} {name : CallId Phase} {frames : Body}
    {heap : Heap} {turn : Turn n Client Phase}
    (hsent : (i, name, frames) ∈ s.calls.answers.sent)
    (hturn : (s.clients name.client).receive strcmp name.client heap name.opnum name.phase frames =
      some turn) : ∃ t, step strcmp initData s (.receive (i, name, frames) heap) = some t := by
  simp [step, hsent, hturn]

/-- A message of the operation between its client and the server can be delivered. -/
inductive Deliverable (strcmp : Strcmp) (initData : Frame) (s : State n) (name : CallId Phase)
    (i : Fin n) : Prop
  /-- The server can handle a request. -/
  | request (frames : Body) (t : State n) (hguard : Guard s (.serve (i, name, frames)))
    (hstep : step strcmp initData s (.serve (i, name, frames)) = some t)
  /-- The client can receive a response, wherever it copies it to, if a tag that it asks for fits
  into its block. -/
  | response (frames : Body)
    (hstep : ∀ heap, (name.phase = .getTag → heap.Holds frames.tagValue) →
      Guard s (.receive (i, name, frames) heap) ∧
        ∃ t, step strcmp initData s (.receive (i, name, frames) heap) = some t)

/-- In every run whose writes have tags that are short and not the greatest, a client that waits can
go on with any majority of the servers: a message between it and one of them can be delivered. -/
theorem exists_delivery (run : Run (Abd.step strcmp initData) Guard State.initial s)
    (hshort : ShortTags s.history) (hincreasable : IncreasableTags s.history)
    {up : Finset (Fin n)} (hup : majority n ≤ up.card) {clientId : CString} {opNum : ℕ}
    {phase : Phase} (hawaits : (s.clients clientId).awaits = some (opNum, phase)) :
    ∃ i ∈ up, Deliverable strcmp initData s ⟨clientId, opNum, phase⟩ i := by
  have hshape := Shape.of_run run
  have hlive := Live.of_run run
  have hcounting := Counting.of_run run
  have htagged := TagsMade.of_run run
  by_contra! hstuck
  -- otherwise all servers that are up have been asked, and the client has their responses
  have hreceived : ∀ i ∈ up, ∃ reply, (i, reply) ∈ s.calls.readings ⟨clientId, opNum, phase⟩ := by
    intro i hi
    obtain ⟨request, hrequest⟩ := hlive.asked hawaits i
    have hhandled : (i, ⟨clientId, opNum, phase⟩, request) ∈ s.calls.requests.delivered := by
      by_contra hnew
      obtain ⟨server, hserver, -, -⟩ := algorithmABD_eq strcmp initData (hshape.stores i)
        (fun hphase ↦ (hshape.requested hrequest hphase).1)
        (hshort.of_made (htagged.stored request.object i))
      exact hstuck i hi (.request request _ hnew (by
        rw [step, if_pos hrequest, hserver, Option.bind_eq_bind, Option.bind_some]))
    obtain ⟨reply, hreply⟩ := hlive.answered hhandled
    have hcollected : (i, ⟨clientId, opNum, phase⟩, reply) ∈ s.calls.answers.delivered := by
      by_contra hnew
      refine hstuck i hi (.response reply fun heap hholds ↦ ⟨hnew, ?_⟩)
      obtain ⟨turn, hturn⟩ := Client.exists_receive (n := n) strcmp clientId hawaits
        (hlive.unset clientId) (hshape.clients clientId)
        ((htagged.clients clientId).mono fun tag ↦ hincreasable.of_made)
        (hlive.rendered hreply) (hshape.answered hreply).1
        (hincreasable.of_made (htagged.answered hreply)) hholds
      exact exists_step_receive hreply hturn
    exact ⟨reply, Calls.mem_readings.mpr hcollected⟩
  have hcard := Quorum.card_le_of_sources hreceived
  rw [hcounting.length_readings hawaits] at hcard
  have hfew := hlive.few clientId (by simp [hawaits])
  omega

/-- The two writes of the race have the version number `1`. -/
theorem eq_of_mem_raceHistory {payload₁ payload₃ payload payload' : Frame} {tag tag' : Tag}
    {client object : CString} {opnum : ℕ}
    (h : .writeTagged client opnum object tag' payload' ∈
      raceHistory payload₁ payload₃ tag payload) :
    tag' = ⟨1, ascii ['w', '3']⟩ ∨ tag' = ⟨1, ascii ['w', '1']⟩ := by
  simp only [raceHistory, List.mem_cons, reduceCtorEq, Event.writeTagged.injEq, List.not_mem_nil,
    or_false, false_or] at h
  exact h.imp (·.2.2.2.1) (·.2.2.2.1)

/-- At the end of the race, while the second of the three servers is down, the writer `w1`, which
has not been told that its payload is stored, can go on. -/
theorem exists_delivery_race : ∃ s : State 3,
    (s.clients (ascii ['w', '1'])).awaits = some (1, .writeValue) ∧ ∃ i ∈ ({0, 2} : Finset (Fin 3)),
      Deliverable Strcmp.sign (hundredBytes 0) s ⟨ascii ['w', '1'], 1, .writeValue⟩ i := by
  have hrun : (execute (Abd.step Strcmp.sign (hundredBytes 0)) Guard State.initial
      (raceSchedule 0 1 2 (hundredBytes 0) (hundredBytes 1) (hundredBytes 3) ⟨1, ascii ['w', '3']⟩
        (hundredBytes 3))).map (fun s ↦ ((s.clients (ascii ['w', '1'])).awaits, s.history)) =
      some (some (1, .writeValue), raceHistory (hundredBytes 1) (hundredBytes 3)
        ⟨1, ascii ['w', '3']⟩ (hundredBytes 3)) := by
    decide +kernel
  obtain ⟨s, hexecute, hs⟩ := Option.map_eq_some_iff.mp hrun
  obtain ⟨hawaits, hhistory⟩ := Prod.mk.inj hs
  have htags : ∀ client opnum object tag payload,
      .writeTagged client opnum object tag payload ∈ s.history →
        tag.Short ∧ tag.number < 2 ^ 31 - 1 := by
    intro client opnum object tag payload hmem
    rw [hhistory] at hmem
    rcases eq_of_mem_raceHistory hmem with rfl | rfl <;> exact ⟨by decide, by decide⟩
  exact ⟨s, hawaits, exists_delivery (run_of_execute hexecute)
    (fun client opnum object tag payload hmem ↦ (htags client opnum object tag payload hmem).1)
    (fun client opnum object tag payload hmem ↦ (htags client opnum object tag payload hmem).2)
    (by decide +kernel) hawaits⟩

/-! ### An operation goes on only so often -/

/-- The messages of an operation. -/
def ofOperation (clientId : CString) (opNum : ℕ) (messages : List (Fin n × CallId Phase × Body)) :
    List (Fin n × CallId Phase × Body) :=
  messages.filter fun m ↦ m.2.1.client = clientId && m.2.1.opnum = opNum

/-- The number of messages that have been delivered for an operation. -/
def State.deliveries (s : State n) (clientId : CString) (opNum : ℕ) : ℕ :=
  (ofOperation clientId opNum s.calls.requests.delivered).length +
    (ofOperation clientId opNum s.calls.answers.delivered).length

/-- Different messages of an operation, of which no two go to one server in one phase, are at most
two for each server. -/
theorem length_ofOperation_le {messages : List (Fin n × CallId Phase × Body)}
    (hnodup : messages.Nodup)
    (hunique : ∀ {i name frames frames'}, (i, name, frames) ∈ messages →
      (i, name, frames') ∈ messages → frames = frames')
    {history : List Event} (htraced : Traced history)
    (hissued : ∀ m ∈ messages, Sends history m.2.1) (clientId : CString) (opNum : ℕ) :
    (ofOperation clientId opNum messages).length ≤ 2 * n := by
  set place : Fin n × CallId Phase × Body → Fin n × Bool :=
    fun m ↦ (m.1, decide (m.2.1.phase = .writeValue))
  have hplaces : ((ofOperation clientId opNum messages).map place).Nodup := by
    refine (hnodup.filter _).map_on fun m hm m' hm' hplace ↦ ?_
    obtain ⟨i, ⟨client, number, phase⟩, frames⟩ := m
    obtain ⟨i', ⟨client', number', phase'⟩, frames'⟩ := m'
    obtain ⟨hmem, hown⟩ := List.mem_filter.mp hm
    obtain ⟨hmem', hown'⟩ := List.mem_filter.mp hm'
    obtain ⟨rfl, rfl⟩ : client = clientId ∧ number = opNum := by simpa using hown
    obtain ⟨rfl, rfl⟩ : client' = client ∧ number' = number := by simpa using hown'
    obtain ⟨rfl, hkind⟩ := Prod.mk.inj hplace
    obtain rfl : phase = phase' :=
      (hissued _ hmem).phase_eq htraced (hissued _ hmem') (decide_eq_decide.mp hkind)
    rw [hunique hmem hmem']
  have hcard := hplaces.length_le_card
  rw [List.length_map, Fintype.card_prod, Fintype.card_fin, Fintype.card_bool] at hcard
  omega

/-- In every run, at most `4 * n` messages are delivered for an operation. -/
theorem deliveries_le (run : Run (Abd.step strcmp initData) Guard State.initial s)
    (clientId : CString) (opNum : ℕ) : s.deliveries clientId opNum ≤ 4 * n := by
  have hlive := Live.of_run run
  have hcalls := (Counting.of_run run).calls
  have htraced := (Following.of_run (fun _ _ h ↦ h.freshNumbers) run).traced
  have hrequests := length_ofOperation_le hlive.once
    (fun hmem hmem' ↦ hcalls.request_unique (hcalls.served _ hmem) (hcalls.served _ hmem')) htraced
    (fun m hm ↦ hlive.issued ⟨m.1, m.2.2, hcalls.served _ hm⟩) clientId opNum
  have hanswers := length_ofOperation_le hcalls.once
    (fun hmem hmem' ↦ hcalls.answer_unique (hcalls.collected _ hmem) (hcalls.collected _ hmem'))
    htraced (fun m hm ↦ hlive.issued (hcalls.issued_of_answer (hcalls.collected _ hm))) clientId
    opNum
  rw [State.deliveries]
  omega

/-- In the race on three servers the write of `w3` takes eight deliveries. -/
theorem deliveries_le_race : ∃ s : State 3,
    s.deliveries (ascii ['w', '3']) 1 = 8 ∧ s.deliveries (ascii ['w', '3']) 1 ≤ 4 * 3 := by
  have hcount : (execute (Abd.step Strcmp.sign (hundredBytes 0)) Guard State.initial
      (raceSchedule 0 1 2 (hundredBytes 0) (hundredBytes 1) (hundredBytes 3) ⟨1, ascii ['w', '3']⟩
        (hundredBytes 3))).map (fun s ↦ s.deliveries (ascii ['w', '3']) 1) = some 8 := by
    decide +kernel
  obtain ⟨s, hexecute, hs⟩ := Option.map_eq_some_iff.mp hcount
  exact ⟨s, hs, deliveries_le (run_of_execute hexecute) _ _⟩

end Steps

end Colas.Abd
