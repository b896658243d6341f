import Colas.Sodaw.Readers

/-!
# What SODAW servers have answered and clients have counted

The invariants of this module say that nothing gets lost. Every tag that a server stores or reports
comes from a `WRITE_PUT` that was sent to all servers (`Known`), and a server answers every request
for a tag and every `WRITE_PUT` (`Answering`). A client that waits counts at least what was
delivered to it (`Tallying`); when a message is delivered twice it counts more. Neither needs that
messages are delivered once.
-/

set_option autoImplicit false
set_option relaxedAutoImplicit false

namespace Colas.Sodaw

open TransitionSystem

variable {n : ℕ} {config : Config n} {s t : State n}

/-! ### Where tags come from -/

/-- The tag is the initial one or was sent in a `WRITE_PUT`. -/
def Known (requests : List (Fin n × CallId Phase × Body)) (tag : Tag) : Prop :=
  tag = initTag ∨ ∃ i name request, name.phase = .writePut ∧ (i, name, request) ∈ requests ∧
    request.tagValue = tag

/-- The client has been told only known tags. -/
def ToldKnown (requests : List (Fin n × CallId Phase × Body)) : Client → Prop
  | .get _ _ _ _ tagList => ∀ tag ∈ tagList, Known requests tag
  | .readValue _ _ readTag _ _ => Known requests readTag
  | _ => True

/-- Every tag that is stored or reported is known, and every request for a tag and every `WRITE_PUT`
that was handled has been answered. -/
structure Answering (config : Config n) (s : State n) : Prop where
  stored : ∀ object i, Known s.calls.requests.sent (s.storedTag config object i)
  reported : ∀ {i name frames}, (i, name, frames) ∈ s.calls.answers.sent →
    Known s.calls.requests.sent frames.tagValue
  clients : ∀ clientId, ToldKnown s.calls.requests.sent (s.clients clientId)
  answered : ∀ {i name request}, (i, name, request) ∈ s.calls.requests.delivered →
    name.phase ≠ .readValue → name.phase ≠ .readComplete →
      ∃ reply, (i, name, reply) ∈ s.calls.answers.sent

theorem Known.mono {requests requests' : List (Fin n × CallId Phase × Body)} {tag : Tag}
    (h : Known requests tag) (hsub : ∀ m ∈ requests, m ∈ requests') : Known requests' tag := by
  rcases h with hinit | ⟨i, name, request, hphase, hmem, htag⟩
  · exact Or.inl hinit
  · exact Or.inr ⟨i, name, request, hphase, hsub _ hmem, htag⟩

theorem ToldKnown.mono {requests requests' : List (Fin n × CallId Phase × Body)} {client : Client}
    (h : ToldKnown requests client) (hsub : ∀ m ∈ requests, m ∈ requests') :
    ToldKnown requests' client := by
  cases client with
  | get => exact fun tag htag ↦ (h tag htag).mono hsub
  | readValue => exact Known.mono h hsub
  | _ => trivial

theorem answering_initial : Answering config (State.initial : State n) where
  stored := fun object i ↦ Or.inl <| by
    simp [State.storedTag, State.initial, Server.version, Server.initial, contents]
  reported := fun h ↦ absurd h List.not_mem_nil
  clients := fun _ ↦ trivial
  answered := fun h ↦ absurd h List.not_mem_nil

/-- A server answers every request for a tag and every `WRITE_PUT`, and the tag of the answer is the
stored one or that of the request. -/
theorem Handles.answers {strcmp : Strcmp} {args : ServerArgs}
    {version version' : CString → Tag × Frame} {tables tables' : Tables} {name : CallId Phase}
    {request : Body} {output : Output}
    (h : Handles strcmp args version tables name request version' tables' output) :
    (name.phase ≠ .readValue → name.phase ≠ .readComplete → output.response ≠ none) ∧
      ∀ reply, output.response = some reply → reply.tagValue = (version request.object).1 ∨
        name.phase = .writePut ∧ reply.tagValue = request.tagValue := by
  cases h with
  | report =>
    refine ⟨fun _ _ ↦ Option.some_ne_none _, ?_⟩
    rintro reply ⟨⟩
    exact Or.inl (Body.tagValue_tagToString _ _ _)
  | refuse hphase =>
    refine ⟨fun _ _ ↦ Option.some_ne_none _, ?_⟩
    rintro reply ⟨⟩
    exact Or.inr ⟨hphase, rfl⟩
  | adopt hphase =>
    refine ⟨fun _ _ ↦ Option.some_ne_none _, ?_⟩
    rintro reply ⟨⟩
    exact Or.inr ⟨hphase, rfl⟩
  | ignore hphase =>
    exact ⟨fun hvalue hcomplete ↦ absurd hphase (by simp [hvalue, hcomplete]), by rintro _ ⟨⟩⟩
  | register hphase => exact ⟨fun hvalue ↦ absurd hphase hvalue, by rintro _ ⟨⟩⟩
  | serve hphase => exact ⟨fun hvalue ↦ absurd hphase hvalue, by rintro _ ⟨⟩⟩
  | complete hphase => exact ⟨fun _ hcomplete ↦ absurd hphase hcomplete, by rintro _ ⟨⟩⟩

/-- A step of a server keeps what is known. -/
theorem Answering.serverMove (h : Answering config s) {a : Action n}
    (hmove : ServerMove config s a t) : Answering config t := by
  cases hmove with
  | serve i name frames server output hsent halive hwell hhandles =>
    refine
      { stored := fun object j ↦ ?_
        reported := fun {j other body} hmem ↦ ?_
        clients := fun clientId ↦ ?_
        answered := fun {j other request} hmem hvalue hcomplete ↦ ?_ }
    · rw [requests_sent_handle, State.storedTag, servers_handle]
      split_ifs with hj
      · subst hj
        rcases hhandles.version_eq object with hsame | ⟨hphase, -, hnew⟩
        · rw [hsame]
          exact h.stored object j
        · rw [hnew]
          exact Or.inr ⟨j, name, frames, hphase, hsent, rfl⟩
      · exact h.stored object j
    · rw [requests_sent_handle]
      rcases mem_answers_handle.mp hmem with ⟨rfl, rfl, hreply⟩ | hold
      · rcases hhandles.answers.2 body hreply with hstored | ⟨hphase, htag⟩
        · rw [hstored]
          exact h.stored frames.object j
        · exact Or.inr ⟨j, other, frames, hphase, hsent, htag.symm⟩
      · exact h.reported hold
    · rw [requests_sent_handle]
      exact h.clients clientId
    · rw [requests_delivered_handle] at hmem
      rcases List.mem_cons.mp hmem with heq | hold
      · obtain ⟨rfl, rfl, rfl⟩ : j = i ∧ other = name ∧ request = frames := by simpa using heq
        obtain ⟨reply, hreply⟩ :=
          Option.ne_none_iff_exists'.mp (hhandles.answers.1 hvalue hcomplete)
        exact ⟨reply, mem_answers_handle.mpr (Or.inl ⟨rfl, rfl, hreply⟩)⟩
      · obtain ⟨reply, hreply⟩ := h.answered hold hvalue hcomplete
        exact ⟨reply, mem_answers_handle.mpr (Or.inr hreply)⟩
  | serveNotice i j notice server hsent halive hwell hversion hhandles =>
    refine { h with stored := fun object k ↦ ?_ }
    rw [storedTag_handleNotice hversion]
    exact h.stored object k
  | stop => exact { h with }

/-- A turn of a client keeps what is known if it has been told only known tags. -/
theorem Answering.takeTurn (h : Answering config s) {clientId : CString}
    {turn : Turn n Client Phase} (hclient : ToldKnown s.calls.requests.sent turn.client) :
    Answering config (s.takeTurn clientId turn) := by
  have hkept := serversKept_takeTurn s clientId turn
  refine
    { stored := fun object i ↦ (h.stored object i).mono hkept.requests
      reported := fun hmem ↦ ?_
      clients := fun other ↦ ?_
      answered := fun hmem hvalue hcomplete ↦ ?_ }
  · rw [hkept.answers] at hmem
    exact (h.reported hmem).mono hkept.requests
  · exact ToldKnown.mono ((Function.forall_update_iff s.clients fun _ client ↦
      ToldKnown s.calls.requests.sent client).mpr ⟨hclient, fun other _ ↦ h.clients other⟩ other)
        hkept.requests
  · rw [hkept.delivered] at hmem
    rw [hkept.answers]
    exact h.answered hmem hvalue hcomplete

theorem Receives.toldKnown {requests : List (Fin n × CallId Phase × Body)} {clientId : CString}
    {round : ℕ} {phase : Phase} {frames : Body} {client : Client} {turn : Turn n Client Phase}
    (hturn : Receives clientId round frames phase client turn)
    (hframes : phase ≠ .readValue → Known requests frames.tagValue)
    (h : ToldKnown requests client) : ToldKnown requests turn.client := by
  cases hturn with
  | stale => exact h
  | @countTag object operation =>
    intro tag htag
    rcases List.mem_append.mp htag with hold | hnew
    · exact h tag hold
    · rw [List.mem_singleton.mp hnew]
      exact hframes (by cases operation <;> simp [Operation.getPhase])
  | collect => exact h
  | decide => exact h
  | _ => trivial

theorem TimesOut.toldKnown {requests : List (Fin n × CallId Phase × Body)} {clientId : CString}
    {client : Client} {turn : Turn n Client Phase} (hturn : TimesOut config clientId client turn)
    (hnonneg : client.Nonneg) (h : ToldKnown requests client) :
    ToldKnown requests turn.client := by
  cases hturn with
  | startRead hmany => exact h _ (getMaxTag_mem_of_nonneg config.strcmp hnonneg hmany)
  | _ => trivial

/-- In every run every tag that is stored is known, and requests are answered. -/
theorem Answering.of_run {guard : State n → Action n → Prop}
    (run : Run (step config) guard State.initial s) : Answering config s := by
  refine run.invariant_reach answering_initial fun s a t hrun h _ hstep ↦ ?_
  have hshape := Shape.of_run hrun
  rcases step_cases hstep with hclient | hserver
  · cases hclient with
    | write => exact h.takeTurn fun tag htag ↦ absurd htag List.not_mem_nil
    | read => exact h.takeTurn fun tag htag ↦ absurd htag List.not_mem_nil
    | receive i name frames turn hsent hturn =>
      have hcollected : Answering config { s with calls := s.calls.collect (i, name, frames) } :=
        { h with }
      exact hcollected.takeTurn (hturn.toldKnown (fun _ ↦ h.reported hsent) (h.clients _))
    | receiveElement i name frames turn hsent hturn =>
      have hdelivered :
          Answering config { s with elements := s.elements.deliver (i, name, frames) } :=
        { h with }
      refine hdelivered.takeTurn (hturn.toldKnown (fun hphase ↦ ?_) (h.clients _))
      exact absurd ((Sourced.of_run hrun).element hsent).1 hphase
    | timeout clientId turn hturn =>
      exact h.takeTurn (hturn.toldKnown (hshape.clients clientId) (h.clients clientId))
  · exact h.serverMove (hserver.move hshape)

/-! ### What clients count -/

/-- A waiting client has counted at least the messages delivered to it. A writer that waits for
acknowledgements, and a reader that has not decided, does not have enough; a reader that has decided
has a majority of frames for its tag. -/
def Tallied (calls : Calls (Fin n) (CallId Phase) Body Body)
    (elements : Network (Fin n × CallId Phase × Body)) (clientId : CString) : Client → Prop
  | .get opNum _ operation responses _ =>
    (calls.readings ⟨clientId, opNum, operation.getPhase⟩).length ≤ responses
  | .writePut opNum _ _ responses =>
    (calls.readings ⟨clientId, opNum, .writePut⟩).length ≤ responses ∧ responses < majority n
  | .readValue opNum _ _ recvDataset none => ∀ tagStr,
    (received elements clientId opNum tagStr).length ≤ (dataList recvDataset tagStr).length ∧
      (dataList recvDataset tagStr).length < majority n
  | .readValue _ _ _ recvDataset (some decodeableKey) =>
    majority n ≤ (dataList recvDataset decodeableKey).length
  | _ => True

/-- Only what was sent is delivered, and the clients count it. -/
structure Tallying (s : State n) : Prop where
  collected : ∀ m ∈ s.calls.answers.delivered, m ∈ s.calls.answers.sent
  delivered : ∀ m ∈ s.elements.delivered, m ∈ s.elements.sent
  clients : ∀ clientId, Tallied s.calls s.elements clientId (s.clients clientId)

theorem tallying_initial : Tallying (State.initial : State n) where
  collected := fun _ h ↦ absurd h List.not_mem_nil
  delivered := fun _ h ↦ absurd h List.not_mem_nil
  clients := fun _ ↦ trivial

section Tallied

variable {calls calls' : Calls (Fin n) (CallId Phase) Body Body}
  {elements elements' : Network (Fin n × CallId Phase × Body)} {clientId : CString}
  {client : Client}

/-- The counts depend on the messages delivered under the name that the client awaits. -/
theorem Tallied.frame (h : Tallied calls elements clientId client)
    (hsame : ∀ opNum phase, client.awaits = some (opNum, phase) →
      calls'.readings ⟨clientId, opNum, phase⟩ = calls.readings ⟨clientId, opNum, phase⟩ ∧
        elements'.readings ⟨clientId, opNum, phase⟩ =
          elements.readings ⟨clientId, opNum, phase⟩) :
    Tallied calls' elements' clientId client := by
  cases client with
  | get opNum object operation responses tagList =>
    rw [Tallied, (hsame opNum operation.getPhase rfl).1]
    exact h
  | writePut opNum object tag responses =>
    rw [Tallied, (hsame opNum .writePut rfl).1]
    exact h
  | readValue opNum object readTag recvDataset decodeableKey =>
    cases decodeableKey with
    | none =>
      intro tagStr
      rw [received, (hsame opNum .readValue rfl).2]
      exact h tagStr
    | some decodeableKey => exact h
  | _ => trivial

/-- A turn on a message counts it if the client awaits it. -/
theorem Receives.tallied {opNum : ℕ} {phase : Phase} {frames : Body}
    {turn : Turn n Client Phase} (hturn : Receives clientId opNum frames phase client turn)
    (hothers : ∀ name, name ≠ ⟨clientId, opNum, phase⟩ →
      calls'.readings name = calls.readings name ∧ elements'.readings name = elements.readings name)
    (hanswer : (calls'.readings ⟨clientId, opNum, phase⟩).length ≤
      (calls.readings ⟨clientId, opNum, phase⟩).length + 1)
    (helement : ∀ tagStr, (received elements' clientId opNum tagStr).length ≤
      (received elements clientId opNum tagStr).length + if tagStr = frames.tag then 1 else 0)
    (hown : Tallied calls elements clientId client) :
    Tallied calls' elements' clientId turn.client := by
  cases hturn with
  | stale hstale =>
    refine hown.frame fun opNum' phase' hawaits ↦ hothers _ fun hname ↦ hstale ?_
    obtain ⟨-, rfl, rfl⟩ := CallId.mk.inj hname
    exact hawaits
  | countTag => exact hanswer.trans (Nat.add_le_add_right hown 1)
  | countAck hfew => exact ⟨hanswer.trans (Nat.add_le_add_right hown.1 1), hfew⟩
  | complete => trivial
  | collect hle hfew =>
    intro tagStr
    obtain ⟨hlist, hlength⟩ := hown tagStr
    have hreceived := helement tagStr
    rw [dataList_insert]
    split_ifs at hreceived ⊢ with htag
    · subst htag
      rw [List.length_append, List.length_singleton]
      exact ⟨by omega, hfew⟩
    · exact ⟨by omega, hlength⟩
  | decide hle hmany =>
    rw [Tallied, dataList_insert, if_pos rfl, List.length_append, List.length_singleton]
    exact hmany

/-- A turn at the end of a loop starts to count at zero. -/
theorem TimesOut.tallied {turn : Turn n Client Phase} (hturn : TimesOut config clientId client turn)
    (hempty : ∀ name content, turn.multicast = some (name, content) →
      calls.readings name = [] ∧ elements.readings name = []) :
    Tallied calls elements clientId turn.client := by
  cases hturn with
  | startWrite =>
    rw [startWritePut, Tallied, (hempty _ _ rfl).1]
    exact ⟨le_rfl, majority_pos n⟩
  | startRead =>
    intro tagStr
    rw [received, (hempty _ _ rfl).2]
    exact ⟨le_rfl, majority_pos n⟩
  | decoded => trivial
  | failed => trivial

end Tallied

/-- Nothing was delivered under a name that was not issued. -/
theorem Tallying.readings_eq_nil (hshape : Shape config s) (hsourced : Sourced config s)
    (h : Tallying s) {name : CallId Phase} (hfresh : ¬ s.calls.Issued name) :
    s.calls.readings name = [] ∧ s.elements.readings name = [] := by
  refine ⟨List.eq_nil_iff_forall_not_mem.mpr fun ⟨i, frames⟩ hmem ↦ hfresh ?_,
    List.eq_nil_iff_forall_not_mem.mpr fun ⟨i, frames⟩ hmem ↦ hfresh ?_⟩
  · obtain ⟨-, -, -, request, hrequest, -⟩ :=
      hshape.answered (h.collected _ (Calls.mem_readings.mp hmem))
    exact ⟨i, request, hshape.served _ hrequest⟩
  · obtain ⟨-, ⟨request, hrequest, -⟩, -⟩ :=
      hsourced.element (h.delivered _ (Network.mem_readings.mp hmem))
    exact ⟨i, request, hshape.served _ hrequest⟩

/-- A step of a server delivers nothing to clients. -/
theorem Tallying.serverStep (h : Tallying s) {a : Action n} (hstep : ServerStep config s a t) :
    Tallying t := by
  obtain ⟨hclients, -, -, hcollected, hdelivered⟩ := hstep.clients_eq
  refine
    { collected := fun m hm ↦ hstep.answers_subset m (h.collected m (hcollected ▸ hm))
      delivered := fun m hm ↦ hstep.elements_subset m (h.delivered m (hdelivered ▸ hm))
      clients := fun clientId ↦ ?_ }
  rw [hclients]
  refine (h.clients clientId).frame fun opNum phase _ ↦ ⟨?_, ?_⟩
  · rw [Calls.readings, Network.readings, hcollected]
    rfl
  · rw [Network.readings, hdelivered]
    rfl

/-- A turn keeps the counts if its client counts what was delivered to it. -/
theorem Tallying.takeTurn {clientId : CString} {turn : Turn n Client Phase}
    (hcollected : ∀ m ∈ s.calls.answers.delivered, m ∈ s.calls.answers.sent)
    (hdelivered : ∀ m ∈ s.elements.delivered, m ∈ s.elements.sent)
    (hothers : ∀ other, other ≠ clientId → Tallied s.calls s.elements other (s.clients other))
    (hclient : Tallied s.calls s.elements clientId turn.client) :
    Tallying (s.takeTurn clientId turn) where
  collected := fun m hm ↦ by
    have hanswers : (s.takeTurn clientId turn).calls.answers = s.calls.answers :=
      turn.answers_sendOn s.calls
    rw [hanswers] at hm ⊢
    exact hcollected m hm
  delivered := hdelivered
  clients := fun other ↦ Tallied.frame
    ((Function.forall_update_iff s.clients (Tallied s.calls s.elements)).mpr ⟨hclient, hothers⟩
      other) fun _ _ _ ↦ ⟨turn.readings_sendOn s.calls _, rfl⟩

/-- A step of a client keeps the counts. -/
theorem Tallying.clientStep (hshape : Shape config s) (hsourced : Sourced config s)
    (hnumbered : Numbered s) (h : Tallying s) {a : Action n} (hfresh : FreshNumbers s a)
    (hstep : ClientStep config s a t) : Tallying t := by
  have hinvoke : ∀ {clientId opNum} (operation : Operation),
      ¬ Invoked s.history clientId opNum →
        (s.calls.readings ⟨clientId, opNum, operation.getPhase⟩).length ≤ 0 := by
    intro clientId opNum operation hnew
    rw [(h.readings_eq_nil hshape hsourced fun hissued ↦ hnew (hnumbered.issued hissued)).1]
    exact le_rfl
  cases hstep with
  | write clientId opNum object payload hidle =>
    exact Tallying.takeTurn h.collected h.delivered (fun other _ ↦ h.clients other)
      (hinvoke (.write payload) hfresh)
  | read clientId opNum object hidle =>
    exact Tallying.takeTurn h.collected h.delivered (fun other _ ↦ h.clients other)
      (hinvoke .read hfresh)
  | receive i name frames turn hsent hturn =>
    refine Tallying.takeTurn (s := { s with calls := s.calls.collect (i, name, frames) })
      (fun m hm ↦ ?_) h.delivered (fun other hother ↦ ?_) ?_
    · rcases List.mem_cons.mp hm with rfl | hold
      · exact hsent
      · exact h.collected m hold
    · refine (h.clients other).frame fun _ _ _ ↦ ⟨?_, rfl⟩
      exact Calls.readings_collect_of_ne fun hname ↦ hother (congrArg CallId.client hname).symm
    · refine hturn.tallied (fun other hother ↦ ⟨?_, rfl⟩) ?_ (fun _ ↦ Nat.le_add_right _ _)
        (h.clients name.client)
      · exact Calls.readings_collect_of_ne hother.symm
      · rw [Calls.readings_collect_self, List.length_append, List.length_singleton]
  | receiveElement i name frames turn hsent hturn =>
    obtain ⟨clientId, opNum, phase⟩ := name
    obtain rfl : phase = .readValue := (hsourced.element hsent).1
    refine Tallying.takeTurn (s := { s with
      elements := s.elements.deliver (i, ⟨clientId, opNum, .readValue⟩, frames) })
      h.collected (fun m hm ↦ ?_) (fun other hother ↦ ?_) ?_
    · rcases List.mem_cons.mp hm with rfl | hold
      · exact hsent
      · exact h.delivered m hold
    · refine (h.clients other).frame fun _ _ _ ↦ ⟨rfl, ?_⟩
      exact Network.readings_deliver_of_ne fun hname ↦ hother (CallId.mk.inj hname).1.symm
    · refine hturn.tallied (fun other hother ↦ ⟨rfl, ?_⟩) (Nat.le_add_right _ _) (fun tagStr ↦ ?_)
        (h.clients clientId)
      · exact Network.readings_deliver_of_ne hother.symm
      · rw [received_deliver, List.length_append]
        split_ifs <;> simp
  | timeout clientId turn hturn =>
    refine Tallying.takeTurn h.collected h.delivered (fun other _ ↦ h.clients other)
      (hturn.tallied fun name content hcall ↦ h.readings_eq_nil hshape hsourced ?_)
    exact (hturn.opens (hnumbered.clients clientId) hcall).fresh

/-- In every run with fresh operation numbers the clients count what is delivered to them. -/
theorem Tallying.of_run {guard : State n → Action n → Prop}
    (hfresh : ∀ s a, guard s a → FreshNumbers s a)
    (run : Run (step config) guard State.initial s) : Tallying s :=
  run.invariant_reach tallying_initial fun _ _ _ hrun h hsa hstep ↦
    (step_cases hstep).elim
      (h.clientStep (Shape.of_run hrun) (Sourced.of_run hrun) (Numbered.of_run hfresh hrun)
        (hfresh _ _ hsa))
      h.serverStep

end Colas.Sodaw
