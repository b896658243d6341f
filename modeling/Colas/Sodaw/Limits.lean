import Colas.ServerFrames
import Colas.Sodaw.System

/-!
# Room in the buffers

The strings of a message are read into buffers of `BUFSIZE` bytes, and its number is an
`unsigned int`. `Fits` is what the steps of clients have to do with that: the ids and names with
which an operation starts fit, its number does, and the tag that a writer makes has a rendering that
fits. No other string enters the system from outside. `Limited` says that all that the messages, the
clients and the servers have fits, and it holds in every run of such steps (`Limited.of_run`). The
buffers in which a handler puts strings together, or copies the key of an object, are not among
these: a handler that overflows one has no result.
-/

set_option autoImplicit false
set_option relaxedAutoImplicit false

namespace Colas.Sodaw

open TransitionSystem

variable {n : ℕ}

/-- The entry of a registered reader fits. -/
structure RegReader.Fits (reader : RegReader) : Prop where
  readerId : FitsBuffer reader.readerId
  opnum : FitsUint reader.opnum
  tr : TagFits reader.tr

/-- The names and the tags that a client process has fit. -/
def Client.Fits (clientId : CString) : Client → Prop
  | .idle => True
  | .get opNum object _ _ tagList =>
    CallFits clientId opNum object ∧ ∀ tag ∈ tagList, TagFits tag
  | .writePut opNum object _ _ => CallFits clientId opNum object
  | .readValue opNum object readTag _ _ => CallFits clientId opNum object ∧ TagFits readTag
  | .exited => True

/-- If the client is a writer at the end of its first phase, the tag that it makes fits. -/
def Client.NewTagFits (strcmp : Strcmp) (clientId : CString) : Client → Prop
  | .get _ _ (.write _) _ tagList =>
    ∀ newTag ∈ (getMaxTag strcmp tagList).next clientId, TagFits newTag
  | _ => True

instance (strcmp : Strcmp) (clientId : CString) (client : Client) :
    Decidable (client.NewTagFits strcmp clientId) := by
  unfold Client.NewTagFits
  split <;> infer_instance

/-- Operations have names that fit, and writers make tags that do. -/
def Fits (config : Config n) (s : State n) : Action n → Prop
  | .invokeWrite clientId opNum object _ => CallFits clientId opNum object
  | .invokeRead clientId opNum object => CallFits clientId opNum object
  | .timeout clientId => (s.clients clientId).NewTagFits config.strcmp clientId
  | _ => True

/-- All that the state has fits. -/
structure Limited (config : Config n) (s : State n) : Prop where
  clients : ∀ clientId, (s.clients clientId).Fits clientId
  requested : ∀ {i name frames}, (i, name, frames) ∈ s.calls.requests.sent →
    RequestFits name frames
  answered : ∀ {i name frames}, (i, name, frames) ∈ s.calls.answers.sent → AnswerFits name frames
  element : ∀ {i name frames}, (i, name, frames) ∈ s.elements.sent → AnswerFits name frames
  noticed : ∀ {i j notice}, (i, j, notice) ∈ s.disperses.sent → NoticeFits notice
  stored : ∀ object i, TagFits (s.storedTag config object i)
  reading : ∀ {i key reader}, (s.servers i).tables.readingTable.lookup key = some reader →
    reader.Fits

/-! ### Turns of clients -/

/-- The client after a turn fits, and the requests that it sends do. -/
structure TurnFits (clientId : CString) (turn : Turn n Client Phase) : Prop where
  client : turn.client.Fits clientId
  multicast : ∀ {name content}, turn.multicast = some (name, content) →
    ∀ i, RequestFits name (content i)

/-- A request of an operation with names that fit, if its tag does or its phase has none. -/
theorem RequestFits.of_call {clientId object : CString} {opNum : ℕ}
    (h : CallFits clientId opNum object) {phase : Phase} {tag : CString} {payload : Frame}
    (htag : phase.CarriesTag → FitsBuffer tag) :
    RequestFits ⟨clientId, opNum, phase⟩ ⟨object, tag, payload⟩ :=
  ⟨h.client, h.opnum, h.object, htag⟩

theorem turnFits_sodawWrite {clientId object : CString} {opNum : ℕ}
    (h : CallFits clientId opNum object) (payload : Frame) :
    TurnFits clientId (sodawWrite (n := n) clientId opNum object payload) := by
  refine ⟨⟨h, List.forall_mem_nil _⟩, ?_⟩
  rintro name content ⟨⟩ i
  exact RequestFits.of_call h fun hcarries ↦ absurd hcarries not_carriesTag_get.1

theorem turnFits_sodawRead {clientId object : CString} {opNum : ℕ}
    (h : CallFits clientId opNum object) :
    TurnFits clientId (sodawRead (n := n) clientId opNum object) := by
  refine ⟨⟨h, List.forall_mem_nil _⟩, ?_⟩
  rintro name content ⟨⟩ i
  exact RequestFits.of_call h fun hcarries ↦ absurd hcarries not_carriesTag_get.2

/-- A turn on a message whose tag fits. -/
theorem Receives.fits {clientId : CString} {round : ℕ} {phase : Phase} {frames : Body}
    {client : Client} {turn : Turn n Client Phase}
    (h : Receives clientId round frames phase client turn) (hclient : client.Fits clientId)
    (htag : TagFits frames.tagValue) : TurnFits clientId turn := by
  cases h with
  | stale => exact ⟨hclient, by rintro name content ⟨⟩⟩
  | countTag =>
    refine ⟨⟨hclient.1, fun tag hmem ↦ ?_⟩, by rintro name content ⟨⟩⟩
    rcases List.mem_append.mp hmem with hold | hnew
    · exact hclient.2 tag hold
    · rwa [List.mem_singleton.mp hnew]
  | countAck => exact ⟨hclient, by rintro name content ⟨⟩⟩
  | complete => exact ⟨trivial, by rintro name content ⟨⟩⟩
  | collect => exact ⟨hclient, by rintro name content ⟨⟩⟩
  | decide => exact ⟨hclient, by rintro name content ⟨⟩⟩

/-- The turn at the end of a loop. -/
theorem TimesOut.fits {config : Config n} {clientId : CString} {client : Client}
    {turn : Turn n Client Phase} (h : TimesOut config clientId client turn)
    (hnonneg : client.Nonneg) (hclient : client.Fits clientId)
    (hnew : client.NewTagFits config.strcmp clientId) : TurnFits clientId turn := by
  cases h with
  | startWrite hmany hnext =>
    refine ⟨hclient.1, ?_⟩
    rintro name content ⟨⟩ i
    exact RequestFits.of_call hclient.1 fun _ ↦ hnew _ hnext
  | startRead hmany =>
    have hmax := hclient.2 _ (getMaxTag_mem_of_nonneg config.strcmp hnonneg hmany)
    refine ⟨⟨hclient.1, hmax⟩, ?_⟩
    rintro name content ⟨⟩ i
    exact RequestFits.of_call hclient.1 fun _ ↦ hmax
  | decoded =>
    refine ⟨trivial, ?_⟩
    rintro name content ⟨⟩ i
    exact RequestFits.of_call hclient.1 fun _ ↦ hclient.2
  | failed => exact ⟨trivial, by rintro name content ⟨⟩⟩

/-! ### What a server sends -/

section Handles

variable {strcmp : Strcmp} {args : ServerArgs} {version version' : CString → Tag × Frame}
  {tables tables' : Tables} {name : CallId Phase} {request : Body} {output : Output}

/-- The tag of a request that has one fits. -/
theorem RequestFits.tagValue (h : RequestFits name request) (hcarries : name.phase.CarriesTag)
    (htag : request.tag = tagToString request.tagValue) : TagFits request.tagValue := by
  rw [TagFits, ← htag]
  exact h.tag hcarries

theorem Handles.fits_version
    (h : Handles strcmp args version tables name request version' tables' output)
    (hversion : ∀ object, TagFits (version object).1) (hrequest : RequestFits name request)
    (htag : name.phase.CarriesTag → request.tag = tagToString request.tagValue)
    (object : CString) : TagFits (version' object).1 := by
  cases h with
  | adopt hphase hlt =>
    have hcarries : name.phase.CarriesTag := Or.inl hphase
    by_cases hobject : object = request.object
    · subst hobject
      rw [Function.update_self]
      exact hrequest.tagValue hcarries (htag hcarries)
    · rw [Function.update_of_ne hobject]
      exact hversion object
  | _ => exact hversion object

theorem Handles.fits_reading
    (h : Handles strcmp args version tables name request version' tables' output)
    (hreading : ∀ {key reader}, tables.readingTable.lookup key = some reader → reader.Fits)
    (hrequest : RequestFits name request)
    (htag : name.phase.CarriesTag → request.tag = tagToString request.tagValue) {key : CString}
    {reader : RegReader} (hreader : tables'.readingTable.lookup key = some reader) :
    reader.Fits := by
  obtain hold | ⟨hphase, -, rfl⟩ := h.reading hreader
  · exact hreading hold
  · have hcarries : name.phase.CarriesTag := Or.inr (Or.inl hphase)
    exact ⟨hrequest.client, hrequest.opnum, hrequest.tagValue hcarries (htag hcarries)⟩

theorem Handles.fits_response
    (h : Handles strcmp args version tables name request version' tables' output)
    (hversion : ∀ object, TagFits (version object).1) (hrequest : RequestFits name request)
    {response : Body} (hresponse : output.response = some response) :
    AnswerFits name response := by
  have hcall := CallFits.mk hrequest.client hrequest.opnum hrequest.object
  cases h with
  | report =>
    obtain rfl := Option.some.inj hresponse
    exact ⟨hcall, hversion request.object⟩
  | refuse hphase =>
    obtain rfl := Option.some.inj hresponse
    exact ⟨hcall, hrequest.tag (Or.inl hphase)⟩
  | adopt hphase =>
    obtain rfl := Option.some.inj hresponse
    exact ⟨hcall, hrequest.tag (Or.inl hphase)⟩
  | _ => cases hresponse

theorem Handles.fits_elements
    (h : Handles strcmp args version tables name request version' tables' output)
    (hversion : ∀ object, TagFits (version object).1)
    (hreading : ∀ {key reader}, tables.readingTable.lookup key = some reader → reader.Fits)
    (hrequest : RequestFits name request)
    (htag : name.phase.CarriesTag → request.tag = tagToString request.tagValue)
    {other : CallId Phase} {body : Body} (hmem : (other, body) ∈ output.elements) :
    AnswerFits other body := by
  cases h.sendsElement hmem with
  | relay key reader hphase hlt hreader hle =>
    have hcarries : name.phase.CarriesTag := Or.inl hphase
    have hfits := hreading hreader
    exact ⟨⟨hfits.readerId, hfits.opnum, hrequest.object⟩,
      hrequest.tagValue hcarries (htag hcarries)⟩
  | first => exact ⟨⟨hrequest.client, hrequest.opnum, hrequest.object⟩, hversion request.object⟩

theorem Handles.fits_disperses
    (h : Handles strcmp args version tables name request version' tables' output)
    (hserver : FitsBuffer args.serverId) (hversion : ∀ object, TagFits (version object).1)
    (hreading : ∀ {key reader}, tables.readingTable.lookup key = some reader → reader.Fits)
    (hrequest : RequestFits name request)
    (htag : name.phase.CarriesTag → request.tag = tagToString request.tagValue)
    {notice : Disperse} (hmem : notice ∈ output.disperses) : NoticeFits notice := by
  cases h with
  | adopt hphase =>
    obtain ⟨reader, ⟨⟨key, hreader⟩, -⟩, rfl⟩ := mem_relayed_disperses.mp hmem
    have hfits := hreading hreader
    exact ⟨hserver, hrequest.object, hrequest.tag (Or.inl hphase), hfits.readerId, hfits.tr,
      hfits.opnum⟩
  | serve hphase =>
    obtain rfl := List.mem_singleton.mp hmem
    have hcarries : name.phase.CarriesTag := Or.inr (Or.inl hphase)
    exact ⟨hserver, hrequest.object, hversion request.object, hrequest.client,
      hrequest.tagValue hcarries (htag hcarries), hrequest.opnum⟩
  | _ => exact absurd hmem List.not_mem_nil

end Handles

/-! ### The invariant -/

section Invariant

variable {config : Config n} {s t : State n}

theorem tagFits_initTag : TagFits initTag := by decide

theorem limited_initial : Limited config (State.initial : State n) where
  clients := fun _ ↦ trivial
  requested := fun h ↦ absurd h List.not_mem_nil
  answered := fun h ↦ absurd h List.not_mem_nil
  element := fun h ↦ absurd h List.not_mem_nil
  noticed := fun h ↦ absurd h List.not_mem_nil
  stored := fun object i ↦ by
    have hinit : (State.initial : State n).storedTag config object i = initTag := by
      simp [State.storedTag, State.initial, Server.version, Server.initial, contents]
    rw [hinit]
    exact tagFits_initTag
  reading := fun h ↦ by cases h

/-- A turn that fits. -/
theorem Limited.takeTurn (h : Limited config s) {clientId : CString} {turn : Turn n Client Phase}
    (hturn : TurnFits clientId turn) : Limited config (s.takeTurn clientId turn) where
  clients := (Function.forall_update_iff s.clients fun other client ↦ client.Fits other).mpr
    ⟨hturn.client, fun other _ ↦ h.clients other⟩
  requested := fun {i name frames} hmem ↦ by
    rcases (turn.mem_requests_sendOn s.calls).mp hmem with ⟨content, hcall, rfl⟩ | hold
    · exact hturn.multicast hcall i
    · exact h.requested hold
  answered := fun {i name frames} hmem ↦ by
    rw [(serversKept_takeTurn s clientId turn).answers] at hmem
    exact h.answered hmem
  element := h.element
  noticed := h.noticed
  stored := h.stored
  reading := h.reading

/-- A step of a client. -/
theorem Limited.clientStep (hshape : Shape config s) (h : Limited config s) {a : Action n}
    (hfits : Fits config s a) (hstep : ClientStep config s a t) : Limited config t := by
  cases hstep with
  | write clientId opNum object payload hidle =>
    exact h.takeTurn (turnFits_sodawWrite hfits payload)
  | read clientId opNum object hidle => exact h.takeTurn (turnFits_sodawRead hfits)
  | receive i name frames turn hsent hturn =>
    have hcollected : Limited config { s with calls := s.calls.collect (i, name, frames) } :=
      { h with }
    have htag := (h.answered hsent).tagValue (hshape.answered hsent).2.1
    exact hcollected.takeTurn (hturn.fits (h.clients name.client) htag)
  | receiveElement i name frames turn hsent hturn =>
    have hdelivered :
        Limited config { s with elements := s.elements.deliver (i, name, frames) } := { h with }
    have htag := (h.element hsent).tagValue (hshape.element hsent).1
    exact hdelivered.takeTurn (hturn.fits (h.clients name.client) htag)
  | timeout clientId turn hturn =>
    exact h.takeTurn (hturn.fits (hshape.clients clientId) (h.clients clientId) hfits)

/-- A step of a server whose id fits. -/
theorem Limited.serverMove (hshape : Shape config s) (h : Limited config s)
    (hserver : ∀ i, FitsBuffer (config.serverId i)) {a : Action n}
    (hmove : ServerMove config s a t) : Limited config t := by
  cases hmove with
  | serve i name frames server output hsent halive hwell hhandles =>
    have hrequest := h.requested hsent
    have htag := fun hcarries ↦ (hshape.requested hsent hcarries).1
    have hversion : ∀ object, TagFits ((s.servers i).version config.initData object).1 :=
      fun object ↦ h.stored object i
    refine
      { clients := h.clients
        requested := fun {j other body} hmem ↦ ?_
        answered := fun {j other body} hmem ↦ ?_
        element := fun {j other body} hmem ↦ ?_
        noticed := fun {j k notice} hmem ↦ ?_
        stored := fun object j ↦ ?_
        reading := fun {j key reader} hlookup ↦ ?_ }
    · rw [requests_sent_handle] at hmem
      exact h.requested hmem
    · rcases mem_answers_handle.mp hmem with ⟨rfl, rfl, hresponse⟩ | hold
      · exact hhandles.fits_response hversion hrequest hresponse
      · exact h.answered hold
    · rcases mem_elements_handle.mp hmem with ⟨rfl, hnew⟩ | hold
      · exact hhandles.fits_elements hversion h.reading hrequest htag hnew
      · exact h.element hold
    · rcases mem_disperses_handle.mp hmem with ⟨rfl, hnew⟩ | hold
      · exact hhandles.fits_disperses (hserver j) hversion h.reading hrequest htag hnew
      · exact h.noticed hold
    · rw [State.storedTag, servers_handle]
      split_ifs
      · exact hhandles.fits_version hversion hrequest htag object
      · exact h.stored object j
    · rw [servers_handle] at hlookup
      split_ifs at hlookup
      · exact hhandles.fits_reading h.reading hrequest htag hlookup
      · exact h.reading hlookup
  | serveNotice i j notice server hsent halive hwell hversion hhandles =>
    refine { h with stored := fun object k ↦ ?_, reading := fun {k key reader} hlookup ↦ ?_ }
    · rw [storedTag_handleNotice hversion]
      exact h.stored object k
    · rw [servers_handleNotice] at hlookup
      split_ifs at hlookup
      · exact h.reading (hhandles.reading hlookup)
      · exact h.reading hlookup
  | stop i => exact { h with }

/-- If the ids of the servers fit, so does everything in the runs of steps that fit. -/
theorem Limited.of_run {guard : State n → Action n → Prop}
    (hfits : ∀ s a, guard s a → Fits config s a) (hserver : ∀ i, FitsBuffer (config.serverId i))
    (run : Run (step config) guard State.initial s) : Limited config s := by
  refine run.invariant_reach limited_initial fun before a after hrun hlimited hguard hstep ↦ ?_
  have hshape := Shape.of_run hrun
  rcases step_cases hstep with hclient | hserverStep
  · exact hlimited.clientStep hshape (hfits before a hguard) hclient
  · exact hlimited.serverMove hshape hserver (hserverStep.move hshape)

end Invariant

end Colas.Sodaw
