import Colas.Sodaw.Elements
import Colas.Sodaw.Numbers
import Colas.Library.Quorum

/-!
# What a SODAW reader collects

In runs on one object a server sends the elements for one read under growing tags: the first one
when the reader registers, at most once, and one for each greater version that it adopts. So no two
elements for one read have both the same server and the same tag (`Distinct`), and the list that
makes a tag a majority at the reader has one frame from each of its servers (`Collecting`), although
the reader does not look at the server of an element. No element for a read has a smaller tag than
the reader has asked for, so the assertion of the reader does not fail.
-/

set_option autoImplicit false
set_option relaxedAutoImplicit false

namespace Colas.Sodaw

open TransitionSystem Quorum

variable {n : ℕ} {config : Config n} {object : CString} {s t : State n}

/-! ### One object -/

/-- Everything in the state is about one object. -/
structure About (object : CString) (s : State n) : Prop where
  requested : ∀ {i name frames}, (i, name, frames) ∈ s.calls.requests.sent →
    frames.object = object
  element : ∀ {i name frames}, (i, name, frames) ∈ s.elements.sent → frames.object = object
  clients : ∀ {clientId other}, (s.clients clientId).object = some other → other = object
  events : ∀ e ∈ s.history, e.object = object

theorem about_initial : About object (State.initial : State n) where
  requested := fun h ↦ absurd h List.not_mem_nil
  element := fun h ↦ absurd h List.not_mem_nil
  clients := fun h ↦ by cases h
  events := fun _ h ↦ absurd h List.not_mem_nil

/-- A turn that stays with the object keeps everything about it. -/
theorem About.takeTurn (h : About object s) {clientId : CString} {turn : Turn n Client Phase}
    (own : Option CString) (hown : ∀ other, own = some other → other = object)
    (hturn : StaysWith turn own) : About object (s.takeTurn clientId turn) where
  requested := fun {i name frames} hmem ↦ by
    rcases (turn.mem_requests_sendOn s.calls).mp hmem with ⟨content, hcall, rfl⟩ | hold
    · exact hown _ (hturn.multicast hcall i).symm
    · exact h.requested hold
  element := h.element
  clients := fun {other o} ↦ by
    refine (Function.forall_update_iff s.clients fun _ client ↦
      client.object = some o → o = object).mpr ⟨fun hself ↦ ?_, fun _ _ ↦ h.clients⟩ other
    rcases hturn.client with hsame | hnone
    · exact hown o (hsame.symm.trans hself)
    · rw [hnone] at hself
      cases hself
  events := forall_mem_history (fun _ hnew ↦ hown _ (hturn.event hnew).symm) h.events

/-- Every step on the object keeps everything about it. -/
theorem About.step (hshape : Shape config s) (h : About object s) {a : Action n}
    (hobject : OneObject object a) (hstep : step config s a = some t) : About object t := by
  rcases step_cases hstep with hclient | hserver
  · cases hclient with
    | write clientId opNum object' payload hidle =>
      refine h.takeTurn (some object') ?_ ⟨Or.inl rfl, by rintro _ _ ⟨⟩ _; rfl,
        by rintro _ ⟨⟩; rfl⟩
      rintro other ⟨⟩
      exact hobject
    | read clientId opNum object' hidle =>
      refine h.takeTurn (some object') ?_ ⟨Or.inl rfl, by rintro _ _ ⟨⟩ _; rfl,
        by rintro _ ⟨⟩; rfl⟩
      rintro other ⟨⟩
      exact hobject
    | receive i name frames turn hsent hturn =>
      have hcollected : About object { s with calls := s.calls.collect (i, name, frames) } :=
        { h with }
      exact hcollected.takeTurn _ (fun _ hother ↦ h.clients hother) hturn.staysWith
    | receiveElement i name frames turn hsent hturn =>
      have hdelivered : About object { s with elements := s.elements.deliver (i, name, frames) } :=
        { h with }
      exact hdelivered.takeTurn _ (fun _ hother ↦ h.clients hother) hturn.staysWith
    | timeout clientId turn hturn =>
      exact h.takeTurn _ (fun _ hother ↦ h.clients hother) hturn.staysWith
  · cases hserver.move hshape with
    | serve i name frames server output hsent halive hwell hhandles =>
      refine
        { requested := fun hmem ↦ by
            rw [requests_sent_handle] at hmem
            exact h.requested hmem
          element := fun {j other body} hmem ↦ ?_
          clients := h.clients
          events := h.events }
      rcases mem_elements_handle.mp hmem with ⟨-, hnew⟩ | hold
      · have hframes : frames.object = object := h.requested hsent
        cases hhandles.sendsElement hnew with
        | relay => exact hframes
        | first => exact hframes
      · exact h.element hold
    | serveNotice => exact { h with }
    | stop => exact { h with }

theorem About.of_run {guard : State n → Action n → Prop}
    (hobject : ∀ s a, guard s a → OneObject object a)
    (run : Run (Sodaw.step config) guard State.initial s) : About object s :=
  run.invariant_reach about_initial fun _ _ _ hrun h hsa hstep ↦
    h.step (Shape.of_run hrun) (hobject _ _ hsa) hstep

/-! ### Elements from one server have different tags -/

/-- What tells the elements for one read apart. -/
def elementKey (message : Fin n × CallId Phase × Body) : Fin n × CallId Phase × CString :=
  (message.1, message.2.1, message.2.2.tag)

/-- No server has sent two elements with the same tag for the same read. -/
def Distinct (s : State n) : Prop := (s.elements.sent.map elementKey).Nodup

/-- An element that a server sends on a request that it handles for the first time differs from
those that it has sent before. -/
theorem elementKey_ne (hshape : Shape config s) (hsourced : Sourced config s)
    (habout : About object s) (hnumbered : Numbered s) {i : Fin n} {name : CallId Phase}
    {frames : Body} (hsent : (i, name, frames) ∈ s.calls.requests.sent)
    (honce : name.phase = .readValue → (i, name, frames) ∉ s.calls.requests.delivered)
    {other : CallId Phase} {body : Body}
    (hsends : SendsElement ((s.servers i).version config.initData) (s.servers i).tables name frames
      other body) {m : Fin n × CallId Phase × Body} (hm : m ∈ s.elements.sent) :
    elementKey (i, other, body) ≠ elementKey m := by
  intro heq
  obtain ⟨j, name', old⟩ := m
  obtain ⟨rfl, rfl, htag⟩ : i = j ∧ other = name' ∧ body.tag = old.tag := by
    simpa [elementKey] using heq
  obtain ⟨-, ⟨request, hrequest, -⟩, hstored⟩ := hsourced.element hm
  cases hsends with
  | relay key reader hphase hlt hreader hle =>
    have hold : old.tagValue = frames.tagValue := by rw [Body.tagValue, ← htag]; simp
    rw [hold, habout.element hm, ← habout.requested hsent] at hstored
    exact absurd hlt (not_lt.mpr hstored)
  | first hphase hfresh hle =>
    refine honce hphase ?_
    obtain ⟨clientId, opNum, phase⟩ := name
    obtain rfl : phase = .readValue := hphase
    rwa [hnumbered.unique hsent (hshape.served _ hrequest)]

/-- A step of a server keeps its elements apart. -/
theorem Distinct.serverMove (hshape : Shape config s) (hsourced : Sourced config s)
    (habout : About object s) (hnumbered : Numbered s) (h : Distinct s) {a : Action n}
    (honce : ReadsOnce s a) (hmove : ServerMove config s a t) : Distinct t := by
  cases hmove with
  | serve i name frames server output hsent halive hwell hhandles =>
    have hnames := hhandles.nodup_names fun key reader hreader ↦
      (hsourced.registered hreader).1
    have hnew : ((output.elements.map fun element ↦ (i, element)).map elementKey).Nodup := by
      refine List.Nodup.of_map (fun key ↦ key.2.1) ?_
      simpa [elementKey, Function.comp_def] using hnames
    rw [Distinct, State.handle, Network.sent_send, List.map_append]
    refine List.Nodup.append hnew h fun key hkey hkey' ↦ ?_
    obtain ⟨message, hmessage, rfl⟩ := List.mem_map.mp hkey
    obtain ⟨⟨other, body⟩, hmem, rfl⟩ := List.mem_map.mp hmessage
    obtain ⟨m, hm, heq⟩ := List.mem_map.mp hkey'
    exact elementKey_ne hshape hsourced habout hnumbered hsent honce (hhandles.sendsElement hmem)
      hm heq.symm
  | serveNotice => exact h
  | stop => exact h

theorem distinct_initial : Distinct (State.initial : State n) := List.nodup_nil

theorem Distinct.of_run {guard : State n → Action n → Prop}
    (hfresh : ∀ s a, guard s a → FreshNumbers s a) (hobject : ∀ s a, guard s a → OneObject object a)
    (honce : ∀ s a, guard s a → ReadsOnce s a)
    (run : Run (step config) guard State.initial s) : Distinct s := by
  refine run.invariant_reach distinct_initial fun s a t hrun h hsa hstep ↦ ?_
  have hshape := Shape.of_run hrun
  rcases step_cases hstep with hclient | hserver
  · rwa [Distinct, hclient.serversKept.elements]
  · exact h.serverMove hshape (Sourced.of_run hrun) (About.of_run hobject hrun)
      (Numbered.of_run hfresh hrun) (honce _ _ hsa) (hserver.move hshape)

/-! ### The lists of a reader -/

/-- The elements for a read with a tag that have been delivered, oldest first. -/
def received (elements : Network (Fin n × CallId Phase × Body)) (clientId : CString) (opNum : ℕ)
    (tagStr : CString) : List (Fin n × Body) :=
  (elements.readings ⟨clientId, opNum, .readValue⟩).filter fun r ↦ r.2.tag = tagStr

/-- The frames are those of elements with the tag for the read, from different servers. -/
def FromServers (elements : Network (Fin n × CallId Phase × Body)) (clientId : CString)
    (opNum : ℕ) (tagStr : CString) (frames : List Frame) : Prop :=
  ∃ sources : List (Fin n × Body), frames = sources.map (fun m ↦ m.2.payload) ∧
    (sources.map Prod.fst).Nodup ∧
    ∀ m ∈ sources, (m.1, ⟨clientId, opNum, .readValue⟩, m.2) ∈ elements.delivered ∧
      m.2.tag = tagStr

/-- What the lists of a reader hold: before a tag has a majority, everything that was delivered; and
afterwards, under that tag, frames from a majority of servers. -/
def ReaderKnows (elements : Network (Fin n × CallId Phase × Body)) (history : List Event)
    (clientId : CString) : Client → Prop
  | .readValue opNum _ _ recvDataset none => ∀ tagStr,
    dataList recvDataset tagStr =
        (received elements clientId opNum tagStr).map (fun m ↦ m.2.payload) ∧
      (dataList recvDataset tagStr).length < majority n
  | .readValue opNum object _ recvDataset (some decodeableKey) =>
    FromServers elements clientId opNum decodeableKey (dataList recvDataset decodeableKey) ∧
      (dataList recvDataset decodeableKey).length = majority n ∧
      ∃ tag, decodeableKey = tagToString tag ∧
        .readTagged clientId opNum object tag none ∈ history
  | _ => True

/-- What the events of a read rest on: the elements of a majority. -/
def Decoded (sent : List (Fin n × CallId Phase × Body)) (history : List Event) : Event → Prop
  | .readTagged clientId opNum _ tag _ =>
    ReportedByMajority sent ⟨clientId, opNum, .readValue⟩ fun _ frames ↦ frames.tagValue = tag
  | .readCompleted clientId opNum object tag _ =>
    .readTagged clientId opNum object tag none ∈ history
  | _ => True

/-- What holds of readers in every run on one object under `Guard`. -/
structure Collecting (s : State n) : Prop where
  /-- Only elements that were sent are delivered. -/
  delivered : ∀ m ∈ s.elements.delivered, m ∈ s.elements.sent
  /-- No element is delivered twice. -/
  once : s.elements.delivered.Nodup
  /-- The readers collect frames from different servers. -/
  clients : ∀ clientId, ReaderKnows s.elements s.history clientId (s.clients clientId)
  /-- The events of reads rest on the elements of majorities. -/
  events : ∀ e ∈ s.history, Decoded s.elements.sent s.history e

theorem dataList_insert (recvDataset : ZHash (List Frame)) (tagStr other : CString)
    (frames : List Frame) : dataList (recvDataset.insert tagStr frames) other =
      if other = tagStr then frames else dataList recvDataset other := by
  unfold dataList
  split_ifs with hother
  · subst hother
    rw [AList.lookup_insert]
    rfl
  · rw [AList.lookup_insert_ne hother]

theorem mem_received {elements : Network (Fin n × CallId Phase × Body)} {clientId : CString}
    {opNum : ℕ} {tagStr : CString} {m : Fin n × Body} :
    m ∈ received elements clientId opNum tagStr ↔
      (m.1, ⟨clientId, opNum, .readValue⟩, m.2) ∈ elements.delivered ∧ m.2.tag = tagStr := by
  rw [received, List.mem_filter, decide_eq_true_eq, ← Network.mem_readings]

/-- The elements that a read has received with one tag are from different servers. -/
theorem Distinct.fromServers (h : Distinct s)
    {elements : Network (Fin n × CallId Phase × Body)}
    (hdelivered : ∀ m ∈ elements.delivered, m ∈ s.elements.sent)
    (honce : elements.delivered.Nodup) (clientId : CString) (opNum : ℕ) (tagStr : CString) :
    FromServers elements clientId opNum tagStr
      ((received elements clientId opNum tagStr).map fun m ↦ m.2.payload) := by
  refine ⟨_, rfl, ?_, fun m hm ↦ mem_received.mp hm⟩
  have hnodup : (received elements clientId opNum tagStr).Nodup :=
    List.Nodup.filter _ (Network.nodup_readings honce)
  refine hnodup.map_on fun x hx y hy hserver ↦ ?_
  obtain ⟨hx, hxtag⟩ := mem_received.mp hx
  obtain ⟨hy, hytag⟩ := mem_received.mp hy
  have hkey : elementKey (x.1, (⟨clientId, opNum, .readValue⟩ : CallId Phase), x.2) =
      elementKey (y.1, ⟨clientId, opNum, .readValue⟩, y.2) := by
    simp [elementKey, hserver, hxtag, hytag]
  have hsame := List.inj_on_of_nodup_map h (hdelivered _ hx) (hdelivered _ hy) hkey
  exact Prod.ext hserver (congrArg (fun m ↦ m.2.2) hsame)

theorem FromServers.mono {elements elements' : Network (Fin n × CallId Phase × Body)}
    {clientId : CString} {opNum : ℕ} {tagStr : CString} {frames : List Frame}
    (h : FromServers elements clientId opNum tagStr frames)
    (hsub : ∀ m ∈ elements.delivered, m ∈ elements'.delivered) :
    FromServers elements' clientId opNum tagStr frames := by
  obtain ⟨sources, hframes, hnodup, hmem⟩ := h
  exact ⟨sources, hframes, hnodup, fun m hm ↦ ⟨hsub _ (hmem m hm).1, (hmem m hm).2⟩⟩

/-- The lists depend only on the elements that a reader counts, unless it has enough. -/
theorem ReaderKnows.frame {elements elements' : Network (Fin n × CallId Phase × Body)}
    {history history' : List Event} {clientId : CString} {client : Client}
    (h : ReaderKnows elements history clientId client)
    (hsub : ∀ m ∈ elements.delivered, m ∈ elements'.delivered)
    (hreadings : ∀ opNum, client.awaits = some (opNum, .readValue) →
      elements'.readings ⟨clientId, opNum, .readValue⟩ =
        elements.readings ⟨clientId, opNum, .readValue⟩)
    (hhistory : history ⊆ history') : ReaderKnows elements' history' clientId client := by
  cases client with
  | readValue opNum object readTag recvDataset decodeableKey =>
    cases decodeableKey with
    | none =>
      intro tagStr
      rw [received, hreadings opNum rfl]
      exact h tagStr
    | some decodeableKey =>
      obtain ⟨hfrom, hlength, tag, hkey, hmem⟩ := h
      exact ⟨hfrom.mono hsub, hlength, tag, hkey, hhistory hmem⟩
  | _ => trivial

/-- Delivering an element to a reader appends it to those with its tag. -/
theorem received_deliver (elements : Network (Fin n × CallId Phase × Body)) (i : Fin n)
    (clientId : CString) (opNum : ℕ) (frames : Body) (tagStr : CString) :
    received (elements.deliver (i, ⟨clientId, opNum, .readValue⟩, frames)) clientId opNum tagStr =
      received elements clientId opNum tagStr ++
        if tagStr = frames.tag then [(i, frames)] else [] := by
  rw [received, Network.readings_deliver_self, List.filter_append]
  by_cases htag : tagStr = frames.tag
  · subst htag
    simp [received]
  · simp [received, htag, Ne.symm htag]

theorem collecting_initial : Collecting (State.initial : State n) where
  delivered := fun _ h ↦ absurd h List.not_mem_nil
  once := List.nodup_nil
  clients := fun _ ↦ trivial
  events := fun _ h ↦ absurd h List.not_mem_nil

theorem Decoded.mono {sent sent' : List (Fin n × CallId Phase × Body)}
    {history history' : List Event} {e : Event} (h : Decoded sent history e)
    (hsent : ∀ m ∈ sent, m ∈ sent') (hsub : history ⊆ history') : Decoded sent' history' e := by
  cases e with
  | readTagged => exact ReportedByMajority.mono h hsent fun _ _ _ hP ↦ hP
  | readCompleted => exact hsub h
  | _ => trivial

/-- A step of a server keeps what readers know. -/
theorem Collecting.serverStep (h : Collecting s) {a : Action n} (hstep : ServerStep config s a t) :
    Collecting t := by
  obtain ⟨hclients, hhistory, -, -, hdelivered⟩ := hstep.clients_eq
  have hgrow := hstep.elements_subset
  refine
    { delivered := fun m hm ↦ hgrow m (h.delivered m (hdelivered ▸ hm))
      once := hdelivered ▸ h.once
      clients := fun clientId ↦ ?_
      events := fun e he ↦ ?_ }
  · rw [hclients, hhistory]
    refine (h.clients clientId).frame (fun m hm ↦ hdelivered ▸ hm) (fun opNum _ ↦ ?_) fun _ he ↦ he
    rw [Network.readings, hdelivered]
    rfl
  · rw [hhistory] at he ⊢
    exact (h.events e he).mono hgrow fun _ he ↦ he

/-- A turn keeps what readers know if its client and its event rest on the elements. -/
theorem Collecting.takeTurn (hdelivered : ∀ m ∈ s.elements.delivered, m ∈ s.elements.sent)
    (honce : s.elements.delivered.Nodup) {clientId : CString} {turn : Turn n Client Phase}
    (hothers : ∀ other, other ≠ clientId →
      ReaderKnows s.elements s.history other (s.clients other))
    (hevents : ∀ e ∈ s.history, Decoded s.elements.sent s.history e)
    (hclient : ReaderKnows s.elements (turn.event.toList ++ s.history) clientId turn.client)
    (hevent : ∀ e, turn.event = some e → Decoded s.elements.sent s.history e) :
    Collecting (s.takeTurn clientId turn) where
  delivered := hdelivered
  once := honce
  clients := (Function.forall_update_iff s.clients
    (ReaderKnows s.elements (turn.event.toList ++ s.history))).mpr ⟨hclient, fun other hother ↦
      (hothers other hother).frame (fun _ hm ↦ hm) (fun _ _ ↦ rfl)
        (List.subset_append_right _ _)⟩
  events := fun e he ↦
    (forall_mem_history hevent hevents e he).mono (fun _ hm ↦ hm) (List.subset_append_right _ _)

/-- A turn on a response, which is not an element, keeps what the reader knows. -/
theorem Receives.readerKnows {elements : Network (Fin n × CallId Phase × Body)}
    {history : List Event} {clientId : CString} {opNum : ℕ} {phase : Phase} {frames : Body}
    {client : Client} {turn : Turn n Client Phase}
    (hturn : Receives clientId opNum frames phase client turn) (hphase : phase ≠ .readValue)
    (hown : ReaderKnows elements history clientId client) :
    ReaderKnows elements (turn.event.toList ++ history) clientId turn.client ∧
      ∀ e, turn.event = some e → Decoded elements.sent history e := by
  cases hturn with
  | stale => exact ⟨hown, by rintro e ⟨⟩⟩
  | complete =>
    refine ⟨trivial, ?_⟩
    rintro e ⟨⟩
    trivial
  | collect => exact absurd rfl hphase
  | decide => exact absurd rfl hphase
  | _ => exact ⟨trivial, by rintro e ⟨⟩⟩

/-- What a turn on an element does to the lists of the reader. -/
theorem Receives.readerKnows_element (hshape : Shape config s) (hdistinct : Distinct s)
    {i : Fin n} {clientId : CString} {opNum : ℕ} {frames : Body} {client : Client}
    {turn : Turn n Client Phase}
    (hturn : Receives clientId opNum frames .readValue client turn)
    (hsent : (i, ⟨clientId, opNum, .readValue⟩, frames) ∈ s.elements.sent)
    (hdelivered : ∀ m ∈ (s.elements.deliver (i, ⟨clientId, opNum, .readValue⟩, frames)).delivered,
      m ∈ s.elements.sent)
    (honce : (s.elements.deliver (i, ⟨clientId, opNum, .readValue⟩, frames)).delivered.Nodup)
    (hown : ReaderKnows s.elements s.history clientId client) :
    ReaderKnows (s.elements.deliver (i, ⟨clientId, opNum, .readValue⟩, frames))
      (turn.event.toList ++ s.history) clientId turn.client ∧
        ∀ e, turn.event = some e → Decoded s.elements.sent s.history e := by
  generalize hphase : Phase.readValue = phase at hturn
  cases hturn with
  | stale hstale =>
    refine ⟨hown.frame (fun m hm ↦ List.mem_cons_of_mem _ hm) (fun opNum' hawaits ↦ ?_)
      fun _ he ↦ he, by rintro e ⟨⟩⟩
    refine Network.readings_deliver_of_ne fun hname ↦ hstale ?_
    obtain ⟨-, rfl, -⟩ := CallId.mk.inj hname
    rw [hawaits, hphase]
  | @countTag object operation => cases operation <;> cases hphase
  | countAck => cases hphase
  | complete => cases hphase
  | @collect object readTag recvDataset hle hfew =>
    refine ⟨fun tagStr ↦ ?_, by rintro e ⟨⟩⟩
    obtain ⟨hlist, hlength⟩ := hown tagStr
    rw [received_deliver, dataList_insert]
    split_ifs with htag
    · subst htag
      rw [List.map_append, ← hlist]
      exact ⟨rfl, by rw [List.length_append]; exact hfew⟩
    · rw [List.append_nil]
      exact ⟨hlist, hlength⟩
  | @decide object readTag recvDataset hle hmany =>
    obtain ⟨hlist, hlength⟩ := hown frames.tag
    have hkey := (hshape.element hsent).1
    have hframes : dataList (recvDataset.insert frames.tag
        (dataList recvDataset frames.tag ++ [frames.payload])) frames.tag =
          (received (s.elements.deliver (i, ⟨clientId, opNum, .readValue⟩, frames)) clientId opNum
            frames.tag).map fun m ↦ m.2.payload := by
      rw [dataList_insert, if_pos rfl, received_deliver, if_pos rfl, List.map_append, ← hlist]
      rfl
    have hfrom := hdistinct.fromServers hdelivered honce clientId opNum frames.tag
    rw [← hframes] at hfrom
    have hcount : (dataList (recvDataset.insert frames.tag
        (dataList recvDataset frames.tag ++ [frames.payload])) frames.tag).length =
          majority n := by
      rw [dataList_insert, if_pos rfl, List.length_append, List.length_singleton]
      omega
    refine ⟨⟨hfrom, hcount, frames.tagValue, hkey, List.mem_cons_self⟩, ?_⟩
    rintro e ⟨⟩
    obtain ⟨sources, heq, hnodup, hmem⟩ := hfrom
    have hmajority := lt_two_mul_majority n
    refine ReportedByMajority.of_messages hnodup ?_ fun m hm ↦ ⟨hdelivered _ (hmem m hm).1, ?_⟩
    · rw [Fintype.card_fin, ← List.length_map (f := fun m : Fin n × Body ↦ m.2.payload), ← heq,
        hcount]
      exact hmajority
    · rw [Body.tagValue, (hmem m hm).2, ← Body.tagValue]

/-- What a turn at the end of a loop does to the lists of the reader. -/
theorem TimesOut.readerKnows {clientId : CString} {client : Client} {turn : Turn n Client Phase}
    (hturn : TimesOut config clientId client turn)
    {elements : Network (Fin n × CallId Phase × Body)} {history : List Event}
    (hnew : ∀ opNum object responses tagList,
      client = .get opNum object .read responses tagList →
        ∀ i frames, (i, ⟨clientId, opNum, .readValue⟩, frames) ∉ elements.delivered)
    (hown : ReaderKnows elements history clientId client) :
    ReaderKnows elements (turn.event.toList ++ history) clientId turn.client ∧
      ∀ e, turn.event = some e → Decoded elements.sent history e := by
  cases hturn with
  | startWrite =>
    refine ⟨trivial, ?_⟩
    rintro e ⟨⟩
    trivial
  | @startRead opNum object responses tagList hmany =>
    refine ⟨fun tagStr ↦ ?_, by rintro e ⟨⟩⟩
    have hempty : received elements clientId opNum tagStr = [] :=
      List.eq_nil_iff_forall_not_mem.mpr fun m hm ↦
        hnew opNum object responses tagList rfl _ _ (mem_received.mp hm).1
    rw [hempty]
    exact ⟨rfl, majority_pos n⟩
  | @decoded opNum object readTag tag recvDataset decodeableKey info hdecode htag =>
    refine ⟨trivial, ?_⟩
    rintro e ⟨⟩
    obtain ⟨-, -, tag', rfl, hmem⟩ := hown
    rw [stringToTag_tagToString, Option.some.injEq] at htag
    subst htag
    exact hmem
  | failed => exact ⟨trivial, by rintro e ⟨⟩⟩

/-- A step of a client keeps what readers know. -/
theorem Collecting.clientStep (hshape : Shape config s) (hsourced : Sourced config s)
    (hnumbered : Numbered s) (hdistinct : Distinct s) (h : Collecting s) {a : Action n}
    (honce : ReadsOnce s a) (hstep : ClientStep config s a t) : Collecting t := by
  cases hstep with
  | write clientId opNum object payload hidle =>
    refine Collecting.takeTurn h.delivered h.once (fun other _ ↦ h.clients other) h.events trivial
      ?_
    rintro e ⟨⟩
    trivial
  | read clientId opNum object hidle =>
    refine Collecting.takeTurn h.delivered h.once (fun other _ ↦ h.clients other) h.events trivial
      ?_
    rintro e ⟨⟩
    trivial
  | receive i name frames turn hsent hturn =>
    obtain ⟨hown, hevent⟩ :=
      hturn.readerKnows (hshape.answered hsent).1 (h.clients name.client)
    exact Collecting.takeTurn (s := { s with calls := s.calls.collect (i, name, frames) })
      h.delivered h.once (fun other _ ↦ h.clients other) h.events hown hevent
  | receiveElement i name frames turn hsent hturn =>
    obtain ⟨clientId, opNum, phase⟩ := name
    obtain rfl : phase = .readValue := (hsourced.element hsent).1
    have hdelivered : ∀ m ∈ (s.elements.deliver
        (i, ⟨clientId, opNum, .readValue⟩, frames)).delivered, m ∈ s.elements.sent := by
      intro m hm
      rcases List.mem_cons.mp hm with rfl | hold
      · exact hsent
      · exact h.delivered m hold
    have honce := List.nodup_cons.mpr ⟨honce, h.once⟩
    obtain ⟨hown, hevent⟩ := hturn.readerKnows_element hshape hdistinct hsent hdelivered honce
      (h.clients clientId)
    refine Collecting.takeTurn (s := { s with
      elements := s.elements.deliver (i, ⟨clientId, opNum, .readValue⟩, frames) })
      hdelivered honce (fun other hother ↦ ?_) h.events hown hevent
    refine (h.clients other).frame (fun m hm ↦ List.mem_cons_of_mem _ hm) (fun opNum' _ ↦ ?_)
      fun _ he ↦ he
    exact Network.readings_deliver_of_ne fun hname ↦ hother (CallId.mk.inj hname).1.symm
  | timeout clientId turn hturn =>
    have hasked := hnumbered.clients clientId
    obtain ⟨hown, hevent⟩ := hturn.readerKnows
      (fun opNum object responses tagList hclient i frames hmem ↦ by
        rw [hclient] at hasked
        obtain ⟨-, -, hnot⟩ := hasked
        obtain ⟨-, ⟨request, hrequest, -⟩, -⟩ := hsourced.element (h.delivered _ hmem)
        exact hnot .readValue (by simp [Operation.getPhase])
          ⟨i, request, hshape.served _ hrequest⟩)
      (h.clients clientId)
    exact Collecting.takeTurn h.delivered h.once (fun other _ ↦ h.clients other) h.events hown
      hevent

/-- In every run on one object in which nothing about a read is delivered twice, the lists of the
readers have frames from different servers. -/
theorem Collecting.of_run {guard : State n → Action n → Prop}
    (hfresh : ∀ s a, guard s a → FreshNumbers s a) (hobject : ∀ s a, guard s a → OneObject object a)
    (honce : ∀ s a, guard s a → ReadsOnce s a)
    (run : Run (step config) guard State.initial s) : Collecting s :=
  run.invariant_reach collecting_initial fun _ _ _ hrun h hsa hstep ↦
    (step_cases hstep).elim
      (h.clientStep (Shape.of_run hrun) (Sourced.of_run hrun) (Numbered.of_run hfresh hrun)
        (Distinct.of_run hfresh hobject honce hrun) (honce _ _ hsa))
      h.serverStep

/-! ### What a reader accepts -/

/-- A reader accepts every element that was sent for its operation: the tag is not smaller than the
one that it has asked for, and the assertion holds. -/
def AcceptsElements (config : Config n) (s : State n) : Prop :=
  ∀ clientId opNum object readTag recvDataset i frames,
    s.clients clientId = .readValue opNum object readTag recvDataset none →
      (i, ⟨clientId, opNum, .readValue⟩, frames) ∈ s.elements.sent →
        readTag ≤ frames.tagValue ∧
          ∃ t, step config s (.receiveElement (i, ⟨clientId, opNum, .readValue⟩, frames)) = some t

/-- The list of the tag that a reader decodes has one frame from each of a majority of servers. -/
def DecodesFromServers (s : State n) : Prop :=
  ∀ clientId opNum object readTag recvDataset decodeableKey,
    s.clients clientId = .readValue opNum object readTag recvDataset (some decodeableKey) →
      ∃ sources : List (Fin n × Body),
        dataList recvDataset decodeableKey = sources.map (fun m ↦ m.2.payload) ∧
          sources.length = majority n ∧ (sources.map Prod.fst).Nodup ∧
          ∀ m ∈ sources, (m.1, ⟨clientId, opNum, .readValue⟩, m.2) ∈ s.elements.sent ∧
            m.2.tag = decodeableKey

theorem Collecting.decodesFromServers (h : Collecting s) : DecodesFromServers s := by
  intro clientId opNum object readTag recvDataset decodeableKey hclient
  have hown := h.clients clientId
  rw [hclient] at hown
  obtain ⟨⟨sources, hframes, hnodup, hmem⟩, hlength, -⟩ := hown
  refine ⟨sources, hframes, ?_, hnodup, fun m hm ↦ ⟨h.delivered _ (hmem m hm).1, (hmem m hm).2⟩⟩
  rw [← hlength, hframes, List.length_map]

/-- A reader has asked for its tag, so the elements for its operation have no smaller one. -/
theorem acceptsElements (hshape : Shape config s) (hsourced : Sourced config s)
    (hnumbered : Numbered s) : AcceptsElements config s := by
  intro clientId opNum object readTag recvDataset i frames hclient hsent
  have hasked := hnumbered.clients clientId
  rw [hclient] at hasked
  obtain ⟨-, ⟨request, hrequest, hle⟩, -⟩ := hsourced.element hsent
  obtain ⟨-, htag⟩ := hasked.2.1.of_mem hnumbered (hshape.served _ hrequest)
  rw [htag] at hle
  refine ⟨hle, ?_⟩
  have hparse := parse_rendered (hshape.element hsent).1
  have hassert := (compareTags_nonneg_iff config.strcmp _ _).mpr hle
  by_cases hmany : majority n ≤ (dataList recvDataset frames.tag).length + 1 <;>
    simp [step, hsent, hclient, Client.receive, sodawReadValue, hparse, hassert, hmany]

/-- In every run on one object with fresh operation numbers, in which no `READ_VALUE` is handled
twice and no element is delivered twice, the assertion of the readers holds for every element, no
server sends two elements with one tag for the same operation of a reader, and the elements that a
reader decodes come from as many servers. -/
theorem elements_from_servers (run : Run (step config)
      (fun s a ↦ FreshNumbers s a ∧ OneObject object a ∧ ReadsOnce s a) State.initial s) :
    AcceptsElements config s ∧ Distinct s ∧ DecodesFromServers s := by
  have hfresh : ∀ (s : State n) a, FreshNumbers s a ∧ OneObject object a ∧ ReadsOnce s a →
    FreshNumbers s a := fun _ _ h ↦ h.1
  have hobject : ∀ (s : State n) a, FreshNumbers s a ∧ OneObject object a ∧ ReadsOnce s a →
    OneObject object a := fun _ _ h ↦ h.2.1
  have honce : ∀ (s : State n) a, FreshNumbers s a ∧ OneObject object a ∧ ReadsOnce s a →
    ReadsOnce s a := fun _ _ h ↦ h.2.2
  exact ⟨acceptsElements (Shape.of_run run) (Sourced.of_run run) (Numbered.of_run hfresh run),
    Distinct.of_run hfresh hobject honce run,
    (Collecting.of_run hfresh hobject honce run).decodesFromServers⟩

/-- In the run on three servers the reader decodes the elements of the first two. -/
theorem elements_from_servers_sample : ∃ s : State 3,
    s.elements.sent.map elementKey =
        [(1, ⟨ascii ['r'], 1, .readValue⟩, tagToString ⟨1, ascii ['w']⟩),
          (0, ⟨ascii ['r'], 1, .readValue⟩, tagToString ⟨1, ascii ['w']⟩)] ∧
      AcceptsElements (sampleConfig 3) s ∧ Distinct s ∧ DecodesFromServers s := by
  have hkeys : (execute (step (sampleConfig 3))
      (fun s a ↦ FreshNumbers s a ∧ OneObject (ascii ['o']) a ∧ ReadsOnce s a) State.initial
      (sampleWrite [1, 2, 3, 4] ++ sampleRead [1, 2, 3, 4])).map
        (fun s ↦ s.elements.sent.map elementKey) =
      some [(1, ⟨ascii ['r'], 1, .readValue⟩, tagToString ⟨1, ascii ['w']⟩),
        (0, ⟨ascii ['r'], 1, .readValue⟩, tagToString ⟨1, ascii ['w']⟩)] := by
    decide +kernel
  obtain ⟨s, hexecute, hs⟩ := Option.map_eq_some_iff.mp hkeys
  exact ⟨s, hs, elements_from_servers (run_of_execute hexecute)⟩

end Colas.Sodaw
