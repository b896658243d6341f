import Colas.Sodaw.Readers

/-!
# Objects of the SODAW register

Versions are stored by object, but the readers that are registered at a server are not: a
`WRITE_PUT` is relayed to every registered reader that has asked for a smaller tag, whatever object
the reader reads, and the reader does not look at the object of an element. `leaked_element` is a
run in which a read of one object decodes the tag and the payload of a write to another object.

`isolated_of_run` says when objects are kept apart: in every run in which a server that adopts a
`WRITE_PUT` finds only readers of its object among those that it relays to, every element was stored
or received for the object of the `READ_VALUE` that it answers, and so was everything that a reader
collects. Messages may be delivered as often as the adversary likes, but a client that used a number
twice could take an element of its earlier read for one of the later read.
-/

set_option autoImplicit false
set_option relaxedAutoImplicit false

namespace Colas.Sodaw

open TransitionSystem

variable {n : ℕ} {config : Config n} {s t : State n}

/-- The server stores the version of the object from the start, or has received it for the object
in a `WRITE_PUT`. -/
def ForObject (config : Config n) (s : State n) (i : Fin n) (object tagStr : CString)
    (payload : Frame) : Prop :=
  (tagStr = tagToString initTag ∧ payload = config.initData) ∨
    ∃ name request, name.phase = .writePut ∧
      (i, name, request) ∈ s.calls.requests.delivered ∧ request.object = object ∧
        request.tag = tagStr ∧ request.payload = payload

/-- Elements answer a `READ_VALUE` about their object, and what a reader has collected belongs to
the object that it reads. -/
structure Isolated (config : Config n) (s : State n) : Prop where
  element : ∀ {i name frames}, (i, name, frames) ∈ s.elements.sent →
    ∀ {j request}, (j, name, request) ∈ s.calls.requests.sent →
      frames.object = request.object ∧
        ForObject config s i request.object frames.tag frames.payload
  reader : ∀ {clientId opNum object readTag recvDataset decodeableKey},
    s.clients clientId = .readValue opNum object readTag recvDataset decodeableKey →
      ∀ tagStr, ∀ payload ∈ dataList recvDataset tagStr,
        ∃ i, ForObject config s i object tagStr payload

/-- The readers to which a server relays a `WRITE_PUT` that it adopts have registered for its
object. -/
def RelaysOwnObject (config : Config n) (s : State n) : Action n → Prop
  | .serve (i, name, frames) => name.phase = .writePut →
    s.storedTag config frames.object i < frames.tagValue →
      ∀ reader ∈ (s.servers i).tables.relayTargets config.strcmp frames.tagValue,
        ∀ m ∈ s.calls.requests.sent, m.1 = i →
          m.2.1 = ⟨reader.readerId, reader.opnum, .readValue⟩ → m.2.2.object = frames.object
  | _ => True

instance (s : State n) : (a : Action n) → Decidable (RelaysOwnObject config s a)
  | .serve (i, name, frames) => inferInstanceAs (Decidable (name.phase = .writePut →
    s.storedTag config frames.object i < frames.tagValue →
      ∀ reader ∈ (s.servers i).tables.relayTargets config.strcmp frames.tagValue,
        ∀ m ∈ s.calls.requests.sent, m.1 = i →
          m.2.1 = ⟨reader.readerId, reader.opnum, .readValue⟩ → m.2.2.object = frames.object))
  | .invokeWrite .. | .invokeRead .. | .serveNotice _ | .receive _ | .receiveElement _
  | .timeout _ | .stop _ => inferInstanceAs (Decidable True)

/-! ### What servers store and send -/

theorem ForObject.mono {i : Fin n} {object tagStr : CString} {payload : Frame}
    (h : ForObject config s i object tagStr payload)
    (hsub : ∀ m ∈ s.calls.requests.delivered, m ∈ t.calls.requests.delivered) :
    ForObject config t i object tagStr payload := by
  rcases h with hinit | ⟨name, request, hphase, hmem, hrest⟩
  · exact Or.inl hinit
  · exact Or.inr ⟨name, request, hphase, hsub _ hmem, hrest⟩

/-- Versions and elements are for their objects. -/
structure Filed (config : Config n) (s : State n) : Prop where
  /-- A stored version is for its object. -/
  stored : ∀ object i, ForObject config s i object
    (tagToString ((s.servers i).version config.initData object).1)
    ((s.servers i).version config.initData object).2
  /-- An element answers a `READ_VALUE` about its object, and is for it. -/
  element : ∀ {i name frames}, (i, name, frames) ∈ s.elements.sent →
    (∃ request, (i, name, request) ∈ s.calls.requests.delivered ∧
      request.object = frames.object) ∧
    ForObject config s i frames.object frames.tag frames.payload

theorem filed_initial : Filed config (State.initial : State n) where
  stored := fun object i ↦ Or.inl <| by
    simp [State.initial, Server.version, Server.initial, contents]
  element := fun h ↦ absurd h List.not_mem_nil

/-- A step of a client files nothing. -/
theorem Filed.serversKept (h : Filed config s) (hkept : ServersKept s t) : Filed config t where
  stored := fun object i ↦ by
    rw [hkept.servers]
    exact (h.stored object i).mono fun _ hm ↦ by rwa [hkept.delivered]
  element := fun hmem ↦ by
    rw [hkept.elements] at hmem
    obtain ⟨⟨request, hrequest, hobject⟩, hfor⟩ := h.element hmem
    refine ⟨⟨request, by rwa [hkept.delivered], hobject⟩, hfor.mono fun _ hm ↦ ?_⟩
    rwa [hkept.delivered]

/-- An element that a server sends to readers of its object is filed. -/
theorem Filed.sendsElement (hshape : Shape config s) (hsourced : Sourced config s)
    (h : Filed config s) {i : Fin n} {name : CallId Phase} {frames : Body}
    (hsent : (i, name, frames) ∈ s.calls.requests.sent)
    (hrelays : RelaysOwnObject config s (.serve (i, name, frames)))
    {other : CallId Phase} {body : Body}
    (hsends : SendsElement ((s.servers i).version config.initData) (s.servers i).tables name frames
      other body) {server : Server} {output : Output} :
    (∃ request, (i, other, request) ∈ (i, name, frames) :: s.calls.requests.delivered ∧
      request.object = body.object) ∧
    ForObject config (s.handle (i, name, frames) server output) i body.object body.tag
      body.payload := by
  cases hsends with
  | relay key reader hphase hlt hreader hle =>
    obtain ⟨rfl, request, hrequest, -⟩ := hsourced.registered hreader
    have hobject := hrelays hphase hlt reader (mem_relayTargets.mpr ⟨⟨_, hreader⟩, hle⟩) _
      (hshape.served _ hrequest) rfl rfl
    refine ⟨⟨request, List.mem_cons_of_mem _ hrequest, hobject⟩, Or.inr ⟨name, frames, hphase, ?_,
      rfl, (hshape.requested hsent (Or.inl hphase)).1, rfl⟩⟩
    rw [requests_delivered_handle]
    exact List.mem_cons_self
  | first hphase hfresh hle =>
    refine ⟨⟨frames, ?_, rfl⟩, (h.stored frames.object i).mono fun m hm ↦ ?_⟩
    · rw [← hphase]
      exact List.mem_cons_self
    · rw [requests_delivered_handle]
      exact List.mem_cons_of_mem _ hm

/-- A step of a server that relays only to readers of the object files what it stores and sends. -/
theorem Filed.serverMove (hshape : Shape config s) (hsourced : Sourced config s)
    (h : Filed config s) {a : Action n} (hrelays : RelaysOwnObject config s a)
    (hmove : ServerMove config s a t) : Filed config t := by
  cases hmove with
  | serve i name frames server output hsent halive hwell hhandles =>
    have hgrow : ∀ m ∈ s.calls.requests.delivered,
        m ∈ (s.handle (i, name, frames) server output).calls.requests.delivered := fun m hm ↦ by
      rw [requests_delivered_handle]
      exact List.mem_cons_of_mem _ hm
    refine
      { stored := fun object j ↦ ?_
        element := fun {j other body} hmem ↦ ?_ }
    · rw [servers_handle]
      split_ifs with hj
      · subst hj
        rcases hhandles.version_eq object with hsame | ⟨hphase, rfl, hnew⟩
        · rw [hsame]
          exact (h.stored object j).mono hgrow
        · rw [hnew]
          refine Or.inr ⟨name, frames, hphase, ?_, rfl,
            (hshape.requested hsent (Or.inl hphase)).1, rfl⟩
          rw [requests_delivered_handle]
          exact List.mem_cons_self
      · exact (h.stored object j).mono hgrow
    · rcases mem_elements_handle.mp hmem with ⟨rfl, hnew⟩ | hold
      · rw [requests_delivered_handle]
        exact h.sendsElement hshape hsourced hsent hrelays (hhandles.sendsElement hnew)
      · obtain ⟨⟨request, hrequest, hobject⟩, hfor⟩ := h.element hold
        exact ⟨⟨request, hgrow _ hrequest, hobject⟩, hfor.mono hgrow⟩
  | serveNotice i j notice server hsent halive hwell hversion hhandles =>
    refine
      { stored := fun object k ↦ ?_
        element := h.element }
    rw [servers_handleNotice]
    split_ifs with hk
    · rw [hversion, ← hk]
      exact h.stored object k
    · exact h.stored object k
  | stop => exact { h with }

theorem Filed.of_run {guard : State n → Action n → Prop}
    (hrelays : ∀ s a t, Run (step config) guard State.initial s → guard s a →
      ServerMove config s a t → RelaysOwnObject config s a)
    (run : Run (step config) guard State.initial s) : Filed config s :=
  run.invariant_reach filed_initial fun _ _ _ hrun h hsa hstep ↦
    (step_cases hstep).elim (fun hclient ↦ h.serversKept hclient.serversKept) fun hserver ↦ by
      have hmove := hserver.move (Shape.of_run hrun)
      exact h.serverMove (Shape.of_run hrun) (Sourced.of_run hrun) (hrelays _ _ _ hrun hsa hmove)
        hmove

/-- In runs on one object a server relays only to readers of the object. -/
theorem relaysOwnObject_of_about {object : CString} (habout : About object s) {a : Action n}
    (hmove : ServerMove config s a t) : RelaysOwnObject config s a := by
  cases hmove with
  | serve i name frames server output hsent =>
    intro _ _ reader _ m hm _ _
    rw [habout.requested hm, habout.requested hsent]
  | _ => trivial

/-! ### What readers collect -/

/-- What a reader has collected was sent to it for its operation. -/
def Gathered (elements : List (Fin n × CallId Phase × Body)) (clientId : CString) :
    Client → Prop
  | .readValue opNum _ _ recvDataset _ => ∀ tagStr, ∀ payload ∈ dataList recvDataset tagStr,
    ∃ i frames, (i, ⟨clientId, opNum, .readValue⟩, frames) ∈ elements ∧ frames.tag = tagStr ∧
      frames.payload = payload
  | _ => True

theorem Gathered.mono {elements elements' : List (Fin n × CallId Phase × Body)}
    {clientId : CString} {client : Client} (h : Gathered elements clientId client)
    (hsub : ∀ m ∈ elements, m ∈ elements') : Gathered elements' clientId client := by
  cases client with
  | readValue opNum object readTag recvDataset decodeableKey =>
    intro tagStr payload hmem
    obtain ⟨i, frames, hsent, hframes⟩ := h tagStr payload hmem
    exact ⟨i, frames, hsub _ hsent, hframes⟩
  | _ => trivial

/-- Adding the frame of an element. -/
theorem Gathered.insert {elements : List (Fin n × CallId Phase × Body)} {clientId : CString}
    {opNum : ℕ} {object : CString} {readTag : Tag} {recvDataset : ZHash (List Frame)}
    {decodeableKey : Option CString}
    (h : Gathered elements clientId (.readValue opNum object readTag recvDataset decodeableKey))
    {i : Fin n} {frames : Body}
    (hsent : (i, ⟨clientId, opNum, .readValue⟩, frames) ∈ elements) (key : Option CString) :
    Gathered elements clientId (.readValue opNum object readTag (recvDataset.insert frames.tag
      (dataList recvDataset frames.tag ++ [frames.payload])) key) := by
  intro tagStr payload hmem
  rw [dataList_insert] at hmem
  split_ifs at hmem with htag
  · subst htag
    rcases List.mem_append.mp hmem with hold | hnew
    · exact h _ payload hold
    · exact ⟨i, frames, hsent, rfl, (List.mem_singleton.mp hnew).symm⟩
  · exact h tagStr payload hmem

/-- A turn on a message keeps what is collected gathered. -/
theorem Receives.gathered {elements : List (Fin n × CallId Phase × Body)} {clientId : CString}
    {opNum : ℕ} {phase : Phase} {frames : Body} {client : Client} {turn : Turn n Client Phase}
    (hturn : Receives clientId opNum frames phase client turn)
    (hsent : phase = .readValue → ∃ i, (i, ⟨clientId, opNum, .readValue⟩, frames) ∈ elements)
    (h : Gathered elements clientId client) : Gathered elements clientId turn.client := by
  cases hturn with
  | stale => exact h
  | collect =>
    obtain ⟨i, hmem⟩ := hsent rfl
    exact h.insert hmem _
  | decide =>
    obtain ⟨i, hmem⟩ := hsent rfl
    exact h.insert hmem _
  | _ => trivial

theorem TimesOut.gathered {elements : List (Fin n × CallId Phase × Body)} {clientId : CString}
    {client : Client} {turn : Turn n Client Phase} (hturn : TimesOut config clientId client turn) :
    Gathered elements clientId turn.client := by
  cases hturn with
  | startRead =>
    intro tagStr payload hmem
    simp [dataList] at hmem
  | _ => trivial

/-- In every run what a reader has collected was sent to it. -/
theorem gathered_of_run {guard : State n → Action n → Prop}
    (run : Run (step config) guard State.initial s) (clientId : CString) :
    Gathered s.elements.sent clientId (s.clients clientId) := by
  have hinitial : ∀ clientId, Gathered (State.initial : State n).elements.sent clientId
    ((State.initial : State n).clients clientId) := fun _ ↦ trivial
  refine run.invariant_reach (P := fun s ↦ ∀ clientId,
    Gathered s.elements.sent clientId (s.clients clientId)) hinitial
    (fun s a t hrun h _ hstep ↦ ?_) clientId
  have hshape := Shape.of_run hrun
  have hturn : ∀ {own : CString} {turn : Turn n Client Phase} {u : State n},
      u.clients = s.clients → u.elements.sent = s.elements.sent →
        Gathered s.elements.sent own turn.client → ∀ other,
          Gathered (u.takeTurn own turn).elements.sent other
            ((u.takeTurn own turn).clients other) := by
    intro own turn u hclients helements hown
    rw [(serversKept_takeTurn u own turn).elements, helements]
    exact (Function.forall_update_iff u.clients (Gathered s.elements.sent)).mpr
      ⟨hown, fun other _ ↦ hclients ▸ h other⟩
  rcases step_cases hstep with hclient | hserver
  · cases hclient with
    | write => exact hturn rfl rfl trivial
    | read => exact hturn rfl rfl trivial
    | receive i name frames turn hsent hreceives =>
      exact hturn (u := { s with calls := s.calls.collect (i, name, frames) }) rfl rfl
        (hreceives.gathered (fun hphase ↦ absurd hphase (hshape.answered hsent).1) (h _))
    | receiveElement i name frames turn hsent hreceives =>
      refine hturn (u := { s with elements := s.elements.deliver (i, name, frames) }) rfl rfl
        (hreceives.gathered (fun hphase ↦ ⟨i, ?_⟩) (h _))
      rwa [← hphase]
    | timeout own turn htimesOut => exact hturn rfl rfl htimesOut.gathered
  · intro other
    rw [hserver.clients_eq.1]
    exact (h other).mono fun m hm ↦ hserver.elements_subset m hm

/-- In every run in which no client uses a number twice and servers relay only to readers of the
object, objects are isolated. -/
theorem isolated_of_run (run : Run (step config)
      (fun s a ↦ FreshNumbers s a ∧ RelaysOwnObject config s a) State.initial s) :
    Isolated config s := by
  have hshape := Shape.of_run run
  have hnumbered := Numbered.of_run (fun _ _ h ↦ h.1) run
  have hfiled := Filed.of_run (fun _ _ _ _ h _ ↦ h.2) run
  have helement : ∀ {i name frames}, (i, name, frames) ∈ s.elements.sent →
      ∀ {j request}, (j, name, request) ∈ s.calls.requests.sent →
        frames.object = request.object ∧
          ForObject config s i request.object frames.tag frames.payload := by
    intro i name frames hmem j request hrequest
    obtain ⟨⟨own, hown, hobject⟩, hfor⟩ := hfiled.element hmem
    -- all requests of the read are about one object
    obtain ⟨frames', hmem', hsame, -⟩ := hnumbered.everywhere hrequest i
    rw [hnumbered.unique (hshape.served _ hown) hmem', hsame] at hobject
    exact ⟨hobject.symm, hobject ▸ hfor⟩
  refine ⟨helement, fun {clientId opNum object readTag recvDataset decodeableKey} hclient tagStr
    payload hmem ↦ ?_⟩
  have hasked := hnumbered.clients clientId
  have hgathered := gathered_of_run run clientId
  rw [hclient] at hasked hgathered
  obtain ⟨i, frames, hsent, rfl, rfl⟩ := hgathered tagStr payload hmem
  obtain ⟨request, hrequest, hobject, -⟩ := hasked.2.1 i
  exact ⟨i, hobject ▸ (helement hsent hrequest).2⟩

/-! ### A write to another object -/

/-- A write of an object at a server, up to its acknowledgement. -/
def writeTo (i : Fin n) (opNum : ℕ) (object : CString) (payload : Frame) : List (Action n) :=
  let writer := ascii ['w']
  let tagStr := tagToString ⟨1, writer⟩
  [ .invokeWrite writer opNum object payload,
    .serve (i, ⟨writer, opNum, .writeGet⟩, ⟨object, [], []⟩),
    .receive (i, ⟨writer, opNum, .writeGet⟩, ⟨object, tagToString initTag, []⟩),
    .timeout writer,
    .serve (i, ⟨writer, opNum, .writePut⟩, ⟨object, tagStr, sampleStripe i payload⟩),
    .receive (i, ⟨writer, opNum, .writePut⟩, ⟨object, tagStr, []⟩) ]

/-- A reader registers at a server for the object `a` before anything is written to it. -/
def registerReader (i : Fin n) : List (Action n) :=
  let object := ascii ['a']
  let reader := ascii ['r']
  [ .invokeRead reader 1 object,
    .serve (i, ⟨reader, 1, .readGet⟩, ⟨object, [], []⟩),
    .receive (i, ⟨reader, 1, .readGet⟩, ⟨object, tagToString initTag, []⟩),
    .timeout reader,
    .serve (i, ⟨reader, 1, .readValue⟩, ⟨object, tagToString initTag, []⟩) ]

/-- The reader receives the element of a write to an object first, and decodes it. -/
def decodeFrom (i : Fin n) (object : CString) (payload : Frame) : List (Action n) :=
  let reader := ascii ['r']
  [ .receiveElement (i, ⟨reader, 1, .readValue⟩,
      ⟨object, tagToString ⟨1, ascii ['w']⟩, sampleStripe i payload⟩),
    .timeout reader ]

/-- A read of the object `a` returns the payload of a write to the object `b` with its tag: the
server has relayed the write to the reader. -/
theorem leaked_element : ∃ s : State 1,
    Run (step (sampleConfig 1)) Guard State.initial s ∧
      .readCompleted (ascii ['r']) 1 (ascii ['a']) ⟨1, ascii ['w']⟩ [1, 2, 3, 4] ∈ s.history ∧
        ¬ Isolated (sampleConfig 1) s := by
  have hview : (execute (step (sampleConfig 1)) Guard State.initial
      (registerReader 0 ++ writeTo 0 1 (ascii ['b']) [1, 2, 3, 4] ++
        decodeFrom 0 (ascii ['b']) [1, 2, 3, 4])).map
      (fun s ↦ (decide (.readCompleted (ascii ['r']) 1 (ascii ['a']) ⟨1, ascii ['w']⟩
          [1, 2, 3, 4] ∈ s.history),
        decide (((0 : Fin 1), (⟨ascii ['r'], 1, .readValue⟩ : CallId Phase),
          (⟨ascii ['b'], tagToString ⟨1, ascii ['w']⟩, sampleStripe (0 : Fin 1) [1, 2, 3, 4]⟩ :
            Body)) ∈ s.elements.sent),
        decide (((0 : Fin 1), (⟨ascii ['r'], 1, .readValue⟩ : CallId Phase),
          (⟨ascii ['a'], tagToString initTag, []⟩ : Body)) ∈ s.calls.requests.sent))) =
      some (true, true, true) := by
    decide +kernel
  obtain ⟨s, hexecute, hs⟩ := Option.map_eq_some_iff.mp hview
  simp only [Prod.mk.injEq, decide_eq_true_eq] at hs
  obtain ⟨hread, helement, hrequest⟩ := hs
  exact ⟨s, run_of_execute hexecute, hread, fun hisolated ↦
    absurd (hisolated.element helement hrequest).1 (by decide)⟩

/-- A write to `b` before the reader has registered, and one to `a` afterwards, leave the objects
isolated. -/
theorem isolated_of_run_sample : ∃ s : State 1,
    .readCompleted (ascii ['r']) 1 (ascii ['a']) ⟨1, ascii ['w']⟩ [5, 6, 7, 8] ∈ s.history ∧
      Isolated (sampleConfig 1) s := by
  have hview : (execute (step (sampleConfig 1))
      (fun s a ↦ FreshNumbers s a ∧ RelaysOwnObject (sampleConfig 1) s a) State.initial
      (writeTo 0 1 (ascii ['b']) [1, 2, 3, 4] ++ registerReader 0 ++
        writeTo 0 2 (ascii ['a']) [5, 6, 7, 8] ++ decodeFrom 0 (ascii ['a']) [5, 6, 7, 8])).map
      (fun s ↦ decide (.readCompleted (ascii ['r']) 1 (ascii ['a']) ⟨1, ascii ['w']⟩
        [5, 6, 7, 8] ∈ s.history)) = some true := by
    decide +kernel
  obtain ⟨s, hexecute, hs⟩ := Option.map_eq_some_iff.mp hview
  exact ⟨s, of_decide_eq_true hs, isolated_of_run (run_of_execute hexecute)⟩

end Colas.Sodaw
