import Colas.Sodaw.System

/-!
# Where elements, registrations and notices come from

`Sourced` is the invariant about what servers know of readers, in every run and without a guard. A
registered reader has sent a `READ_VALUE`, an element answers a `READ_VALUE` with a tag that is not
smaller than the requested one and not greater than the stored one, and behind every notice, on the
network or recorded, there is an element that its sender has sent.

The notices that unregister a reader have the same reader, number and tag and different keys in the
history table, so they have different senders (`exists_senders`). `elements_of_unregistered` is the
result: when `READ_DISPERSE` moves a reader to the readed table, `K` servers have sent it elements
with one tag.
-/

set_option autoImplicit false
set_option relaxedAutoImplicit false

namespace Colas.Sodaw

open TransitionSystem

variable {n : ℕ} {config : Config n} {s t : State n}

/-- The server has sent the reader an element with the tag for the operation. -/
def SentElement (s : State n) (i : Fin n) (readerid : CString) (opnum : ℕ) (tagStr : CString) :
    Prop :=
  ∃ frames, (i, ⟨readerid, opnum, .readValue⟩, frames) ∈ s.elements.sent ∧ frames.tag = tagStr

/-- What servers know of readers comes from the readers, and from elements that were sent. -/
structure Sourced (config : Config n) (s : State n) : Prop where
  /-- A registered reader has asked for its tag. -/
  registered : ∀ {i key reader}, (s.servers i).tables.readingTable.lookup key = some reader →
    reader.readerId = key ∧ ∃ request,
      (i, ⟨key, reader.opnum, .readValue⟩, request) ∈ s.calls.requests.delivered ∧
        request.tagValue = reader.tr
  /-- An element answers a `READ_VALUE`, and its tag is at least the requested one and at most the
  stored one. -/
  element : ∀ {i name frames}, (i, name, frames) ∈ s.elements.sent → name.phase = .readValue ∧
    (∃ request, (i, name, request) ∈ s.calls.requests.delivered ∧
      request.tagValue ≤ frames.tagValue) ∧
    frames.tagValue ≤ s.storedTag config frames.object i
  /-- A notice is about an element. -/
  dispersed : ∀ {i j notice}, (i, j, notice) ∈ s.disperses.sent →
    notice.clientid = config.serverId i ∧
      SentElement s i notice.readerid notice.opnum notice.sendTag
  /-- So is a recorded notice, and its key is computed from it. -/
  recorded : ∀ {j key his}, (s.servers j).tables.historyTable.lookup key = some his →
    key = his.key ∧ ∃ i, config.serverId i = his.senderid ∧
      SentElement s i his.readerid his.opnum his.sendTagStr

theorem SentElement.mono {i : Fin n} {readerid : CString} {opnum : ℕ} {tagStr : CString}
    (h : SentElement s i readerid opnum tagStr)
    (hsub : ∀ m ∈ s.elements.sent, m ∈ t.elements.sent) :
    SentElement t i readerid opnum tagStr := by
  obtain ⟨frames, hmem, htag⟩ := h
  exact ⟨frames, hsub _ hmem, htag⟩

theorem sourced_initial : Sourced config (State.initial : State n) where
  registered := fun h ↦ by simp [State.initial, Server.initial] at h
  element := fun h ↦ absurd h List.not_mem_nil
  dispersed := fun h ↦ absurd h List.not_mem_nil
  recorded := fun h ↦ by simp [State.initial, Server.initial] at h

/-- A step of a client keeps the sources. -/
theorem Sourced.serversKept (h : Sourced config s) (hkept : ServersKept s t) :
    Sourced config t where
  registered := fun hreader ↦ by
    rw [hkept.servers] at hreader
    rw [hkept.delivered]
    exact h.registered hreader
  element := fun hmem ↦ by
    rw [hkept.elements] at hmem
    rw [hkept.delivered, State.storedTag, hkept.servers]
    exact h.element hmem
  dispersed := fun hmem ↦ by
    rw [hkept.disperses] at hmem
    exact ⟨(h.dispersed hmem).1, (h.dispersed hmem).2.mono fun _ hm ↦ by rwa [hkept.elements]⟩
  recorded := fun hhis ↦ by
    rw [hkept.servers] at hhis
    obtain ⟨hkey, i, hid, hsent⟩ := h.recorded hhis
    exact ⟨hkey, i, hid, hsent.mono fun _ hm ↦ by rwa [hkept.elements]⟩

/-- An element that a server sends has a source. -/
theorem Sourced.sendsElement (h : Sourced config s) {i : Fin n} {name : CallId Phase}
    {frames : Body} {other : CallId Phase} {body : Body}
    (hsends : SendsElement ((s.servers i).version config.initData) (s.servers i).tables name frames
      other body) :
    other.phase = .readValue ∧ ∃ request, (i, other, request) ∈
      (i, name, frames) :: s.calls.requests.delivered ∧ request.tagValue ≤ body.tagValue := by
  cases hsends with
  | relay key reader hphase hlt hreader hle =>
    obtain ⟨rfl, request, hrequest, htag⟩ := h.registered hreader
    refine ⟨rfl, request, List.mem_cons_of_mem _ hrequest, ?_⟩
    rwa [Body.tagValue_tagToString, htag]
  | first hphase hfresh hle =>
    refine ⟨rfl, frames, ?_, ?_⟩
    · rw [← hphase]
      exact List.mem_cons_self
    · rwa [Body.tagValue_tagToString]

section ServerMove

variable {i j : Fin n} {name : CallId Phase} {frames : Body} {server : Server} {output : Output}
  {notice : Disperse}

/-- A handled request keeps the sources. -/
theorem Sourced.handle (hshape : Shape config s) (h : Sourced config s)
    (hsent : (i, name, frames) ∈ s.calls.requests.sent)
    (hhandles : Handles config.strcmp (config.serverArgs i)
      ((s.servers i).version config.initData) (s.servers i).tables name frames
      (server.version config.initData) server.tables output) :
    Sourced config (s.handle (i, name, frames) server output) := by
  have hgrow : ∀ m ∈ s.elements.sent,
      m ∈ (s.handle (i, name, frames) server output).elements.sent := fun ⟨_, _, _⟩ hm ↦
    mem_elements_handle.mpr (Or.inr hm)
  refine
    { registered := fun {j key reader} hreader ↦ ?_
      element := fun {j other body} hmem ↦ ?_
      dispersed := fun {j k notice} hmem ↦ ?_
      recorded := fun {j key his} hhis ↦ ?_ }
  · rw [requests_delivered_handle]
    have hold : (s.servers j).tables.readingTable.lookup key = some reader →
        reader.readerId = key ∧ ∃ request, (j, ⟨key, reader.opnum, .readValue⟩, request) ∈
          (i, name, frames) :: s.calls.requests.delivered ∧ request.tagValue = reader.tr := by
      intro hlookup
      obtain ⟨hkey, request, hrequest, htag⟩ := h.registered hlookup
      exact ⟨hkey, request, List.mem_cons_of_mem _ hrequest, htag⟩
    rw [servers_handle] at hreader
    split_ifs at hreader with hj
    · subst hj
      rcases hhandles.reading hreader with hbefore | ⟨hphase, rfl, rfl⟩
      · exact hold hbefore
      · refine ⟨rfl, frames, ?_, rfl⟩
        rw [← hphase]
        exact List.mem_cons_self
    · exact hold hreader
  · rw [requests_delivered_handle, State.storedTag, servers_handle]
    rcases mem_elements_handle.mp hmem with ⟨rfl, hnew⟩ | hold
    · obtain ⟨hphase, hrequest⟩ := h.sendsElement (hhandles.sendsElement hnew)
      refine ⟨hphase, hrequest, ?_⟩
      rw [if_pos rfl]
      exact (hhandles.element_between hnew).2
    · obtain ⟨hphase, ⟨request, hrequest, hle⟩, hstored⟩ := h.element hold
      refine ⟨hphase, ⟨request, List.mem_cons_of_mem _ hrequest, hle⟩, ?_⟩
      split_ifs with hj
      · subst hj
        exact hstored.trans (hhandles.version_le _)
      · exact hstored
  · rcases mem_disperses_handle.mp hmem with ⟨rfl, hnew⟩ | hold
    · obtain ⟨hid, body, hbody, htag⟩ :=
        hhandles.notice (fun hphase ↦ (hshape.requested hsent hphase).1) hnew
      exact ⟨hid, body, mem_elements_handle.mpr (Or.inl ⟨rfl, hbody⟩), htag⟩
    · exact ⟨(h.dispersed hold).1, (h.dispersed hold).2.mono hgrow⟩
  · have hbefore : (s.servers j).tables.historyTable.lookup key = some his := by
      rw [servers_handle] at hhis
      split_ifs at hhis with hj
      · subst hj
        exact hhandles.history hhis
      · exact hhis
    obtain ⟨hkey, k, hid, hsentElement⟩ := h.recorded hbefore
    exact ⟨hkey, k, hid, hsentElement.mono hgrow⟩

/-- A handled notice keeps the sources. -/
theorem Sourced.handleNotice (h : Sourced config s) (hsent : (i, j, notice) ∈ s.disperses.sent)
    (hversion : server.version config.initData = (s.servers j).version config.initData)
    (hhandles : HandlesNotice (config.serverArgs j) (s.servers j).tables notice server.tables) :
    Sourced config (s.handleNotice (i, j, notice) server) := by
  refine
    { registered := fun {k key reader} hreader ↦ ?_
      element := fun {k other body} hmem ↦ ?_
      dispersed := h.dispersed
      recorded := fun {k key his} hhis ↦ ?_ }
  · rw [servers_handleNotice] at hreader
    split_ifs at hreader with hk
    · subst hk
      exact h.registered (hhandles.reading hreader)
    · exact h.registered hreader
  · rw [storedTag_handleNotice hversion]
    exact h.element hmem
  · rw [servers_handleNotice] at hhis
    split_ifs at hhis with hk
    · subst hk
      rcases hhandles.history hhis with hbefore | ⟨rfl, rfl⟩
      · exact h.recorded hbefore
      · exact ⟨rfl, i, (h.dispersed hsent).1.symm, (h.dispersed hsent).2⟩
    · exact h.recorded hhis

end ServerMove

/-- A step of a server keeps the sources. -/
theorem Sourced.serverMove (hshape : Shape config s) (h : Sourced config s) {a : Action n}
    (hmove : ServerMove config s a t) : Sourced config t := by
  cases hmove with
  | serve i name frames server output hsent halive hwell hhandles =>
    exact h.handle hshape hsent hhandles
  | serveNotice i j notice server hsent halive hwell hversion hhandles =>
    exact h.handleNotice hsent hversion hhandles
  | stop => exact { h with }

/-- In every run what servers know of readers has a source. -/
theorem Sourced.of_run {guard : State n → Action n → Prop}
    (run : Run (step config) guard State.initial s) : Sourced config s :=
  run.invariant_reach sourced_initial fun _ _ _ hrun h _ hstep ↦
    (step_cases hstep).elim (fun hclient ↦ h.serversKept hclient.serversKept)
      fun hserver ↦ h.serverMove (Shape.of_run hrun) (hserver.move (Shape.of_run hrun))

/-! ### Unregistration -/

/-- The notices found for an operation and a tag come from as many servers that have sent the
element. -/
theorem exists_senders {historyTab : ZHash HistoryData}
    (hrecorded : ∀ key his, historyTab.lookup key = some his →
      key = his.key ∧ ∃ i, config.serverId i = his.senderid ∧
        SentElement s i his.readerid his.opnum his.sendTagStr)
    (readerid : CString) (opnum : ℕ) (tagStr : CString) :
    ∃ senders : Finset (Fin n),
      senders.card = (historydataLookup historyTab readerid opnum tagStr).length ∧
        ∀ i ∈ senders, SentElement s i readerid opnum tagStr := by
  let belongs : CString → Fin n → Prop := fun key i ↦
    key = HistoryData.key ⟨readerid, config.serverId i, [], tagStr, opnum⟩ ∧
      SentElement s i readerid opnum tagStr
  have hmember : ∀ key ∈ historydataLookup historyTab readerid opnum tagStr,
      ∃ i, belongs key i := by
    intro key hkey
    obtain ⟨his, hlookup, rfl, rfl, rfl⟩ := exists_of_mem_historydataLookup hkey
    obtain ⟨hstring, i, hid, hsent⟩ := hrecorded key his hlookup
    exact ⟨i, by rw [hstring, hid]; rfl, hsent⟩
  obtain ⟨senders, hcard, hsenders⟩ := Quorum.exists_members_of_nodup
    (nodup_historydataLookup historyTab readerid opnum tagStr) hmember
    fun key _ other _ i hi hi' ↦ hi.1.trans hi'.1.symm
  refine ⟨senders, hcard, fun i hi ↦ ?_⟩
  obtain ⟨key, -, -, hsent⟩ := hsenders i hi
  exact hsent

/-- The server is done with the operation of the reader. -/
def IsReaded (server : Server) (readerid : CString) (opnum : ℕ) : Prop :=
  ∃ readed, server.tables.readedTable.lookup readerid = some readed ∧ readed.opnum = opnum

/-- When a server moves a reader to the readed table because of a notice, `K` servers have sent the
reader elements with one tag for the operation. -/
theorem HandlesNotice.senders (h : Sourced config s) {i j : Fin n} {notice : Disperse}
    (hsent : (i, j, notice) ∈ s.disperses.sent) {tables' : Tables}
    (hhandles : HandlesNotice (config.serverArgs j) (s.servers j).tables notice tables')
    {readerid : CString} {readed : RegReader}
    (hbefore : (s.servers j).tables.readedTable.lookup readerid ≠ some readed)
    (hafter : tables'.readedTable.lookup readerid = some readed) :
    ∃ senders : Finset (Fin n), initializeSODAW n ≤ senders.card ∧
      ∃ tagStr, ∀ k ∈ senders, SentElement s k readerid readed.opnum tagStr := by
  cases hhandles with
  | ignore => exact absurd hafter hbefore
  | record => exact absurd hafter hbefore
  | move tag hfresh hmany =>
    rw [readed_moveToReaded] at hafter
    split_ifs at hafter with hreader
    · obtain rfl := Option.some.inj hafter
      have hrecorded : ∀ key his,
          ((s.servers j).tables.record notice.history).historyTable.lookup key = some his →
            key = his.key ∧ ∃ i, config.serverId i = his.senderid ∧
              SentElement s i his.readerid his.opnum his.sendTagStr := by
        intro key his hhis
        rcases history_record hhis with hold | ⟨rfl, rfl⟩
        · exact h.recorded hold
        · exact ⟨rfl, i, (h.dispersed hsent).1.symm, (h.dispersed hsent).2⟩
      obtain ⟨senders, hcard, hsenders⟩ :=
        exists_senders hrecorded notice.readerid notice.opnum notice.sendTag
      exact ⟨senders, hcard ▸ hmany, notice.sendTag, hreader ▸ hsenders⟩
    · exact absurd hafter hbefore

/-- In every run, when `READ_DISPERSE` moves the operation of a reader into the readed table of a
server, at least `K` servers have each sent the reader an element with one and the same tag for the
operation. -/
theorem elements_of_unregistered {guard : State n → Action n → Prop}
    (run : Run (step config) guard State.initial s) {i j : Fin n} {notice : Disperse}
    (hstep : step config s (.serveNotice (i, j, notice)) = some t) {readerid : CString}
    {opnum : ℕ} (hbefore : ¬ IsReaded (s.servers j) readerid opnum)
    (hafter : IsReaded (t.servers j) readerid opnum) :
    ∃ senders : Finset (Fin n), initializeSODAW n ≤ senders.card ∧
      ∃ tagStr, ∀ k ∈ senders, SentElement s k readerid opnum tagStr := by
  obtain ⟨readed, hlookup, rfl⟩ := hafter
  rcases step_cases hstep with hclient | hserver
  · cases hclient
  · cases hserver.move (Shape.of_run run) with
    | serveNotice i j notice server hsent halive hwell hversion hhandles =>
      refine hhandles.senders (Sourced.of_run run) hsent (fun hold ↦ hbefore ⟨readed, hold, rfl⟩) ?_
      rwa [servers_handleNotice, if_pos rfl] at hlookup

/-- In the run on three servers the last one moves the reader to the readed table when it has the
notices of the first two. -/
theorem elements_of_unregistered_sample : ∃ s t : State 3,
    step (sampleConfig 3) s (.serveNotice (1, 2, sampleNotice 1)) = some t ∧
      IsReaded (t.servers 2) (ascii ['r']) 1 ∧
      ∃ senders : Finset (Fin 3), initializeSODAW 3 ≤ senders.card ∧
        ∃ tagStr, ∀ k ∈ senders, SentElement s k (ascii ['r']) 1 tagStr := by
  have hview : (execute (step (sampleConfig 3)) (fun _ _ ↦ True) State.initial
      (sampleWrite [1, 2, 3, 4] ++ sampleRead [1, 2, 3, 4] ++
        [.serveNotice (0, 2, sampleNotice 0)])).bind (fun s ↦
          (step (sampleConfig 3) s (.serveNotice (1, 2, sampleNotice 1))).map fun t ↦
            ((s.servers 2).tables.readedTable.lookup (ascii ['r']),
              ((t.servers 2).tables.readedTable.lookup (ascii ['r'])).map RegReader.opnum)) =
      some (none, some 1) := by
    decide +kernel
  obtain ⟨s, hexecute, hstep⟩ := Option.bind_eq_some_iff.mp hview
  obtain ⟨t, hstep, ht⟩ := Option.map_eq_some_iff.mp hstep
  obtain ⟨hbefore, hafter⟩ := Prod.mk.inj ht
  have hreaded : IsReaded (t.servers 2) (ascii ['r']) 1 := Option.map_eq_some_iff.mp hafter
  refine ⟨s, t, hstep, hreaded,
    elements_of_unregistered (run_of_execute hexecute) hstep ?_ hreaded⟩
  rintro ⟨readed, hlookup, -⟩
  rw [hbefore] at hlookup
  cases hlookup

end Colas.Sodaw
