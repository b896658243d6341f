import Colas.Sodaw.Readers

/-!
# What a server has done for a reader

Once a server has handled a `READ_VALUE`, its tables do not forget it: the reader is registered for
the operation or a later one, or the server is done with one (`Tables.Reached`). It is done with an
operation only because the reader has said so, or because enough servers have sent the reader
elements with one tag (`Released`). And in runs on one object a registered reader has been sent the
version that the server stores, unless that is smaller than the tag the reader asked for. `Tended`
collects the three.
-/

set_option autoImplicit false
set_option relaxedAutoImplicit false

namespace Colas.Sodaw

open TransitionSystem

variable {n : ℕ} {config : Config n} {object : CString} {s t : State n}

/-! ### Tables do not go back -/

/-- The server has registered the reader for the operation or a later one, or is done with one. -/
def Tables.Reached (tables : Tables) (readerid : CString) (opnum : ℕ) : Prop :=
  (∃ readed, tables.readedTable.lookup readerid = some readed ∧ opnum ≤ readed.opnum) ∨
    ∃ reading, tables.readingTable.lookup readerid = some reading ∧ opnum ≤ reading.opnum

section Reached

variable {tables : Tables} {readerid other : CString} {opnum opnum' : ℕ}

theorem Tables.reached_of_isStale (h : tables.isStale readerid opnum = true) :
    tables.Reached readerid opnum :=
  (isStale_iff.mp h).imp_right fun ⟨reading, hlookup, hlt⟩ ↦ ⟨reading, hlookup, hlt.le⟩

/-- What was reached before an operation that is not stale is not after it. -/
theorem Tables.Reached.le_of_fresh (h : tables.Reached readerid opnum)
    (hfresh : ¬ tables.isStale readerid opnum' = true) : opnum ≤ opnum' := by
  rcases h with ⟨readed, hlookup, hle⟩ | ⟨reading, hlookup, hle⟩
  · by_contra hlt
    exact hfresh (isStale_iff.mpr (Or.inl ⟨readed, hlookup, by omega⟩))
  · by_contra hlt
    exact hfresh (isStale_iff.mpr (Or.inr ⟨reading, hlookup, by omega⟩))

/-- Registering a reader for a later operation. -/
theorem Tables.Reached.register (h : tables.Reached readerid opnum) (tag : Tag)
    (hfresh : ¬ tables.isStale other opnum' = true) :
    (tables.register tag other opnum').Reached readerid opnum := by
  by_cases hreader : readerid = other
  · subst hreader
    refine Or.inr ⟨⟨tag, opnum', readerid⟩, ?_, h.le_of_fresh hfresh⟩
    rw [reading_register, if_pos rfl]
  · simpa only [Tables.Reached, reading_register, readed_register, if_neg hreader] using h

/-- Ending the service of a reader for a later operation. -/
theorem Tables.Reached.moveToReaded (h : tables.Reached readerid opnum) (tag : Tag)
    (hfresh : ¬ tables.isStale other opnum' = true) :
    (tables.moveToReaded tag other opnum').Reached readerid opnum := by
  by_cases hreader : readerid = other
  · subst hreader
    refine Or.inl ⟨⟨tag, opnum', readerid⟩, ?_, h.le_of_fresh hfresh⟩
    rw [readed_moveToReaded, if_pos rfl]
  · simpa only [Tables.Reached, reading_moveToReaded, readed_moveToReaded, if_neg hreader] using h

/-- A request leaves what was reached. -/
theorem Handles.reached {strcmp : Strcmp} {args : ServerArgs}
    {version version' : CString → Tag × Frame} {tables' : Tables} {name : CallId Phase}
    {request : Body} {output : Output}
    (h : Handles strcmp args version tables name request version' tables' output)
    (hreached : tables.Reached readerid opnum) : tables'.Reached readerid opnum := by
  cases h with
  | register hphase hfresh => exact hreached.register _ hfresh
  | serve hphase hfresh => exact hreached.register _ hfresh
  | complete hphase hfresh => exact hreached.moveToReaded _ hfresh
  | _ => exact hreached

/-- After a `READ_VALUE` its operation is reached. -/
theorem Handles.reached_self {strcmp : Strcmp} {args : ServerArgs}
    {version version' : CString → Tag × Frame} {tables' : Tables} {name : CallId Phase}
    {request : Body} {output : Output}
    (h : Handles strcmp args version tables name request version' tables' output)
    (hphase : name.phase = .readValue) : tables'.Reached name.client name.opnum := by
  have hregistered : (tables.register request.tagValue name.client name.opnum).Reached name.client
      name.opnum :=
    Or.inr ⟨_, by rw [reading_register, if_pos rfl], le_rfl⟩
  cases h with
  | ignore _ hstale => exact Tables.reached_of_isStale hstale
  | register => exact hregistered
  | serve => exact hregistered
  | report hget => simp [hphase] at hget
  | refuse hput => simp [hphase] at hput
  | adopt hput => simp [hphase] at hput
  | complete hcomplete => simp [hphase] at hcomplete

/-- A notice leaves what was reached. -/
theorem HandlesNotice.reached {args : ServerArgs} {tables' : Tables} {notice : Disperse}
    (h : HandlesNotice args tables notice tables') (hreached : tables.Reached readerid opnum) :
    tables'.Reached readerid opnum := by
  cases h with
  | ignore => exact hreached
  | record => exact hreached
  | move tag hfresh =>
    have hrecorded : (tables.record notice.history).Reached readerid opnum := hreached
    exact hrecorded.moveToReaded tag hfresh

/-- A reader is done with because it says so. -/
theorem Handles.readed {strcmp : Strcmp} {args : ServerArgs}
    {version version' : CString → Tag × Frame} {tables' : Tables} {name : CallId Phase}
    {request : Body} {output : Output}
    (h : Handles strcmp args version tables name request version' tables' output)
    {readed : RegReader} (hreaded : tables'.readedTable.lookup readerid = some readed) :
    tables.readedTable.lookup readerid = some readed ∨
      name = ⟨readerid, readed.opnum, .readComplete⟩ := by
  cases h with
  | register =>
    rw [readed_register] at hreaded
    split_ifs at hreaded
    exact Or.inl hreaded
  | serve =>
    rw [readed_register] at hreaded
    split_ifs at hreaded
    exact Or.inl hreaded
  | complete hphase =>
    rw [readed_moveToReaded] at hreaded
    split_ifs at hreaded with hreader
    · obtain rfl := Option.some.inj hreaded
      subst hreader
      exact Or.inr (congrArg (CallId.mk name.client name.opnum) hphase)
    · exact Or.inl hreaded
  | _ => exact Or.inl hreaded

/-- A registered reader whose tag is not above the stored one is sent the stored tag when it
registers and when the tag is stored. -/
theorem Handles.current {strcmp : Strcmp} {args : ServerArgs}
    {version version' : CString → Tag × Frame} {tables' : Tables} {name : CallId Phase}
    {request : Body} {output : Output}
    (h : Handles strcmp args version tables name request version' tables' output)
    (hkeys : ∀ key reader, tables.readingTable.lookup key = some reader → reader.readerId = key)
    {reader : RegReader} (hreader : tables'.readingTable.lookup readerid = some reader)
    (hle : reader.tr ≤ (version' request.object).1) :
    (∃ body, (⟨readerid, reader.opnum, .readValue⟩, body) ∈ output.elements ∧
        body.tag = tagToString (version' request.object).1) ∨
      tables.readingTable.lookup readerid = some reader ∧
        (version' request.object).1 = (version request.object).1 := by
  cases h with
  | adopt hphase hlt =>
    rw [Function.update_self] at hle ⊢
    obtain rfl := hkeys _ _ hreader
    exact Or.inl ⟨_, mem_relayed_elements.mpr ⟨reader, ⟨⟨_, hreader⟩, hle⟩, rfl⟩, rfl⟩
  | register hphase hfresh hlt =>
    rw [reading_register] at hreader
    split_ifs at hreader
    · obtain rfl := Option.some.inj hreader
      exact absurd hle (not_le.mpr hlt)
    · exact Or.inr ⟨hreader, rfl⟩
  | serve hphase =>
    rw [reading_register] at hreader
    split_ifs at hreader with hself
    · obtain rfl := Option.some.inj hreader
      subst hself
      exact Or.inl ⟨_, List.mem_singleton_self _, rfl⟩
    · exact Or.inr ⟨hreader, rfl⟩
  | complete =>
    rw [reading_moveToReaded] at hreader
    split_ifs at hreader
    exact Or.inr ⟨hreader, rfl⟩
  | _ => exact Or.inr ⟨hreader, rfl⟩

end Reached

/-! ### Runs -/

/-- Enough servers have sent the reader elements with one tag for the operation. -/
def Released (s : State n) (readerid : CString) (opnum : ℕ) : Prop :=
  ∃ senders : Finset (Fin n), initializeSODAW n ≤ senders.card ∧
    ∃ tagStr, ∀ k ∈ senders, SentElement s k readerid opnum tagStr

theorem Released.mono {readerid : CString} {opnum : ℕ} (h : Released s readerid opnum)
    (hsub : ∀ m ∈ s.elements.sent, m ∈ t.elements.sent) : Released t readerid opnum := by
  obtain ⟨senders, hcard, tagStr, hsent⟩ := h
  exact ⟨senders, hcard, tagStr, fun k hk ↦ (hsent k hk).mono hsub⟩

/-- What a server has done for the readers of an object. -/
structure Tended (config : Config n) (object : CString) (s : State n) : Prop where
  /-- A `READ_VALUE` that was handled is not forgotten. -/
  reached : ∀ {i name request}, (i, name, request) ∈ s.calls.requests.delivered →
    name.phase = .readValue → (s.servers i).tables.Reached name.client name.opnum
  /-- A reader that a server is done with has enough elements or has said that it has. -/
  readed : ∀ {i key readed}, (s.servers i).tables.readedTable.lookup key = some readed →
    Released s key readed.opnum ∨
      ∃ request, (i, ⟨key, readed.opnum, .readComplete⟩, request) ∈ s.calls.requests.delivered
  /-- A registered reader has been sent the stored version if it asked for it. -/
  current : ∀ {i key reader}, (s.servers i).tables.readingTable.lookup key = some reader →
    reader.tr ≤ s.storedTag config object i →
      SentElement s i key reader.opnum (tagToString (s.storedTag config object i))

theorem tended_initial : Tended config object (State.initial : State n) where
  reached := fun h ↦ absurd h List.not_mem_nil
  readed := fun h ↦ by simp [State.initial, Server.initial] at h
  current := fun h ↦ by simp [State.initial, Server.initial] at h

/-- A step of a client changes nothing at the servers. -/
theorem Tended.serversKept (h : Tended config object s) (hkept : ServersKept s t) :
    Tended config object t where
  reached := fun hmem hphase ↦ by
    rw [hkept.delivered] at hmem
    rw [hkept.servers]
    exact h.reached hmem hphase
  readed := fun hreaded ↦ by
    rw [hkept.servers] at hreaded
    rw [hkept.delivered]
    exact (h.readed hreaded).imp_left fun hreleased ↦
      hreleased.mono fun _ hm ↦ by rwa [hkept.elements]
  current := fun hreader hle ↦ by
    rw [hkept.servers] at hreader
    rw [State.storedTag, hkept.servers] at hle ⊢
    exact (h.current hreader hle).mono fun _ hm ↦ by rwa [hkept.elements]

section ServerMove

variable {i j : Fin n} {name : CallId Phase} {frames : Body} {server : Server} {output : Output}
  {notice : Disperse}

/-- A handled request on the object tends to the readers. -/
theorem Tended.handle (hsourced : Sourced config s) (habout : About object s)
    (h : Tended config object s) (hsent : (i, name, frames) ∈ s.calls.requests.sent)
    (hhandles : Handles config.strcmp (config.serverArgs i)
      ((s.servers i).version config.initData) (s.servers i).tables name frames
      (server.version config.initData) server.tables output)
    (hsub : ∀ m ∈ s.elements.sent,
      m ∈ (s.handle (i, name, frames) server output).elements.sent) :
    Tended config object (s.handle (i, name, frames) server output) := by
  have hobject : frames.object = object := habout.requested hsent
  refine
    { reached := fun {j other request} hmem hphase ↦ ?_
      readed := fun {j key readed} hreaded ↦ ?_
      current := fun {j key reader} hreader hle ↦ ?_ }
  · rw [requests_delivered_handle] at hmem
    rw [servers_handle]
    rcases List.mem_cons.mp hmem with heq | hold
    · obtain ⟨rfl, rfl, rfl⟩ : j = i ∧ other = name ∧ request = frames := by simpa using heq
      rw [if_pos rfl]
      exact hhandles.reached_self hphase
    · split_ifs with hj
      · subst hj
        exact hhandles.reached (h.reached hold hphase)
      · exact h.reached hold hphase
  · rw [requests_delivered_handle]
    have hold : (s.servers j).tables.readedTable.lookup key = some readed →
        Released (s.handle (i, name, frames) server output) key readed.opnum ∨
          ∃ request, (j, ⟨key, readed.opnum, .readComplete⟩, request) ∈
            (i, name, frames) :: s.calls.requests.delivered := fun hbefore ↦
      (h.readed hbefore).imp (fun hreleased ↦ hreleased.mono hsub)
        fun ⟨request, hmem⟩ ↦ ⟨request, List.mem_cons_of_mem _ hmem⟩
    rw [servers_handle] at hreaded
    split_ifs at hreaded with hj
    · subst hj
      rcases hhandles.readed hreaded with hbefore | rfl
      · exact hold hbefore
      · exact Or.inr ⟨frames, List.mem_cons_self⟩
    · exact hold hreaded
  · rw [servers_handle] at hreader
    rw [State.storedTag, servers_handle] at hle ⊢
    split_ifs at hreader hle ⊢ with hj
    · subst hj
      subst hobject
      have hkeys : ∀ key reader, (s.servers j).tables.readingTable.lookup key = some reader →
        reader.readerId = key := fun _ _ hlookup ↦ (hsourced.registered hlookup).1
      rcases hhandles.current hkeys hreader hle with ⟨body, hbody, htag⟩ | ⟨hbefore, hsame⟩
      · exact ⟨body, mem_elements_handle.mpr (Or.inl ⟨rfl, hbody⟩), htag⟩
      · rw [Server.version, Server.version] at hsame
        rw [Server.version, hsame] at hle ⊢
        exact (h.current hbefore hle).mono hsub
    · exact (h.current hreader hle).mono hsub

/-- A handled notice tends to the readers. -/
theorem Tended.handleNotice (hsourced : Sourced config s) (h : Tended config object s)
    (hsent : (i, j, notice) ∈ s.disperses.sent)
    (hversion : server.version config.initData = (s.servers j).version config.initData)
    (hhandles : HandlesNotice (config.serverArgs j) (s.servers j).tables notice server.tables) :
    Tended config object (s.handleNotice (i, j, notice) server) := by
  refine
    { reached := fun {k other request} hmem hphase ↦ ?_
      readed := fun {k key readed} hreaded ↦ ?_
      current := fun {k key reader} hreader hle ↦ ?_ }
  · rw [servers_handleNotice]
    split_ifs with hk
    · subst hk
      exact hhandles.reached (h.reached hmem hphase)
    · exact h.reached hmem hphase
  · rw [servers_handleNotice] at hreaded
    split_ifs at hreaded with hk
    · subst hk
      by_cases hbefore : (s.servers k).tables.readedTable.lookup key = some readed
      · exact h.readed hbefore
      · exact Or.inl (hhandles.senders hsourced hsent hbefore hreaded)
    · exact h.readed hreaded
  · rw [storedTag_handleNotice hversion] at hle ⊢
    rw [servers_handleNotice] at hreader
    split_ifs at hreader with hk
    · subst hk
      exact h.current (hhandles.reading hreader) hle
    · exact h.current hreader hle

end ServerMove

/-- A step of a server on the object tends to its readers. -/
theorem Tended.serverMove (hsourced : Sourced config s) (habout : About object s)
    (h : Tended config object s) {a : Action n} (hmove : ServerMove config s a t)
    (hsub : ∀ m ∈ s.elements.sent, m ∈ t.elements.sent) : Tended config object t := by
  cases hmove with
  | serve i name frames server output hsent halive hwell hhandles =>
    exact h.handle hsourced habout hsent hhandles hsub
  | serveNotice i j notice server hsent halive hwell hversion hhandles =>
    exact h.handleNotice hsourced hsent hversion hhandles
  | stop => exact { h with }

/-- In every run on one object servers tend to their readers. -/
theorem Tended.of_run {guard : State n → Action n → Prop}
    (hobject : ∀ s a, guard s a → OneObject object a)
    (run : Run (step config) guard State.initial s) : Tended config object s := by
  refine run.invariant_reach tended_initial fun s a t hrun h _ hstep ↦ ?_
  rcases step_cases hstep with hclient | hserver
  · exact h.serversKept hclient.serversKept
  · exact h.serverMove (Sourced.of_run hrun) (About.of_run hobject hrun)
      (hserver.move (Shape.of_run hrun)) hserver.elements_subset

end Colas.Sodaw
