import Colas.Sodaw.Numbers
import Colas.Sodaw.Elements
import Colas.Sodaw.Tables

/-!
# What servers forget

When a read is over, its reader tells all servers so with a `READ_COMPLETE`. From then on the
operation is over at the server in the sense of `Tables.Over`, also if other messages about it come
later. So a server that has handled these messages of a reader whose reads have all returned has
nothing about the reader in its reading table and in its history table (`forgets_of_run`). The
readed table keeps one entry for each reader.

`reaches_of_run` says that a server of the system reaches its state by handling messages, so that
what holds of a server on its own holds of it in the system.
-/

set_option autoImplicit false
set_option relaxedAutoImplicit false

namespace Colas.Sodaw

open TransitionSystem

variable {n : ℕ} {config : Config n} {s t : State n} {guard : State n → Action n → Prop}

/-! ### A server of the system on its own -/

/-- A step of a server in the system is a message that it handles, and the other servers stay. -/
theorem ServerStep.handled {a : Action n} (h : ServerStep config s a t) (i : Fin n) :
    t.servers i = s.servers i ∨ ∃ message output, (s.servers i).handle config.strcmp
      (config.serverArgs i) message = some (t.servers i, output) := by
  cases h with
  | serve j name frames server output hsent halive hserver =>
    rw [servers_handle]
    split_ifs with hi
    · subst hi
      exact Or.inr ⟨.request name frames, output, hserver⟩
    · exact Or.inl rfl
  | serveNotice j k notice server hsent halive hserver =>
    rw [servers_handleNotice]
    split_ifs with hi
    · subst hi
      refine Or.inr ⟨.disperse notice, .none, ?_⟩
      rw [Server.handle, hserver]
      rfl
    · exact Or.inl rfl
  | stop => exact Or.inl rfl

/-- A server of the system reaches its state by handling messages. -/
theorem reaches_of_run (run : Run (step config) guard State.initial s) (i : Fin n) :
    Server.Reaches config.strcmp (config.serverArgs i) Server.initial (s.servers i) := by
  refine run.invariant (P := fun s ↦ Server.Reaches config.strcmp (config.serverArgs i)
    Server.initial (s.servers i)) Run.refl fun s a t h _ hstep ↦ ?_
  rcases step_cases hstep with hclient | hserver
  · rwa [hclient.serversKept.servers]
  · rcases hserver.handled i with hsame | ⟨message, output, hhandle⟩
    · rwa [hsame]
    · exact h.tail trivial (by rw [Server.step, hhandle]; rfl)

/-- No server keeps a notice about an operation that it is done with. -/
theorem cleared_of_reaches {strcmp : Strcmp} {args : ServerArgs} {server : Server}
    (hk : 1 ≤ args.k) (run : Server.Reaches strcmp args Server.initial server) :
    server.tables.Tidy args.k := by
  refine run.invariant (P := fun s ↦ s.tables.Tidy args.k) (tidy_initial hk)
    fun s message t htidy _ hstep ↦ ?_
  obtain ⟨output, hmoves⟩ := step_moves hstep
  exact hmoves.tidy hk htidy

/-! ### Reads that have returned -/

/-- The reads of a client up to a number have returned: it has started no operation with a greater
number than those of its reads that have returned. -/
def Finished (history : List Event) (clientId : CString) : Prop :=
  ∀ opnum, Invoked history clientId opnum → ∃ opnum' object tag value, opnum ≤ opnum' ∧
    .readCompleted clientId opnum' object tag value ∈ history

/-- A client whose last operation is a read that has returned. -/
theorem finished_of_last {history : List Event} {clientId object : CString} {opnum : ℕ} {tag : Tag}
    {value : Frame} (hreturned : .readCompleted clientId opnum object tag value ∈ history)
    (hbelow : ∀ e ∈ history, Event.Below clientId (opnum + 1) e) : Finished history clientId :=
  fun _ hinvoked ↦
    ⟨opnum, object, tag, value, Nat.lt_succ_iff.mp (lt_of_below hbelow hinvoked), hreturned⟩

/-- The server has handled the messages with which the client ends its reads. -/
def HandledCompletes (s : State n) (i : Fin n) (clientId : CString) : Prop :=
  s.calls.requests.NoneInFlight fun m ↦
    m.1 = i ∧ m.2.1.client = clientId ∧ m.2.1.phase = .readComplete

instance (s : State n) (i : Fin n) (clientId : CString) :
    Decidable (HandledCompletes s i clientId) :=
  inferInstanceAs (Decidable (s.calls.requests.NoneInFlight fun m ↦
    m.1 = i ∧ m.2.1.client = clientId ∧ m.2.1.phase = .readComplete))

/-- The tables have nothing about a reader that is not done with. -/
structure Tables.Forgets (tables : Tables) (readerid : CString) : Prop where
  /-- The reader is not registered. -/
  reading : tables.readingTable.lookup readerid = none
  /-- No notice is about the reader. -/
  history : ∀ {key his}, tables.historyTable.lookup key = some his → his.readerid ≠ readerid

/-- What the end of a read does. -/
structure Ended (config : Config n) (s : State n) : Prop where
  /-- A reader has told every server that a read is over which has returned. -/
  told : ∀ {clientId opnum object tag value},
    .readCompleted clientId opnum object tag value ∈ s.history →
      Asked s.calls ⟨clientId, opnum, .readComplete⟩ fun _ ↦ True
  /-- At a server that has been told so, the operation is over. -/
  handled : ∀ {i clientId opnum frames},
    (i, ⟨clientId, opnum, .readComplete⟩, frames) ∈ s.calls.requests.delivered →
      (s.servers i).tables.Over clientId opnum

theorem ended_initial : Ended config (State.initial : State n) where
  told := fun h ↦ absurd h List.not_mem_nil
  handled := fun h ↦ absurd h List.not_mem_nil

/-- A `READ_COMPLETE` that is handled ends its operation. -/
theorem over_of_readComplete {strcmp : Strcmp} {args : ServerArgs}
    {version version' : CString → Tag × Frame} {tables tables' : Tables} {name : CallId Phase}
    {request : Body} {output : Output}
    (h : Handles strcmp args version tables name request version' tables' output)
    (hdisjoint : tables.Disjoint) (hphase : name.phase = .readComplete) :
    tables'.Over name.client name.opnum := by
  cases h with
  | ignore _ hstale =>
    rcases isStale_iff.mp hstale with ⟨readed, hlookup, hle⟩ | hlater
    · refine Or.inl ⟨readed, hlookup, hle, (hdisjoint name.client).resolve_right ?_⟩
      rw [hlookup]
      exact Option.some_ne_none _
    · exact Or.inr hlater
  | complete =>
    refine Or.inl ⟨⟨request.tagValue, name.opnum, name.client⟩, ?_, le_rfl, ?_⟩
    · rw [readed_moveToReaded, if_pos rfl]
    · rw [reading_moveToReaded, if_pos rfl]
  | report hother => simp [hphase] at hother
  | refuse hother => simp [hphase] at hother
  | adopt hother => simp [hphase] at hother
  | register hother => simp [hphase] at hother
  | serve hother => simp [hphase] at hother

/-- A turn of a client tells all servers when a read of it returns. -/
theorem Ended.takeTurn (h : Ended config s) {clientId : CString} {turn : Turn n Client Phase}
    (hturn : ∀ opnum object tag value, turn.event = some (.readCompleted clientId opnum object tag
      value) → ∃ content, turn.multicast = some (⟨clientId, opnum, .readComplete⟩, content))
    (hown : ∀ {other opnum object tag value}, turn.event = some (.readCompleted other opnum object
      tag value) → other = clientId) : Ended config (s.takeTurn clientId turn) where
  told := fun {other opnum object tag value} he ↦ by
    rcases List.mem_append.mp he with hnew | hold
    · have hevent := Option.mem_toList.mp hnew
      obtain rfl := hown hevent
      obtain ⟨content, hcall⟩ := hturn _ _ _ _ hevent
      exact Turn.asked hcall fun _ ↦ trivial
    · exact (h.told hold).mono (serversKept_takeTurn s clientId turn).requests
  handled := fun hmem ↦ by
    rw [(serversKept_takeTurn s clientId turn).delivered] at hmem
    exact h.handled hmem

/-- A turn that is not the end of a read. -/
theorem Ended.takeTurn_of_ne (h : Ended config s) {clientId : CString}
    {turn : Turn n Client Phase} (hturn : ∀ other opnum object tag value,
      turn.event ≠ some (.readCompleted other opnum object tag value)) :
    Ended config (s.takeTurn clientId turn) :=
  h.takeTurn (fun _ _ _ _ hevent ↦ absurd hevent (hturn _ _ _ _ _))
    fun hevent ↦ absurd hevent (hturn _ _ _ _ _)

/-- No read returns on a message. -/
theorem Receives.not_readCompleted {clientId : CString} {opNum : ℕ} {frames : Body} {phase : Phase}
    {client : Client} {turn : Turn n Client Phase}
    (h : Receives clientId opNum frames phase client turn) (other : CString) (opnum : ℕ)
    (object : CString) (tag : Tag) (value : Frame) :
    turn.event ≠ some (.readCompleted other opnum object tag value) := by
  cases h <;> rintro ⟨⟩

/-- A step of a client keeps the ends of reads. -/
theorem Ended.clientStep (h : Ended config s) {a : Action n} (hstep : ClientStep config s a t) :
    Ended config t := by
  cases hstep with
  | write => exact h.takeTurn_of_ne (by rintro _ _ _ _ _ ⟨⟩)
  | read => exact h.takeTurn_of_ne (by rintro _ _ _ _ _ ⟨⟩)
  | receive i name frames turn hsent hturn =>
    have hcollected : Ended config { s with calls := s.calls.collect (i, name, frames) } :=
      { h with }
    exact hcollected.takeTurn_of_ne hturn.not_readCompleted
  | receiveElement i name frames turn hsent hturn =>
    have hdelivered : Ended config { s with elements := s.elements.deliver (i, name, frames) } :=
      { h with }
    exact hdelivered.takeTurn_of_ne hturn.not_readCompleted
  | timeout clientId turn hturn =>
    generalize hclient : s.clients clientId = client at hturn
    cases hturn with
    | startWrite => exact h.takeTurn_of_ne (by rintro _ _ _ _ _ ⟨⟩)
    | startRead => exact h.takeTurn_of_ne (by rintro _ _ _ _ _ ⟨⟩)
    | decoded =>
      refine h.takeTurn ?_ (by rintro _ _ _ _ _ ⟨⟩; rfl)
      rintro _ _ _ _ ⟨⟩
      exact ⟨_, rfl⟩
    | failed => exact h.takeTurn_of_ne (by rintro _ _ _ _ _ ⟨⟩)

/-- A step of a server keeps the ends of reads. -/
theorem Ended.serverStep (hshape : Shape config s) (h : Ended config s)
    (hdisjoint : ∀ i, (s.servers i).tables.Disjoint) {a : Action n}
    (hstep : ServerStep config s a t) : Ended config t := by
  obtain ⟨-, hhistory, hrequests, -, -⟩ := hstep.clients_eq
  have hkeeps : ∀ {i clientId opnum}, (s.servers i).tables.Over clientId opnum →
      (t.servers i).tables.Over clientId opnum := by
    intro i clientId opnum hover
    rcases hstep.handled i with hsame | ⟨message, output, hhandle⟩
    · rwa [hsame]
    · exact (handle_moves hhandle).over hover
  refine ⟨fun he ↦ ?_, fun {i clientId opnum frames} hmem ↦ ?_⟩
  · rw [hhistory] at he
    exact (h.told he).mono fun m hm ↦ hrequests ▸ hm
  · cases hstep.move hshape with
    | serve j name request server output hsent halive hwell hhandles =>
      rw [requests_delivered_handle] at hmem
      rcases List.mem_cons.mp hmem with hself | hold
      · obtain ⟨rfl, rfl, rfl⟩ : i = j ∧ ⟨clientId, opnum, .readComplete⟩ = name ∧
          frames = request := by simpa using hself
        rw [servers_handle, if_pos rfl]
        exact over_of_readComplete hhandles (hdisjoint i) rfl
      · exact hkeeps (h.handled hold)
    | serveNotice => exact hkeeps (h.handled hmem)
    | stop => exact hkeeps (h.handled hmem)

theorem Ended.of_run (run : Run (step config) guard State.initial s) : Ended config s :=
  run.invariant_reach ended_initial fun _ _ _ hrun h _ hstep ↦
    (step_cases hstep).elim h.clientStep
      (h.serverStep (Shape.of_run hrun) fun i ↦ disjoint_of_run (reaches_of_run hrun i))

/-! ### Nothing is left of them -/

/-- Operations that are over and that were asked for are followed by operations of the reader. -/
theorem forgets_of_over {args : ServerArgs} {strcmp : Strcmp} {server : Server}
    {readerid : CString} (hk : 1 ≤ args.k)
    (run : Server.Reaches strcmp args Server.initial server)
    (hover : ∀ opnum, (∃ key his, server.tables.historyTable.lookup key = some his ∧
        his.readerid = readerid ∧ his.opnum = opnum) ∨ server.tables.Registered readerid opnum →
      ∃ opnum', opnum ≤ opnum' ∧ server.tables.Over readerid opnum') :
    server.tables.Forgets readerid := by
  have hkeyed := keyed_of_run run
  have hnone : server.tables.readingTable.lookup readerid = none := by
    by_contra hsome
    obtain ⟨reading, hreading⟩ := Option.ne_none_iff_exists'.mp hsome
    have hregistered : server.tables.Registered readerid reading.opnum :=
      ⟨readerid, reading, hreading, hkeyed _ _ hreading, rfl⟩
    obtain ⟨opnum', hle, hlater⟩ := hover _ (Or.inr hregistered)
    exact absurd (hlater.lt_of_registered hkeyed hregistered) (not_lt.mpr hle)
  refine ⟨hnone, fun {key his} hhis hreader ↦ ?_⟩
  obtain ⟨opnum', hle, hlater⟩ := hover _ (Or.inl ⟨key, his, hhis, hreader, rfl⟩)
  rcases hlater with ⟨readed, hreaded, hdone, -⟩ | ⟨reading, hreading, -⟩
  · have hcleared := (cleared_of_reaches hk run).cleared hreaded hhis hreader
    omega
  · rw [hnone] at hreading
    cases hreading

/-- In every run in which no operation number is used twice, a server that has handled the
`READ_COMPLETE` messages of a client whose reads have all returned has nothing about the client in
its reading table and in its history table, whatever else is on its way. -/
theorem forgets_of_run (run : Run (step config) FreshNumbers State.initial s) {i : Fin n}
    {clientId : CString} (hfinished : Finished s.history clientId)
    (hhandled : HandledCompletes s i clientId) : (s.servers i).tables.Forgets clientId := by
  have hsourced := Sourced.of_run run
  have hended := Ended.of_run run
  have hserved := (Shape.of_run run).served
  have hnumbered := Numbered.of_run (fun _ _ h ↦ h) run
  have hk : 1 ≤ (config.serverArgs i).k := majority_pos n
  refine forgets_of_over hk (reaches_of_run run i) fun opnum hknown ↦ ?_
  have hasked : ∃ j frames, (j, ⟨clientId, opnum, .readValue⟩, frames) ∈
      s.calls.requests.delivered := by
    rcases hknown with ⟨key, his, hhis, rfl, rfl⟩ | ⟨key, reader, hreader, rfl, rfl⟩
    · obtain ⟨-, j, -, element, hsent, -⟩ := hsourced.recorded hhis
      obtain ⟨-, ⟨request, hrequest, -⟩, -⟩ := hsourced.element hsent
      exact ⟨j, request, hrequest⟩
    · obtain ⟨rfl, request, hrequest, -⟩ := hsourced.registered hreader
      exact ⟨i, request, hrequest⟩
  obtain ⟨j, frames, hdelivered⟩ := hasked
  obtain ⟨opnum', object, tag, value, hle, hcompleted⟩ :=
    hfinished opnum (hnumbered.issued ⟨j, frames, hserved _ hdelivered⟩)
  obtain ⟨request, hsent, -⟩ := hended.told hcompleted i
  exact ⟨opnum', hle, hended.handled (hhandled _ hsent ⟨rfl, rfl, rfl⟩)⟩

/-- The read on three servers returns, the first server handles its `READ_COMPLETE`, and then the
notice of the second server comes there. -/
def endedRead (first second : Fin 3) : List (Action 3) :=
  sampleWrite [1, 2, 3, 4] ++ sampleRead [1, 2, 3, 4] ++
    [ .timeout (ascii ['r']),
      .serve (first, ⟨ascii ['r'], 1, .readComplete⟩,
        ⟨ascii ['o'], tagToString ⟨1, ascii ['w']⟩, []⟩),
      .serveNotice (second, first, sampleNotice second) ]

/-- The first server has nothing about the reader after its read, and the second server, which has
not handled the `READ_COMPLETE`, still has the reader registered. -/
theorem forgets_of_run_sample : ∃ s : State 3,
    (s.servers 1).tables.readingTable.lookup (ascii ['r']) ≠ none ∧
      (s.servers 0).tables.Forgets (ascii ['r']) := by
  have hview : (execute (step (sampleConfig 3)) FreshNumbers State.initial
      (endedRead 0 1)).map (fun s ↦
      (decide ((s.servers 1).tables.readingTable.lookup (ascii ['r']) ≠ none),
        decide (HandledCompletes s 0 (ascii ['r'])),
        decide (s.history = sampleHistory [1, 2, 3, 4]))) = some (true, true, true) := by
    decide +kernel
  obtain ⟨s, hexecute, hs⟩ := Option.map_eq_some_iff.mp hview
  obtain ⟨hregistered, hrest⟩ := Prod.mk.inj hs
  obtain ⟨hhandled, hhistory⟩ := Prod.mk.inj hrest
  have hfinished : Finished s.history (ascii ['r']) := by
    rw [of_decide_eq_true hhistory]
    exact finished_of_last List.mem_cons_self (by decide)
  exact ⟨s, of_decide_eq_true hregistered,
    forgets_of_run (run_of_execute hexecute) hfinished (of_decide_eq_true hhandled)⟩

end Colas.Sodaw
