import Colas.Library.Run
import Colas.Sodaw.Server

/-!
# The reader tables of one server

Here a server is on its own and gets any messages, in any order: requests of every phase, notices
and messages with a phase that `algorithm_SODAW` does not know, with whatever strings in their
frames. A run ends where a handler fails.

`Moves` lists what a message does to the tables and whom it sends something about. From it follows
that the tables stay tidy (`tidy_of_run`): no reader is both registered and done with, no notice is
kept about an operation that is over, and fewer than `K` notices agree. And a reader that the server
is done with stays so (`over_stays_over`): later registrations, elements and notices are about later
operations. For that the operation has to be remembered when the entry of the readed table is
dropped (`Tables.Over`), which happens only if a later operation takes its place.
-/

set_option autoImplicit false
set_option relaxedAutoImplicit false

namespace Colas.Sodaw

open TransitionSystem

/-- A message that a server gets. -/
inductive Message
  /-- A request of a client. -/
  | request (name : CallId Phase) (frames : Body)
  /-- A `READ_DISPERSE` of a server. -/
  | disperse (notice : Disperse)
  /-- A message with any other `PHASE`, about the object. -/
  | other (object : CString)

/-- `OBJECT`. -/
def Message.object : Message → CString
  | .request _ frames => frames.object
  | .disperse notice => notice.object
  | .other object => object

/-- `algorithm_SODAW`: what a server does with a message. -/
def Server.handle (strcmp : Strcmp) (args : ServerArgs) (server : Server) :
    Message → Option (Server × Output)
  | .request name frames => algorithmSODAW strcmp args server name frames
  | .disperse notice =>
    (algorithmSODAWOnNotice args server notice).map fun server' ↦ (server', .none)
  | .other object => some (server.create args object, .none)

/-- The state of a server after a message. -/
def Server.step (strcmp : Strcmp) (args : ServerArgs) (server : Server) (message : Message) :
    Option Server :=
  (server.handle strcmp args message).map Prod.fst

/-- A server reaches a state by handling messages. -/
abbrev Server.Reaches (strcmp : Strcmp) (args : ServerArgs) : Server → Server → Prop :=
  Run (Server.step strcmp args) fun _ _ ↦ True

/-! ### What a message does to the tables -/

/-- Everything that is sent beside the response is about an operation of a reader as described. -/
structure Output.About (output : Output) (about : CString → ℕ → Prop) : Prop where
  /-- The coded elements are for such an operation. -/
  elements : ∀ element ∈ output.elements, about element.1.client element.1.opnum
  /-- The notices are about such an operation. -/
  disperses : ∀ notice ∈ output.disperses, about notice.readerid notice.opnum

/-- The reader is registered for the operation. -/
def Tables.Registered (tables : Tables) (readerid : CString) (opnum : ℕ) : Prop :=
  ∃ key reader, tables.readingTable.lookup key = some reader ∧ reader.readerId = readerid ∧
    reader.opnum = opnum

/-- The message is one of a reader that begins or ends its operation, or a notice about it. -/
def Message.IsAbout : Message → CString → ℕ → Prop
  | .request name _, readerid, opnum =>
    (name.phase = .readValue ∨ name.phase = .readComplete) ∧ name.client = readerid ∧
      name.opnum = opnum
  | .disperse notice, readerid, opnum => notice.readerid = readerid ∧ notice.opnum = opnum
  | .other _, _, _ => False

/-- What a message does to the tables of a server, with what is sent, where `about` are the readers
and the operations that the message is about. -/
inductive Moves (k : ℕ) (about : CString → ℕ → Prop) (tables : Tables) : Tables → Output → Prop
  /-- The tables stay. Registered readers may be sent elements. -/
  | keep (output : Output) (habout : output.About tables.Registered) :
    Moves k about tables tables output
  /-- A reader is registered and may be sent an element. -/
  | register (tag : Tag) (readerid : CString) (opnum : ℕ) (output : Output)
    (hreader : about readerid opnum) (hfresh : ¬ tables.isStale readerid opnum = true)
    (habout : output.About fun r o ↦ r = readerid ∧ o = opnum) :
    Moves k about tables (tables.register tag readerid opnum) output
  /-- A reader is done, because it says so or because enough notices agree. -/
  | complete (tag : Tag) (readerid : CString) (opnum : ℕ) (hreader : about readerid opnum)
    (hfresh : ¬ tables.isStale readerid opnum = true) :
    Moves k about tables (tables.moveToReaded tag readerid opnum) .none
  /-- A notice is recorded, and too few agree. -/
  | record (his : HistoryData) (hfresh : ¬ tables.isStale his.readerid his.opnum = true)
    (hfew : (historydataLookup (tables.record his).historyTable his.readerid his.opnum
      his.sendTagStr).length < k) :
    Moves k about tables (tables.record his) .none

/-- A notice that ends the service of its reader is dropped with the others. -/
theorem record_moveToReaded (tables : Tables) (tag : Tag) (his : HistoryData) :
    (tables.record his).moveToReaded tag his.readerid his.opnum =
      tables.moveToReaded tag his.readerid his.opnum := by
  have hhistory : historydataClearByReaderidOpnum (tables.record his).historyTable his.readerid
      his.opnum = historydataClearByReaderidOpnum tables.historyTable his.readerid his.opnum := by
    simp only [Tables.record, zhashInsert]
    split_ifs with hkey
    · rfl
    · refine AList.ext ?_
      simp [historydataClearByReaderidOpnum, AList.insert_of_notMem hkey]
  rw [Tables.moveToReaded, hhistory]
  rfl

section Inversion

variable {strcmp : Strcmp} {args : ServerArgs} {server server' : Server} {output : Output}
  {name : CallId Phase} {request : Body} {about : CString → ℕ → Prop}

theorem about_none : Output.none.About about :=
  ⟨fun _ h ↦ absurd h List.not_mem_nil, fun _ h ↦ absurd h List.not_mem_nil⟩

theorem about_reply {response : Body} :
    (Output.reply response).About about :=
  ⟨fun _ h ↦ absurd h List.not_mem_nil, fun _ h ↦ absurd h List.not_mem_nil⟩

theorem about_relayed (tables : Tables) (tagW : Tag) :
    (relayed strcmp args tables request tagW).About tables.Registered where
  elements := fun element helement ↦ by
    obtain ⟨reader, ⟨⟨key, hkey⟩, -⟩, rfl⟩ := mem_relayed_elements.mp helement
    exact ⟨key, reader, hkey, rfl, rfl⟩
  disperses := fun notice hnotice ↦ by
    obtain ⟨reader, ⟨⟨key, hkey⟩, -⟩, rfl⟩ := mem_relayed_disperses.mp hnotice
    exact ⟨key, reader, hkey, rfl, rfl⟩

theorem about_firstElement {object : CString} {tagLoc tagR : Tag} {payload : Frame} :
    (firstElement args name object tagLoc tagR payload).About
      fun r o ↦ r = name.client ∧ o = name.opnum where
  elements := fun element helement ↦ by
    obtain rfl := List.mem_singleton.mp helement
    exact ⟨rfl, rfl⟩
  disperses := fun notice hnotice ↦ by
    obtain rfl := List.mem_singleton.mp hnotice
    exact ⟨rfl, rfl⟩

/-- What a message does at a server that has the object which it names, whatever the tables of the
objects hold: the state afterwards and what is sent. -/
inductive Handled (strcmp : Strcmp) (args : ServerArgs) (server : Server) :
    Message → Server → Output → Prop
  /-- A client asks for the tag. -/
  | report (name : CallId Phase) (request : Body) (tag : Tag)
    (hphase : name.phase = .writeGet ∨ name.phase = .readGet) :
    Handled strcmp args server (.request name request) server
      (.reply ⟨request.object, tagToString tag, []⟩)
  /-- A greater version replaces the stored one and is relayed. -/
  | adopt (name : CallId Phase) (request : Body) (tagW tag : Tag) (objects : ObjectTable)
    (key : CString) (hphase : name.phase = .writePut) (htagW : stringToTag request.tag = some tagW)
    (htag : getObjectTag server.objects request.object = some tag)
    (hadopts : 0 < compareTags strcmp tagW tag)
    (hreplace : replaceVersion server.objects request.object request.tag request.payload =
      some (objects, key)) :
    Handled strcmp args server (.request name request) { server with objects := objects }
      (relayed strcmp args server.tables request tagW)
  /-- A version that is not greater is acknowledged. -/
  | refuse (name : CallId Phase) (request : Body) (tagW tag : Tag) (hphase : name.phase = .writePut)
    (htagW : stringToTag request.tag = some tagW)
    (htag : getObjectTag server.objects request.object = some tag)
    (hrefuses : ¬ 0 < compareTags strcmp tagW tag) :
    Handled strcmp args server (.request name request) server
      (.reply ⟨request.object, request.tag, []⟩)
  /-- A request about an operation that is over changes nothing. -/
  | ignore (name : CallId Phase) (request : Body)
    (hphase : name.phase = .readValue ∨ name.phase = .readComplete)
    (hstale : server.tables.isStale name.client name.opnum = true) :
    Handled strcmp args server (.request name request) server .none
  /-- A reader is registered and may be sent the stored element. -/
  | register (name : CallId Phase) (request : Body) (tagR : Tag) (output : Output)
    (hphase : name.phase = .readValue)
    (hfresh : ¬ server.tables.isStale name.client name.opnum = true)
    (houtput : output = .none ∨ ∃ tagLoc payload,
      output = firstElement args name request.object tagLoc tagR payload) :
    Handled strcmp args server (.request name request)
      { server with tables := server.tables.register tagR name.client name.opnum } output
  /-- A reader says that it is done. -/
  | complete (name : CallId Phase) (request : Body) (tagR : Tag)
    (hphase : name.phase = .readComplete)
    (hfresh : ¬ server.tables.isStale name.client name.opnum = true) :
    Handled strcmp args server (.request name request)
      { server with tables := server.tables.moveToReaded tagR name.client name.opnum } .none
  /-- A notice about an operation that is over changes nothing. -/
  | ignoreNotice (notice : Disperse)
    (hstale : server.tables.isStale notice.readerid notice.opnum = true) :
    Handled strcmp args server (.disperse notice) server .none
  /-- A notice is recorded, and too few agree. -/
  | record (notice : Disperse)
    (hfresh : ¬ server.tables.isStale notice.readerid notice.opnum = true)
    (hfew : ¬ args.k ≤ (historydataLookup (server.tables.record notice.history).historyTable
      notice.readerid notice.opnum notice.sendTag).length) :
    Handled strcmp args server (.disperse notice)
      { server with tables := server.tables.record notice.history } .none
  /-- A notice is recorded, and with it there are enough. -/
  | move (notice : Disperse) (readTag : Tag)
    (hfresh : ¬ server.tables.isStale notice.readerid notice.opnum = true)
    (hmany : args.k ≤ (historydataLookup (server.tables.record notice.history).historyTable
      notice.readerid notice.opnum notice.sendTag).length) :
    Handled strcmp args server (.disperse notice)
      { server with
        tables := (server.tables.record notice.history).moveToReaded readTag notice.readerid
          notice.opnum } .none
  /-- The phase is not known. -/
  | other (object : CString) : Handled strcmp args server (.other object) server .none

/-- A message that is handled is handled by a server that has the object which it names. -/
theorem handled_of_handle {message : Message}
    (h : server.handle strcmp args message = some (server', output)) :
    Handled strcmp args (server.create args message.object) message server' output := by
  cases message with
  | request name frames =>
    simp only [Server.handle, algorithmSODAW] at h
    cases hphase : name.phase <;> simp only [hphase] at h
    · obtain ⟨rfl, tag, rfl⟩ := report_cases h
      exact .report name frames tag (Or.inl hphase)
    · obtain ⟨tagW, tag, htagW, htag, ⟨hadopts, ⟨objects, key, hreplace, rfl⟩, rfl⟩ |
        ⟨hrefuses, rfl, rfl⟩⟩ := writePut_cases h
      · exact .adopt name frames tagW tag objects key hphase htagW htag hadopts hreplace
      · exact .refuse name frames tagW tag hphase htagW htag hrefuses
    · obtain ⟨rfl, tag, rfl⟩ := report_cases h
      exact .report name frames tag (Or.inr hphase)
    · obtain ⟨hstale, rfl, rfl⟩ | ⟨hfresh, tagR, rfl, houtput⟩ := readValue_cases h
      · exact .ignore name frames (Or.inl hphase) hstale
      · exact .register name frames tagR output hphase hfresh houtput
    · obtain ⟨rfl, ⟨hstale, rfl⟩ | ⟨hfresh, tagR, rfl⟩⟩ := readComplete_cases h
      · exact .ignore name frames (Or.inr hphase) hstale
      · exact .complete name frames tagR hphase hfresh
  | disperse notice =>
    simp only [Server.handle, Option.map_eq_some_iff, Prod.mk.injEq] at h
    obtain ⟨after, hafter, rfl, rfl⟩ := h
    obtain ⟨hstale, rfl⟩ | ⟨hfresh, -, ⟨hmany, readTag, rfl⟩ | ⟨hfew, rfl⟩⟩ :=
      readDisperse_cases hafter
    · exact .ignoreNotice notice hstale
    · exact .move notice readTag hfresh hmany
    · exact .record notice hfresh hfew
  | other object =>
    simp only [Server.handle, Option.some.injEq, Prod.mk.injEq] at h
    obtain ⟨rfl, rfl⟩ := h
    exact .other object

theorem Handled.moves {message : Message} (h : Handled strcmp args server message server' output) :
    Moves args.k message.IsAbout server.tables server'.tables output := by
  cases h with
  | report | refuse => exact .keep _ about_reply
  | adopt name request tagW => exact .keep _ (about_relayed server.tables tagW)
  | ignore | ignoreNotice | other => exact .keep _ about_none
  | register name request tagR output hphase hfresh houtput =>
    have habout : output.About fun r o ↦ r = name.client ∧ o = name.opnum := by
      rcases houtput with rfl | ⟨tagLoc, payload, rfl⟩
      · exact about_none
      · exact about_firstElement
    exact .register tagR name.client name.opnum output ⟨Or.inl hphase, rfl, rfl⟩ hfresh habout
  | complete name request tagR hphase hfresh =>
    exact .complete tagR name.client name.opnum ⟨Or.inr hphase, rfl, rfl⟩ hfresh
  | record notice hfresh hfew => exact .record notice.history hfresh (not_le.mp hfew)
  | move notice readTag hfresh hmany =>
    change Moves args.k (Message.disperse notice).IsAbout server.tables
      ((server.tables.record notice.history).moveToReaded readTag notice.history.readerid
        notice.history.opnum) .none
    rw [record_moveToReaded]
    exact .complete readTag _ _ ⟨rfl, rfl⟩ hfresh

/-- What a message that is handled does to the tables. -/
theorem handle_moves {message : Message}
    (h : server.handle strcmp args message = some (server', output)) :
    Moves args.k message.IsAbout server.tables server'.tables output :=
  (handled_of_handle h).moves

theorem Handled.hasObject {message : Message}
    (h : Handled strcmp args server message server' output) {object : CString} :
    hasObject server'.objects object = true ↔ hasObject server.objects object = true := by
  cases h with
  | adopt name request tagW tag objects key hphase htagW htag hadopts hreplace =>
    exact hasObject_replaceVersion_iff hreplace
  | _ => exact Iff.rfl

/-- A message adds the object that it names and no other. -/
theorem handle_hasObject {message : Message}
    (h : server.handle strcmp args message = some (server', output)) {object : CString} :
    hasObject server'.objects object = true ↔
      object = message.object ∨ hasObject server.objects object = true :=
  (handled_of_handle h).hasObject.trans (hasObject_createObject_iff args.initData server.status)

theorem step_moves {message : Message} (h : server.step strcmp args message = some server') :
    ∃ output, Moves args.k message.IsAbout server.tables server'.tables output := by
  obtain ⟨⟨after, output⟩, hhandle, rfl⟩ := Option.map_eq_some_iff.mp h
  exact ⟨output, handle_moves hhandle⟩

end Inversion

/-! ### Concrete messages -/

section Sample

/-- The state of a server after messages that are all handled. -/
def Server.after (strcmp : Strcmp) (args : ServerArgs) (server : Server) (messages : List Message) :
    Server :=
  (execute (Server.step strcmp args) (fun _ _ ↦ True) server messages).getD server

theorem Server.reaches_after {strcmp : Strcmp} {args : ServerArgs} {server : Server}
    {messages : List Message}
    (h : (execute (Server.step strcmp args) (fun _ _ ↦ True) server messages).isSome = true) :
    Server.Reaches strcmp args server (server.after strcmp args messages) := by
  obtain ⟨last, hlast⟩ := Option.isSome_iff_exists.mp h
  rw [Server.after, hlast, Option.getD_some]
  exact run_of_execute hlast

/-- A server of a system in which two elements are enough. -/
def sampleArgs : ServerArgs := ⟨ascii ['s', '1'], [1], 2⟩

/-- A reader registers, and two servers say that they have sent it the initial element. -/
def finishing : List Message :=
  [.request ⟨ascii ['r'], 1, .readValue⟩ ⟨ascii ['o'], tagToString initTag, []⟩,
    .disperse ⟨ascii ['s', '1'], ascii ['o'], tagToString initTag, ascii ['r'],
      tagToString initTag, 1⟩,
    .disperse ⟨ascii ['s', '2'], ascii ['o'], tagToString initTag, ascii ['r'],
      tagToString initTag, 1⟩]

/-- The request of the reader comes once more, and then a version is written. -/
def afterwards : List Message :=
  [.request ⟨ascii ['r'], 1, .readValue⟩ ⟨ascii ['o'], tagToString initTag, []⟩,
    .request ⟨ascii ['w'], 1, .writePut⟩ ⟨ascii ['o'], tagToString ⟨1, ascii ['w']⟩, [2]⟩]

/-- The server after the first messages. -/
def finishedServer : Server := Server.initial.after Strcmp.sign sampleArgs finishing

theorem reaches_finishedServer :
    Server.Reaches Strcmp.sign sampleArgs Server.initial finishedServer :=
  Server.reaches_after (by decide +kernel)

end Sample

/-! ### Tidy tables -/

/-- No reader is both registered and done with. -/
def Tables.Disjoint (tables : Tables) : Prop :=
  ∀ readerid, tables.readingTable.lookup readerid = none ∨
    tables.readedTable.lookup readerid = none

/-- The history table is in order. -/
structure Tables.Tidy (k : ℕ) (tables : Tables) : Prop where
  /-- No notice is kept about an operation that is over. -/
  cleared : ∀ {readerid readed key his}, tables.readedTable.lookup readerid = some readed →
    tables.historyTable.lookup key = some his → his.readerid = readerid → readed.opnum < his.opnum
  /-- Fewer than `K` notices are about the same operation and tag. -/
  few : ∀ readerid opnum sendTag,
    (historydataLookup tables.historyTable readerid opnum sendTag).length < k

section Tidy

variable {k : ℕ} {about : CString → ℕ → Prop} {tables tables' : Tables} {his : HistoryData}
  {output : Output} {readerid other : CString} {opnum opnum' : ℕ} {sendTag : CString}

/-- A message keeps the reading table and the readed table disjoint. -/
theorem Moves.disjoint (h : Moves k about tables tables' output) (hdisjoint : tables.Disjoint) :
    tables'.Disjoint := by
  intro other
  cases h with
  | register tag readerid =>
    rw [reading_register, readed_register]
    split_ifs
    · exact Or.inr rfl
    · exact hdisjoint other
  | complete tag readerid =>
    rw [reading_moveToReaded, readed_moveToReaded]
    split_ifs
    · exact Or.inl rfl
    · exact hdisjoint other
  | _ => exact hdisjoint other

/-- A recorded notice counts for its own operation and tag only. -/
theorem historydataLookup_record
    (hother : ¬ (his.readerid = readerid ∧ opnum = his.opnum ∧ his.sendTagStr = sendTag)) :
    historydataLookup (tables.record his).historyTable readerid opnum sendTag =
      historydataLookup tables.historyTable readerid opnum sendTag := by
  simp only [Tables.record, zhashInsert]
  split_ifs with hkey
  · rfl
  · rw [historydataLookup, AList.insert_of_notMem hkey, List.filter_cons_of_neg]
    · rfl
    · simpa using hother

/-- `historydata_clear_by_readerid_opnum` drops the notices about the operations of a reader up to a
number, and no others. -/
theorem historydataLookup_clear {historyTab : ZHash HistoryData} :
    historydataLookup (historydataClearByReaderidOpnum historyTab other opnum') readerid opnum
        sendTag =
      if readerid = other ∧ opnum ≤ opnum' then []
      else historydataLookup historyTab readerid opnum sendTag := by
  simp only [historydataLookup, historydataClearByReaderidOpnum, List.filter_filter]
  split_ifs with hcleared
  · obtain ⟨rfl, hle⟩ := hcleared
    rw [List.map_eq_nil_iff, List.filter_eq_nil_iff]
    rintro e - he
    simp only [Bool.and_eq_true, decide_eq_true_eq] at he
    obtain ⟨⟨hreader, hopnum, -⟩, hkept⟩ := he
    exact hkept ⟨hreader, hopnum ▸ hle⟩
  · congr 1
    refine List.filter_congr fun e _ ↦ ?_
    simp only [Bool.and_eq_decide, decide_eq_true_eq, decide_eq_decide]
    refine and_iff_left_of_imp fun ⟨hreader, hopnum, _⟩ hdrop ↦ hcleared ?_
    exact ⟨hreader.symm.trans hdrop.1, hopnum ▸ hdrop.2⟩

theorem tidy_initial (hk : 1 ≤ k) : Server.initial.tables.Tidy k where
  cleared := fun h ↦ by simp [Server.initial] at h
  few := fun _ _ _ ↦ hk

/-- Registering a reader. -/
theorem Tables.Tidy.register (h : tables.Tidy k) (tag : Tag) :
    (tables.register tag readerid opnum).Tidy k where
  cleared := fun {other readed key his} hreaded hhis hreader ↦ by
    rw [readed_register] at hreaded
    split_ifs at hreaded
    exact h.cleared hreaded hhis hreader
  few := h.few

/-- Recording a notice about an operation that is not over, if still too few agree. -/
theorem Tables.Tidy.record (h : tables.Tidy k)
    (hfresh : ¬ tables.isStale his.readerid his.opnum = true)
    (hfew : (historydataLookup (tables.record his).historyTable his.readerid his.opnum
      his.sendTagStr).length < k) : (tables.record his).Tidy k where
  cleared := fun {readerid readed key item} hreaded hitem hreader ↦ by
    rcases history_record hitem with hold | ⟨-, rfl⟩
    · exact h.cleared hreaded hold hreader
    · subst hreader
      exact not_le.mp fun hle ↦ hfresh (isStale_iff.mpr (Or.inl ⟨readed, hreaded, hle⟩))
  few := fun readerid opnum sendTag ↦ by
    by_cases hself : his.readerid = readerid ∧ opnum = his.opnum ∧ his.sendTagStr = sendTag
    · obtain ⟨rfl, rfl, rfl⟩ := hself
      exact hfew
    · rw [historydataLookup_record hself]
      exact h.few readerid opnum sendTag

/-- Ending the service of a reader, after which only notices about later operations of it are
left. -/
theorem Tables.Tidy.moveToReaded (h : tables.Tidy k) (hk : 1 ≤ k) (tag : Tag) :
    (tables.moveToReaded tag readerid opnum).Tidy k where
  cleared := fun {other readed key item} hreaded hitem hreader ↦ by
    have hentry : Sigma.mk key item ∈ tables.historyTable.entries.filter
        fun e ↦ ¬ (e.2.readerid = readerid ∧ e.2.opnum ≤ opnum) := AList.mem_lookup_iff.mp hitem
    have hkept : ¬ (item.readerid = readerid ∧ item.opnum ≤ opnum) :=
      of_decide_eq_true (List.mem_filter.mp hentry).2
    rw [readed_moveToReaded] at hreaded
    split_ifs at hreaded with hother
    · obtain rfl := Option.some.inj hreaded
      exact not_le.mp fun hle ↦ hkept ⟨hreader.trans hother, hle⟩
    · exact h.cleared hreaded (history_of_moveToReaded hitem) hreader
  few := fun other opnum' sendTag ↦ by
    rw [Tables.moveToReaded, historydataLookup_clear]
    split_ifs
    · exact hk
    · exact h.few other opnum' sendTag

/-- A message keeps the history table in order. -/
theorem Moves.tidy (h : Moves k about tables tables' output) (hk : 1 ≤ k) (htidy : tables.Tidy k) :
    tables'.Tidy k := by
  cases h with
  | keep => exact htidy
  | register tag => exact htidy.register tag
  | complete tag => exact htidy.moveToReaded hk tag
  | record his hfresh hfew => exact htidy.record hfresh hfew

end Tidy

section TidyRuns

variable {strcmp : Strcmp} {args : ServerArgs} {server : Server}

theorem disjoint_of_run (run : Server.Reaches strcmp args Server.initial server) :
    server.tables.Disjoint := by
  refine run.invariant (P := fun s ↦ s.tables.Disjoint) (fun _ ↦ Or.inl rfl)
    fun s message t hdisjoint _ hstep ↦ ?_
  obtain ⟨output, hmoves⟩ := step_moves hstep
  exact hmoves.disjoint hdisjoint

/-- After every sequence of messages the tables are in order, and the assertions about the numbers
of a reader's entries hold wherever a handler makes them. -/
theorem tidy_of_run (hk : 1 ≤ args.k)
    (run : Server.Reaches strcmp args Server.initial server) :
    server.tables.Disjoint ∧ server.tables.Tidy args.k ∧ ∀ readerid opnum,
      ¬ server.tables.isStale readerid opnum = true →
        server.tables.opnumsAsserted readerid opnum = true := by
  refine ⟨disjoint_of_run run, ?_, fun _ _ ↦ opnumsAsserted_of_not_isStale⟩
  refine run.invariant (P := fun s ↦ s.tables.Tidy args.k) (tidy_initial hk)
    fun s message t htidy _ hstep ↦ ?_
  obtain ⟨output, hmoves⟩ := step_moves hstep
  exact hmoves.tidy hk htidy

theorem tidy_finishedServer :
    finishedServer.tables.Disjoint ∧ finishedServer.tables.Tidy sampleArgs.k ∧
      ∀ readerid opnum, ¬ finishedServer.tables.isStale readerid opnum = true →
        finishedServer.tables.opnumsAsserted readerid opnum = true :=
  tidy_of_run (by decide) reaches_finishedServer

end TidyRuns

/-! ### Operations that are over -/

/-- The entries of the reading table stand under the ids of their readers. -/
def Tables.Keyed (tables : Tables) : Prop :=
  ∀ key reader, tables.readingTable.lookup key = some reader → reader.readerId = key

/-- The operations of a reader up to a number are over: the server is done with the reader, or has
registered it, for such an operation or a later one; in the second case for a later one. -/
def Tables.Over (tables : Tables) (readerid : CString) (opnum : ℕ) : Prop :=
  (∃ readed, tables.readedTable.lookup readerid = some readed ∧ opnum ≤ readed.opnum ∧
      tables.readingTable.lookup readerid = none) ∨
    ∃ reading, tables.readingTable.lookup readerid = some reading ∧ opnum < reading.opnum

section Over

variable {k : ℕ} {about : CString → ℕ → Prop} {tables tables' : Tables} {output : Output}
  {readerid other : CString} {opnum opnum' : ℕ} {tag : Tag}

/-- What is not stale is later than what is over. -/
theorem Tables.Over.lt_of_fresh (h : tables.Over readerid opnum)
    (hfresh : ¬ tables.isStale readerid opnum' = true) : opnum < opnum' := by
  rcases h with ⟨readed, hlookup, hle, -⟩ | ⟨reading, hlookup, hlt⟩
  · by_contra hnot
    exact hfresh (isStale_iff.mpr (Or.inl ⟨readed, hlookup, by omega⟩))
  · by_contra hnot
    exact hfresh (isStale_iff.mpr (Or.inr ⟨reading, hlookup, by omega⟩))

/-- A reader is registered only for an operation that is not over. -/
theorem Tables.Over.lt_of_registered (h : tables.Over readerid opnum) (hkeyed : tables.Keyed)
    (hregistered : tables.Registered readerid opnum') : opnum < opnum' := by
  obtain ⟨key, reader, hreader, rfl, rfl⟩ := hregistered
  rw [hkeyed key reader hreader] at h
  rcases h with ⟨readed, -, -, hnone⟩ | ⟨reading, hlookup, hlt⟩
  · rw [hnone] at hreader
    cases hreader
  · rw [hlookup] at hreader
    obtain rfl := Option.some.inj hreader
    exact hlt

theorem Tables.Over.register (h : tables.Over readerid opnum)
    (hfresh : ¬ tables.isStale other opnum' = true) :
    (tables.register tag other opnum').Over readerid opnum := by
  by_cases hreader : readerid = other
  · subst hreader
    refine Or.inr ⟨⟨tag, opnum', readerid⟩, ?_, h.lt_of_fresh hfresh⟩
    rw [reading_register, if_pos rfl]
  · simpa only [Tables.Over, reading_register, readed_register, if_neg hreader] using h

theorem Tables.Over.moveToReaded (h : tables.Over readerid opnum)
    (hfresh : ¬ tables.isStale other opnum' = true) :
    (tables.moveToReaded tag other opnum').Over readerid opnum := by
  by_cases hreader : readerid = other
  · subst hreader
    refine Or.inl ⟨⟨tag, opnum', readerid⟩, ?_, (h.lt_of_fresh hfresh).le, ?_⟩
    · rw [readed_moveToReaded, if_pos rfl]
    · rw [reading_moveToReaded, if_pos rfl]
  · simpa only [Tables.Over, reading_moveToReaded, readed_moveToReaded, if_neg hreader] using h

/-- A message keeps over what is over. -/
theorem Moves.over (h : Moves k about tables tables' output) (hover : tables.Over readerid opnum) :
    tables'.Over readerid opnum := by
  cases h with
  | keep => exact hover
  | register tag readerid opnum output hreader hfresh => exact hover.register hfresh
  | complete tag readerid opnum hreader hfresh => exact hover.moveToReaded hfresh
  | record => exact hover

/-- What is sent on a message is not about an operation that is over. -/
theorem Moves.about_later (h : Moves k about tables tables' output) (hkeyed : tables.Keyed)
    (hover : tables.Over readerid opnum) :
    output.About fun readerid' opnum' ↦ readerid' = readerid → opnum < opnum' := by
  cases h with
  | keep output habout =>
    exact ⟨fun element hmem hreader ↦
        hover.lt_of_registered hkeyed (hreader ▸ habout.elements element hmem),
      fun notice hmem hreader ↦
        hover.lt_of_registered hkeyed (hreader ▸ habout.disperses notice hmem)⟩
  | register tag readerid' opnum' output hreader hfresh habout =>
    have hlater : readerid' = readerid → opnum < opnum' := by
      rintro rfl
      exact hover.lt_of_fresh hfresh
    refine ⟨fun element hmem hreader ↦ ?_, fun notice hmem hreader ↦ ?_⟩
    · obtain ⟨hclient, hopnum⟩ := habout.elements element hmem
      rw [hopnum]
      exact hlater (hclient.symm.trans hreader)
    · obtain ⟨hclient, hopnum⟩ := habout.disperses notice hmem
      rw [hopnum]
      exact hlater (hclient.symm.trans hreader)
  | _ => exact about_none

theorem Moves.keyed (h : Moves k about tables tables' output) (hkeyed : tables.Keyed) :
    tables'.Keyed := by
  intro key reader hreader
  cases h with
  | register =>
    rw [reading_register] at hreader
    split_ifs at hreader with hkey
    · obtain rfl := Option.some.inj hreader
      exact hkey.symm
    · exact hkeyed key reader hreader
  | complete =>
    rw [reading_moveToReaded] at hreader
    split_ifs at hreader
    exact hkeyed key reader hreader
  | _ => exact hkeyed key reader hreader

end Over

section Runs

variable {strcmp : Strcmp} {args : ServerArgs} {server later : Server}

theorem keyed_of_run (run : Server.Reaches strcmp args Server.initial server) :
    server.tables.Keyed := by
  refine run.invariant (P := fun s ↦ s.tables.Keyed)
    (fun key reader hreader ↦ by simp [Server.initial] at hreader)
    fun s message t hkeyed _ hstep ↦ ?_
  obtain ⟨output, hmoves⟩ := step_moves hstep
  exact hmoves.keyed hkeyed

theorem over_of_run {readerid : CString} {opnum : ℕ} (run : Server.Reaches strcmp args server later)
    (hover : server.tables.Over readerid opnum) : later.tables.Over readerid opnum := by
  refine run.invariant (P := fun s ↦ s.tables.Over readerid opnum) hover
    fun s message t hbefore _ hstep ↦ ?_
  obtain ⟨output, hmoves⟩ := step_moves hstep
  exact hmoves.over hbefore

/-- Once a server is done with an operation of a reader, it does not register the reader for it or
an earlier one, does not send the reader an element for it or an earlier one, and sends no notice
about it or an earlier one, whatever messages arrive. -/
theorem over_stays_over {readerid : CString} {readed : RegReader}
    (hbefore : Server.Reaches strcmp args Server.initial server)
    (hreaded : server.tables.readedTable.lookup readerid = some readed)
    (hafter : Server.Reaches strcmp args server later) :
    (∀ reading, later.tables.readingTable.lookup readerid = some reading →
        readed.opnum < reading.opnum) ∧
      ∀ message last output, later.handle strcmp args message = some (last, output) →
        output.About fun readerid' opnum ↦ readerid' = readerid → readed.opnum < opnum := by
  have hnone : server.tables.readingTable.lookup readerid = none :=
    (disjoint_of_run hbefore readerid).resolve_right (by rw [hreaded]; exact Option.some_ne_none _)
  have hover : later.tables.Over readerid readed.opnum :=
    over_of_run hafter (Or.inl ⟨readed, hreaded, le_rfl, hnone⟩)
  have hkeyed := keyed_of_run (hbefore.trans hafter)
  refine ⟨fun reading hreading ↦ ?_, fun message last output hhandle ↦
    (handle_moves hhandle).about_later hkeyed hover⟩
  exact hover.lt_of_registered hkeyed ⟨readerid, reading, hreading, hkeyed _ _ hreading, rfl⟩

/-- The reader of the concrete messages is not served again. -/
theorem over_stays_over_finishedServer :
    (∀ reading, (finishedServer.after Strcmp.sign sampleArgs afterwards).tables.readingTable.lookup
        (ascii ['r']) = some reading → 1 < reading.opnum) ∧
      ∀ message last output,
        (finishedServer.after Strcmp.sign sampleArgs afterwards).handle Strcmp.sign sampleArgs
            message = some (last, output) →
          output.About fun readerid opnum ↦ readerid = ascii ['r'] → 1 < opnum := by
  have hreaded : finishedServer.tables.readedTable.lookup (ascii ['r']) =
      some ⟨initTag, 1, ascii ['r']⟩ := by decide +kernel
  exact over_stays_over reaches_finishedServer hreaded (Server.reaches_after (by decide +kernel))

end Runs

/-! ### Operations that a server knows of -/

/-- Every operation in the tables of readers is known. -/
structure Tables.Within (tables : Tables) (known : CString → ℕ → Prop) : Prop where
  readed : ∀ {readerid readed}, tables.readedTable.lookup readerid = some readed →
    known readerid readed.opnum
  registered : ∀ {readerid opnum}, tables.Registered readerid opnum → known readerid opnum

section Within

variable {k : ℕ} {about known known' : CString → ℕ → Prop} {tables tables' : Tables}
  {output : Output}

theorem within_initial : Server.initial.tables.Within known where
  readed := fun hreaded ↦ by simp [Server.initial] at hreaded
  registered := fun ⟨key, reader, hreader, _⟩ ↦ by simp [Server.initial] at hreader

theorem Tables.Within.mono (h : tables.Within known)
    (hle : ∀ readerid opnum, known readerid opnum → known' readerid opnum) :
    tables.Within known' where
  readed := fun hreaded ↦ hle _ _ (h.readed hreaded)
  registered := fun hregistered ↦ hle _ _ (h.registered hregistered)

/-- A message about known operations adds known operations, and what is sent is about known
operations. -/
theorem Moves.within (h : Moves k about tables tables' output) (hwithin : tables.Within known)
    (habout : ∀ readerid opnum, about readerid opnum → known readerid opnum) :
    tables'.Within known ∧ output.About known := by
  cases h with
  | keep output houtput =>
    exact ⟨hwithin, fun element hmem ↦ hwithin.registered (houtput.elements element hmem),
      fun notice hmem ↦ hwithin.registered (houtput.disperses notice hmem)⟩
  | register tag readerid opnum output hreader hfresh houtput =>
    have hknown := habout readerid opnum hreader
    refine ⟨⟨fun {other readed} hreaded ↦ ?_, ?_⟩, fun element hmem ↦ ?_, fun notice hmem ↦ ?_⟩
    · rw [readed_register] at hreaded
      split_ifs at hreaded
      exact hwithin.readed hreaded
    · rintro _ _ ⟨key, reader, hreading, rfl, rfl⟩
      rw [reading_register] at hreading
      split_ifs at hreading
      · obtain rfl := Option.some.inj hreading
        exact hknown
      · exact hwithin.registered ⟨key, reader, hreading, rfl, rfl⟩
    · obtain ⟨hclient, hopnum⟩ := houtput.elements element hmem
      rwa [hclient, hopnum]
    · obtain ⟨hclient, hopnum⟩ := houtput.disperses notice hmem
      rwa [hclient, hopnum]
  | complete tag readerid opnum hreader =>
    refine ⟨⟨fun {other readed} hreaded ↦ ?_, ?_⟩, about_none⟩
    · rw [readed_moveToReaded] at hreaded
      split_ifs at hreaded with hother
      · obtain rfl := Option.some.inj hreaded
        exact hother ▸ habout readerid opnum hreader
      · exact hwithin.readed hreaded
    · rintro _ _ ⟨key, reader, hreading, rfl, rfl⟩
      rw [reading_moveToReaded] at hreading
      split_ifs at hreading
      exact hwithin.registered ⟨key, reader, hreading, rfl, rfl⟩
  | record => exact ⟨⟨hwithin.readed, hwithin.registered⟩, about_none⟩

end Within

end Colas.Sodaw
