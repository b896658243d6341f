import Colas.BaseProcess.Client
import Colas.BaseProcess.ObjectStore
import Colas.Codes.Parameters

/-!
# The SODAW server

`algorithmSODAW` is `algorithm_SODAW` with the handlers of client requests, and
`algorithmSODAWOnNotice` is the same function on a `READ_DISPERSE` from another server. A handler
returns the new state of the server and an `Output`: the response to the requester, if there is one,
the coded elements that it sends to readers, and the notices that it sends to all servers.

Beside the objects, a server keeps three tables. The reading table has the readers that are
registered, and a `WRITE_PUT` that the server adopts is relayed to those that asked for a tag which
is not greater. The readed table has the readers that are done with, and the history table the
notices about reads that are not. All three are keyed by reader; no handler compares objects.

`algorithmSODAW_eq` and `algorithmSODAWOnNotice_eq` describe the handlers through the map of
versions: on rendered tags they do what `Handles` and `HandlesNotice` list. Two buffers can be too
small for it, that of `get_object_tag` for the tag of the object, and that of
`HistoryData_keystring` for the key of a notice that is to be recorded.
-/

set_option autoImplicit false
set_option relaxedAutoImplicit false

namespace Colas.Sodaw

/-- The phases of the SODAW protocol that name a request of a client. -/
inductive Phase
  | writeGet
  | writePut
  | readGet
  | readValue
  | readComplete
  deriving DecidableEq

/-- `RegReader`: a reader with the tag it asked for and the number of its operation. -/
structure RegReader where
  /-- `t_r`. -/
  tr : Tag
  /-- `opnum`. -/
  opnum : ℕ
  /-- `reader_id`. -/
  readerId : CString
  deriving DecidableEq

/-- `HistoryData`: a server has sent a coded element to a reader. -/
structure HistoryData where
  /-- `readerid`. -/
  readerid : CString
  /-- `senderid`. -/
  senderid : CString
  /-- `read_tag_str`. -/
  readTagStr : CString
  /-- `send_tag_str`. -/
  sendTagStr : CString
  /-- `opnum`. -/
  opnum : ℕ
  deriving DecidableEq

/-- The frames of a `READ_DISPERSE`. -/
structure Disperse where
  /-- `CLIENTID`, which is the id of the server that sends the notice. -/
  clientid : CString
  /-- `OBJECT`. -/
  object : CString
  /-- `META_SEND_TAG`. -/
  sendTag : CString
  /-- `META_READERID`. -/
  readerid : CString
  /-- `META_READ_TAG`. -/
  readTag : CString
  /-- `OPNUM`. -/
  opnum : ℕ
  deriving DecidableEq

/-- The fields of `Server_Args` that the handlers read. -/
structure ServerArgs where
  /-- `server_id`. -/
  serverId : CString
  /-- `init_data`. -/
  initData : Frame
  /-- `K`. -/
  k : ℕ

/-- The tables of a server. -/
structure Tables where
  /-- `history_table`. -/
  historyTable : ZHash HistoryData
  /-- `readed_table`. -/
  readedTable : ZHash RegReader
  /-- `reading_table`. -/
  readingTable : ZHash RegReader

/-- The state of a SODAW server. -/
structure Server where
  /-- `hash_object_SODAW`. -/
  objects : ObjectTable
  /-- `status`. -/
  status : ServerStatus
  /-- The tables. -/
  tables : Tables

/-- The server before its first message. -/
def Server.initial : Server := ⟨∅, ⟨0, 0⟩, ⟨∅, ∅, ∅⟩⟩

/-- What a handler sends: a response, coded elements under the names of the requests that they
answer, and notices. -/
structure Output where
  /-- The response to the requester. -/
  response : Option Body
  /-- The coded elements. -/
  elements : List (CallId Phase × Body)
  /-- The notices, each of which goes to every server. -/
  disperses : List Disperse

/-- Nothing is sent. -/
def Output.none : Output := ⟨.none, [], []⟩

/-- Only a response is sent. -/
def Output.reply (response : Body) : Output := ⟨some response, [], []⟩

/-! ### The tables -/

/-- The items of a table. -/
def items {α : Type} (table : ZHash α) : List α := table.entries.map Sigma.snd

/-- `reader_op_create`, where `%d` prints an `unsigned int`. -/
def readerOpCreate (readerid : CString) (opnum : ℕ) : CString :=
  readerid ++ underscore :: decimal ((opnum : ℤ).bmod (2 ^ 32))

/-- What `HistoryData_keystring` puts together. -/
def HistoryData.key (m : HistoryData) : CString :=
  readerOpCreate m.readerid m.opnum ++ underscore :: m.senderid ++ underscore :: m.sendTagStr

/-- `HistoryData_keystring`, which puts the key together in `char buf[BUFSIZE]`. -/
def historyDataKeystring (m : HistoryData) : Option CString :=
  if m.key.length < bufsize then some m.key else none

/-- The check with which every handler starts that concerns a reader: the reader is done with the
operation, or it has registered for a later one. -/
def Tables.isStale (tables : Tables) (readerid : CString) (opnum : ℕ) : Bool :=
  (tables.readedTable.lookup readerid).any (fun readed ↦ opnum ≤ readed.opnum) ||
    (tables.readingTable.lookup readerid).any fun reading ↦ opnum < reading.opnum

/-- The assertions about the entries of a reader that a handler makes before it deletes them:
`assert(readed->opnum < opnum)` and `assert(reading->opnum <= opnum)`. -/
def Tables.opnumsAsserted (tables : Tables) (readerid : CString) (opnum : ℕ) : Bool :=
  (tables.readedTable.lookup readerid).all (fun readed ↦ readed.opnum < opnum) &&
    (tables.readingTable.lookup readerid).all fun reading ↦ reading.opnum ≤ opnum

/-- The entries that `historydata_clear_by_readerid_opnum` leaves. -/
def historydataClearByReaderidOpnum (historyTab : ZHash HistoryData) (readerid : CString)
    (opnum : ℕ) : ZHash HistoryData :=
  ⟨historyTab.entries.filter fun e ↦ ¬ (e.2.readerid = readerid ∧ e.2.opnum ≤ opnum),
    historyTab.nodupKeys.sublist List.filter_sublist⟩

/-- `historydata_lookup`: the keys of the notices about an operation and a tag. -/
def historydataLookup (historyTab : ZHash HistoryData) (readerid : CString) (opnum : ℕ)
    (tagSendStr : CString) : List CString :=
  (historyTab.entries.filter fun e ↦
    e.2.readerid = readerid ∧ opnum = e.2.opnum ∧ e.2.sendTagStr = tagSendStr).map Sigma.fst

/-- `READ_COMPLETE` and `READ_DISPERSE` end the service of a reader: its entry moves to the readed
table, and the notices about its operations are dropped. -/
def Tables.moveToReaded (tables : Tables) (tag : Tag) (readerid : CString) (opnum : ℕ) :
    Tables where
  historyTable := historydataClearByReaderidOpnum tables.historyTable readerid opnum
  readedTable :=
    (zhashInsert (tables.readedTable.erase readerid) readerid ⟨tag, opnum, readerid⟩).1
  readingTable := tables.readingTable.erase readerid

/-- `READ_VALUE` registers a reader in place of its earlier entries. -/
def Tables.register (tables : Tables) (tag : Tag) (readerid : CString) (opnum : ℕ) : Tables where
  historyTable := tables.historyTable
  readedTable := tables.readedTable.erase readerid
  readingTable :=
    (zhashInsert (tables.readingTable.erase readerid) readerid ⟨tag, opnum, readerid⟩).1

/-- `READ_DISPERSE` records a notice under its key. -/
def Tables.record (tables : Tables) (his : HistoryData) : Tables :=
  { tables with historyTable := (zhashInsert tables.historyTable his.key his).1 }

/-! ### The handlers -/

/-- `send_reader_coded_element`: the coded element of a server for a registered reader. -/
def codedElement (readerid : CString) (opnum : ℕ) (object : CString) (tag : Tag) (cs : Frame) :
    CallId Phase × Body :=
  (⟨readerid, opnum, .readValue⟩, ⟨object, tagToString tag, cs⟩)

/-- The readers to which a `WRITE_PUT` is relayed. -/
def Tables.relayTargets (strcmp : Strcmp) (tables : Tables) (tagW : Tag) : List RegReader :=
  (items tables.readingTable).filter fun reader ↦ 0 ≤ compareTags strcmp tagW reader.tr

/-- What a server sends on a `WRITE_PUT` that it adopts. -/
def relayed (strcmp : Strcmp) (args : ServerArgs) (tables : Tables) (request : Body) (tagW : Tag) :
    Output where
  response := some ⟨request.object, request.tag, []⟩
  elements := (tables.relayTargets strcmp tagW).map fun reader ↦
    codedElement reader.readerId reader.opnum request.object tagW request.payload
  disperses := (tables.relayTargets strcmp tagW).map fun reader ↦
    ⟨args.serverId, request.object, request.tag, reader.readerId, tagToString reader.tr,
      reader.opnum⟩

/-- `algorithm_SODAW_WRITE_PUT`. -/
def algorithmSODAWWritePut (strcmp : Strcmp) (args : ServerArgs) (server : Server)
    (request : Body) : Option (Server × Output) := do
  let tagW ← stringToTag request.tag
  let tag ← getObjectTag server.objects request.object
  if 0 < compareTags strcmp tagW tag then
    let (objects, _) ← replaceVersion server.objects request.object request.tag request.payload
    some ({ server with objects := objects }, relayed strcmp args server.tables request tagW)
  else some (server, .reply ⟨request.object, request.tag, []⟩)

/-- `algorithm_SODAW_READ_COMPLETE`. -/
def algorithmSODAWReadComplete (server : Server) (name : CallId Phase) (request : Body) :
    Option (Server × Output) := do
  let tagR ← stringToTag request.tag
  if server.tables.isStale name.client name.opnum then some (server, .none)
  else if server.tables.opnumsAsserted name.client name.opnum then
    some ({ server with tables := server.tables.moveToReaded tagR name.client name.opnum }, .none)
  else none

/-- `algorithm_SODAW_WRITE_GET_OR_READ_GET_TAG`. -/
def algorithmSODAWWriteGetOrReadGetTag (server : Server) (request : Body) :
    Option (Server × Output) := do
  let tag ← getObjectTag server.objects request.object
  some (server, .reply ⟨request.object, tagToString tag, []⟩)

/-- What a server sends to a reader that registers, when its tag is not smaller than the tag that
the reader asks for. -/
def firstElement (args : ServerArgs) (name : CallId Phase) (object : CString) (tagLoc tagR : Tag)
    (payload : Frame) : Output where
  response := none
  elements := [codedElement name.client name.opnum object tagLoc payload]
  disperses := [⟨args.serverId, object, tagToString tagLoc, name.client, tagToString tagR,
    name.opnum⟩]

/-- `algorithm_SODAW_READ_VALUE`. -/
def algorithmSODAWReadValue (strcmp : Strcmp) (args : ServerArgs) (server : Server)
    (name : CallId Phase) (request : Body) : Option (Server × Output) := do
  let tagR ← stringToTag request.tag
  if server.tables.isStale name.client name.opnum then some (server, .none)
  else if server.tables.opnumsAsserted name.client name.opnum then
    let registered : Server :=
      { server with tables := server.tables.register tagR name.client name.opnum }
    let tagLoc ← getObjectTag server.objects request.object
    if 0 ≤ compareTags strcmp tagLoc tagR then
      let payload ← getObjectFrame server.objects request.object tagLoc
      some (registered, firstElement args name request.object tagLoc tagR payload)
    else some (registered, .none)
  else none

/-- `algorithm_SODAW` makes the object of a message if it is missing. -/
def Server.create (args : ServerArgs) (server : Server) (object : CString) : Server :=
  let created := createObject server.objects server.status object args.initData
  { server with objects := created.1, status := created.2 }

/-- `algorithm_SODAW` on a request of a client. -/
def algorithmSODAW (strcmp : Strcmp) (args : ServerArgs) (server : Server) (name : CallId Phase)
    (request : Body) : Option (Server × Output) :=
  let server := server.create args request.object
  match name.phase with
  | .writeGet => algorithmSODAWWriteGetOrReadGetTag server request
  | .writePut => algorithmSODAWWritePut strcmp args server request
  | .readGet => algorithmSODAWWriteGetOrReadGetTag server request
  | .readValue => algorithmSODAWReadValue strcmp args server name request
  | .readComplete => algorithmSODAWReadComplete server name request

/-- The entry of the history table for a notice. -/
def Disperse.history (notice : Disperse) : HistoryData :=
  ⟨notice.readerid, notice.clientid, notice.readTag, notice.sendTag, notice.opnum⟩

/-- `algorithm_SODAW_READ_DISPERSE`. -/
def algorithmSODAWReadDisperse (args : ServerArgs) (server : Server) (notice : Disperse) :
    Option Server := do
  let _sendTag ← stringToTag notice.sendTag
  let readTag ← stringToTag notice.readTag
  if server.tables.isStale notice.readerid notice.opnum then some server
  else
    let hisKey ← historyDataKeystring notice.history
    let tables : Tables :=
      { server.tables with
        historyTable := (zhashInsert server.tables.historyTable hisKey notice.history).1 }
    let hisSet :=
      historydataLookup tables.historyTable notice.readerid notice.opnum notice.sendTag
    if args.k ≤ hisSet.length then
      if server.tables.opnumsAsserted notice.readerid notice.opnum then
        some { server with tables := tables.moveToReaded readTag notice.readerid notice.opnum }
      else none
    else some { server with tables := tables }

/-- `algorithm_SODAW` on a `READ_DISPERSE`. -/
def algorithmSODAWOnNotice (args : ServerArgs) (server : Server) (notice : Disperse) :
    Option Server :=
  algorithmSODAWReadDisperse args (server.create args notice.object) notice

/-! ### What the handlers return -/

section Inversion

variable {strcmp : Strcmp} {args : ServerArgs} {server server' : Server} {name : CallId Phase}
  {request : Body} {output : Output}

theorem report_cases
    (h : algorithmSODAWWriteGetOrReadGetTag server request = some (server', output)) :
    server' = server ∧ ∃ tag, output = .reply ⟨request.object, tagToString tag, []⟩ := by
  simp only [algorithmSODAWWriteGetOrReadGetTag, Option.bind_eq_bind, Option.bind_eq_some_iff,
    Option.some.injEq, Prod.mk.injEq] at h
  obtain ⟨tag, -, rfl, rfl⟩ := h
  exact ⟨rfl, tag, rfl⟩

theorem writePut_cases
    (h : algorithmSODAWWritePut strcmp args server request = some (server', output)) :
    ∃ tagW tag, stringToTag request.tag = some tagW ∧
      getObjectTag server.objects request.object = some tag ∧
      (0 < compareTags strcmp tagW tag ∧ (∃ objects key,
          replaceVersion server.objects request.object request.tag request.payload =
            some (objects, key) ∧ server' = { server with objects := objects }) ∧
          output = relayed strcmp args server.tables request tagW ∨
        ¬ 0 < compareTags strcmp tagW tag ∧ server' = server ∧
          output = .reply ⟨request.object, request.tag, []⟩) := by
  simp only [algorithmSODAWWritePut, Option.bind_eq_bind, Option.bind_eq_some_iff] at h
  obtain ⟨tagW, htagW, tag, htag, h⟩ := h
  refine ⟨tagW, tag, htagW, htag, ?_⟩
  split_ifs at h with hadopts
  · simp only [Option.bind_eq_some_iff, Option.some.injEq, Prod.mk.injEq] at h
    obtain ⟨⟨objects, key⟩, hreplace, rfl, rfl⟩ := h
    exact Or.inl ⟨hadopts, ⟨objects, key, hreplace, rfl⟩, rfl⟩
  · simp only [Option.some.injEq, Prod.mk.injEq] at h
    obtain ⟨rfl, rfl⟩ := h
    exact Or.inr ⟨hadopts, rfl, rfl⟩

theorem readComplete_cases
    (h : algorithmSODAWReadComplete server name request = some (server', output)) :
    output = .none ∧ (server.tables.isStale name.client name.opnum = true ∧ server' = server ∨
      ¬ server.tables.isStale name.client name.opnum = true ∧ ∃ tagR, server' =
        { server with tables := server.tables.moveToReaded tagR name.client name.opnum }) := by
  simp only [algorithmSODAWReadComplete, Option.bind_eq_bind, Option.bind_eq_some_iff] at h
  obtain ⟨tagR, -, h⟩ := h
  split_ifs at h with hstale hasserted
  · simp only [Option.some.injEq, Prod.mk.injEq] at h
    obtain ⟨rfl, rfl⟩ := h
    exact ⟨rfl, Or.inl ⟨hstale, rfl⟩⟩
  · simp only [Option.some.injEq, Prod.mk.injEq] at h
    obtain ⟨rfl, rfl⟩ := h
    exact ⟨rfl, Or.inr ⟨hstale, tagR, rfl⟩⟩

theorem readValue_cases
    (h : algorithmSODAWReadValue strcmp args server name request = some (server', output)) :
    server.tables.isStale name.client name.opnum = true ∧ server' = server ∧ output = .none ∨
      ¬ server.tables.isStale name.client name.opnum = true ∧ ∃ tagR,
        server' = { server with
          tables := server.tables.register tagR name.client name.opnum } ∧
        (output = .none ∨ ∃ tagLoc payload,
          output = firstElement args name request.object tagLoc tagR payload) := by
  simp only [algorithmSODAWReadValue, Option.bind_eq_bind, Option.bind_eq_some_iff] at h
  obtain ⟨tagR, -, h⟩ := h
  split_ifs at h with hstale hasserted
  · simp only [Option.some.injEq, Prod.mk.injEq] at h
    obtain ⟨rfl, rfl⟩ := h
    exact Or.inl ⟨hstale, rfl, rfl⟩
  · simp only [Option.bind_eq_some_iff] at h
    obtain ⟨tagLoc, -, h⟩ := h
    split_ifs at h
    · simp only [Option.bind_eq_some_iff, Option.some.injEq, Prod.mk.injEq] at h
      obtain ⟨payload, -, rfl, rfl⟩ := h
      exact Or.inr ⟨hstale, tagR, rfl, Or.inr ⟨tagLoc, payload, rfl⟩⟩
    · simp only [Option.some.injEq, Prod.mk.injEq] at h
      obtain ⟨rfl, rfl⟩ := h
      exact Or.inr ⟨hstale, tagR, rfl, Or.inl rfl⟩

theorem readDisperse_cases {notice : Disperse}
    (h : algorithmSODAWReadDisperse args server notice = some server') :
    server.tables.isStale notice.readerid notice.opnum = true ∧ server' = server ∨
      ¬ server.tables.isStale notice.readerid notice.opnum = true ∧
        notice.history.key.length < bufsize ∧
        (args.k ≤ (historydataLookup (server.tables.record notice.history).historyTable
            notice.readerid notice.opnum notice.sendTag).length ∧
              (∃ readTag, server' = { server with
                tables := (server.tables.record notice.history).moveToReaded readTag
                  notice.readerid notice.opnum }) ∨
          ¬ args.k ≤ (historydataLookup (server.tables.record notice.history).historyTable
            notice.readerid notice.opnum notice.sendTag).length ∧
              server' = { server with tables := server.tables.record notice.history }) := by
  simp only [algorithmSODAWReadDisperse, Option.bind_eq_bind, Option.bind_eq_some_iff] at h
  obtain ⟨-, -, readTag, -, h⟩ := h
  by_cases hstale : server.tables.isStale notice.readerid notice.opnum = true
  · rw [if_pos hstale] at h
    exact Or.inl ⟨hstale, (Option.some.inj h).symm⟩
  · simp only [if_neg hstale, Option.bind_eq_some_iff, historyDataKeystring,
      Option.ite_none_right_eq_some, Option.some.injEq] at h
    obtain ⟨-, ⟨hkey, rfl⟩, h⟩ := h
    split_ifs at h with hmany hasserted
    · exact Or.inr ⟨hstale, hkey, Or.inl ⟨hmany, readTag, (Option.some.inj h).symm⟩⟩
    · exact Or.inr ⟨hstale, hkey, Or.inr ⟨hmany, (Option.some.inj h).symm⟩⟩

end Inversion

/-! ### What the tables hold -/

section Lookup

variable {α : Type} {table : ZHash α} {tables : Tables}

theorem mem_items {x : α} : x ∈ items table ↔ ∃ key, table.lookup key = some x := by
  simp only [items, List.mem_map, Sigma.exists]
  constructor
  · rintro ⟨key, item, hmem, rfl⟩
    exact ⟨key, AList.mem_lookup_iff.mpr hmem⟩
  · rintro ⟨key, hlookup⟩
    exact ⟨key, x, AList.mem_lookup_iff.mp hlookup, rfl⟩

/-- Deleting an entry and inserting another one under its key replaces it. -/
theorem lookup_replace (key other : CString) (item : α) :
    (zhashInsert (table.erase key) key item).1.lookup other =
      if other = key then some item else table.lookup other := by
  have hkey : key ∉ table.erase key := by simp [AList.mem_erase]
  rw [zhashInsert, if_neg hkey]
  split_ifs with hother
  · subst hother
    exact AList.lookup_insert _
  · rw [AList.lookup_insert_ne hother, AList.lookup_erase_ne hother]

/-- Deleting an entry. -/
theorem lookup_erase_eq (key other : CString) :
    (table.erase key).lookup other = if other = key then none else table.lookup other := by
  split_ifs with hother
  · subst hother
    exact AList.lookup_erase _ _
  · exact AList.lookup_erase_ne hother

/-- An entry after an insertion was there before or is the inserted one. -/
theorem lookup_zhashInsert {key other : CString} {item x : α}
    (h : (zhashInsert table key item).1.lookup other = some x) :
    table.lookup other = some x ∨ other = key ∧ x = item := by
  unfold zhashInsert at h
  split_ifs at h with hkey
  · exact Or.inl h
  · by_cases hother : other = key
    · subst hother
      rw [AList.lookup_insert, Option.some.injEq] at h
      exact Or.inr ⟨rfl, h.symm⟩
    · rw [AList.lookup_insert_ne hother] at h
      exact Or.inl h

variable (tag : Tag) (readerid other : CString) (opnum : ℕ)

theorem reading_register : (tables.register tag readerid opnum).readingTable.lookup other =
    if other = readerid then some ⟨tag, opnum, readerid⟩ else tables.readingTable.lookup other :=
  lookup_replace _ _ _

theorem readed_register : (tables.register tag readerid opnum).readedTable.lookup other =
    if other = readerid then none else tables.readedTable.lookup other :=
  lookup_erase_eq _ _

theorem reading_moveToReaded :
    (tables.moveToReaded tag readerid opnum).readingTable.lookup other =
      if other = readerid then none else tables.readingTable.lookup other :=
  lookup_erase_eq _ _

theorem readed_moveToReaded : (tables.moveToReaded tag readerid opnum).readedTable.lookup other =
    if other = readerid then some ⟨tag, opnum, readerid⟩ else tables.readedTable.lookup other :=
  lookup_replace _ _ _

variable {tag readerid opnum}

/-- Moving a reader only drops notices. -/
theorem history_of_moveToReaded {key : CString} {his : HistoryData}
    (h : (tables.moveToReaded tag readerid opnum).historyTable.lookup key = some his) :
    tables.historyTable.lookup key = some his :=
  AList.mem_lookup_iff.mpr (List.mem_of_mem_filter (AList.mem_lookup_iff.mp h))

/-- The reader has registered, or is done with, an operation under a number that is not smaller. -/
theorem isStale_iff : tables.isStale readerid opnum = true ↔
    (∃ readed, tables.readedTable.lookup readerid = some readed ∧ opnum ≤ readed.opnum) ∨
      ∃ reading, tables.readingTable.lookup readerid = some reading ∧ opnum < reading.opnum := by
  simp [Tables.isStale, Option.any_eq_true]

/-- The assertions hold whenever a handler does not return early. -/
theorem opnumsAsserted_of_not_isStale (h : ¬ tables.isStale readerid opnum = true) :
    tables.opnumsAsserted readerid opnum = true := by
  rw [isStale_iff, not_or] at h
  obtain ⟨hreaded, hreading⟩ := h
  simp only [Tables.opnumsAsserted, Bool.and_eq_true, Option.all_eq_true, decide_eq_true_eq]
  refine ⟨fun readed hlookup ↦ ?_, fun reading hlookup ↦ ?_⟩
  · exact not_le.mp fun hle ↦ hreaded ⟨readed, hlookup, hle⟩
  · exact not_lt.mp fun hlt ↦ hreading ⟨reading, hlookup, hlt⟩

theorem mem_relayTargets {strcmp : Strcmp} {tagW : Tag} {reader : RegReader} :
    reader ∈ tables.relayTargets strcmp tagW ↔
      (∃ key, tables.readingTable.lookup key = some reader) ∧ reader.tr ≤ tagW := by
  rw [Tables.relayTargets, List.mem_filter, mem_items, decide_eq_true_eq, compareTags_nonneg_iff]

/-- A found notice is recorded under its key, and is about the operation and the tag. -/
theorem exists_of_mem_historydataLookup {historyTab : ZHash HistoryData} {readerid : CString}
    {opnum : ℕ} {tagStr key : CString}
    (h : key ∈ historydataLookup historyTab readerid opnum tagStr) :
    ∃ his, historyTab.lookup key = some his ∧ his.readerid = readerid ∧ his.opnum = opnum ∧
      his.sendTagStr = tagStr := by
  obtain ⟨e, he, rfl⟩ := List.mem_map.mp h
  obtain ⟨hmem, hmatch⟩ := List.mem_filter.mp he
  obtain ⟨hreader, hopnum, htag⟩ := of_decide_eq_true hmatch
  exact ⟨e.2, AList.mem_lookup_iff.mpr hmem, hreader, hopnum.symm, htag⟩

/-- No key is found twice. -/
theorem nodup_historydataLookup (historyTab : ZHash HistoryData) (readerid : CString) (opnum : ℕ)
    (tagStr : CString) : (historydataLookup historyTab readerid opnum tagStr).Nodup :=
  List.Sublist.nodup (List.filter_sublist.map Sigma.fst) historyTab.nodupKeys

end Lookup

/-! ### The server as a map from objects to versions, with its tables -/

/-- The version that a server holds of an object. -/
def Server.version (initData : Frame) (server : Server) (object : CString) : Tag × Frame :=
  contents initData server.objects object

/-- The phases whose requests carry a tag. -/
def Phase.CarriesTag (phase : Phase) : Prop :=
  phase = .writePut ∨ phase = .readValue ∨ phase = .readComplete

theorem not_carriesTag_get : ¬ Phase.writeGet.CarriesTag ∧ ¬ Phase.readGet.CarriesTag := by
  simp [Phase.CarriesTag]

/-- What a server with these versions and tables does with a request: its versions and tables
afterwards, and what it sends. -/
inductive Handles (strcmp : Strcmp) (args : ServerArgs) (version : CString → Tag × Frame)
    (tables : Tables) (name : CallId Phase) (request : Body) :
    (CString → Tag × Frame) → Tables → Output → Prop
  /-- A client asks for the tag. -/
  | report (hphase : name.phase = .writeGet ∨ name.phase = .readGet) :
    Handles strcmp args version tables name request version tables
      (.reply ⟨request.object, tagToString (version request.object).1, []⟩)
  /-- A version that is not greater is acknowledged. -/
  | refuse (hphase : name.phase = .writePut)
    (hle : request.tagValue ≤ (version request.object).1) :
    Handles strcmp args version tables name request version tables
      (.reply ⟨request.object, request.tag, []⟩)
  /-- A greater version is relayed, stored and acknowledged. -/
  | adopt (hphase : name.phase = .writePut)
    (hlt : (version request.object).1 < request.tagValue) :
    Handles strcmp args version tables name request
      (Function.update version request.object (request.tagValue, request.payload)) tables
      (relayed strcmp args tables request request.tagValue)
  /-- A request about an operation that is over changes nothing. -/
  | ignore (hphase : name.phase = .readValue ∨ name.phase = .readComplete)
    (hstale : tables.isStale name.client name.opnum = true) :
    Handles strcmp args version tables name request version tables .none
  /-- A reader that asks for a greater tag than the stored one is registered. -/
  | register (hphase : name.phase = .readValue)
    (hfresh : ¬ tables.isStale name.client name.opnum = true)
    (hlt : (version request.object).1 < request.tagValue) :
    Handles strcmp args version tables name request version
      (tables.register request.tagValue name.client name.opnum) .none
  /-- Any other reader is registered and gets the stored element. -/
  | serve (hphase : name.phase = .readValue)
    (hfresh : ¬ tables.isStale name.client name.opnum = true)
    (hle : request.tagValue ≤ (version request.object).1) :
    Handles strcmp args version tables name request version
      (tables.register request.tagValue name.client name.opnum)
      (firstElement args name request.object (version request.object).1 request.tagValue
        (version request.object).2)
  /-- A reader says that it is done. -/
  | complete (hphase : name.phase = .readComplete)
    (hfresh : ¬ tables.isStale name.client name.opnum = true) :
    Handles strcmp args version tables name request version
      (tables.moveToReaded request.tagValue name.client name.opnum) .none

/-- What a server does with a notice. -/
inductive HandlesNotice (args : ServerArgs) (tables : Tables) (notice : Disperse) : Tables → Prop
  /-- A notice about an operation that is over changes nothing. -/
  | ignore (hstale : tables.isStale notice.readerid notice.opnum = true) :
    HandlesNotice args tables notice tables
  /-- The notice is recorded. -/
  | record (hfresh : ¬ tables.isStale notice.readerid notice.opnum = true) :
    HandlesNotice args tables notice (tables.record notice.history)
  /-- The notice is recorded, and with it there are enough. -/
  | move (tag : Tag) (hfresh : ¬ tables.isStale notice.readerid notice.opnum = true)
    (hmany : args.k ≤ (historydataLookup (tables.record notice.history).historyTable
      notice.readerid notice.opnum notice.sendTag).length) :
    HandlesNotice args tables notice
      ((tables.record notice.history).moveToReaded tag notice.readerid notice.opnum)

section Spec

variable {server : Server} {strcmp : Strcmp} {args : ServerArgs} {name : CallId Phase}
  {request : Body}

/-- The result of a handler: it keeps one version for each object and does what `Handles` says, or
it does not get over the tag of the object, which is too long for `get_object_tag`. -/
def Correct (strcmp : Strcmp) (args : ServerArgs) (server : Server) (name : CallId Phase)
    (request : Body) (result : Option (Server × Output)) : Prop :=
  (∃ server' output, result = some (server', output) ∧ WellFormed server'.objects ∧
    Handles strcmp args (server.version args.initData) server.tables name request
      (server'.version args.initData) server'.tables output) ∨
  result = none ∧ ¬ (server.version args.initData request.object).1.Short

theorem parse_rendered (htag : request.tag = tagToString request.tagValue) :
    stringToTag request.tag = some request.tagValue := by
  conv_lhs => rw [htag]
  exact stringToTag_tagToString _

theorem correct_report (hwell : WellFormed server.objects)
    (hname : hasObject server.objects request.object = true)
    (hphase : name.phase = .writeGet ∨ name.phase = .readGet) :
    Correct strcmp args server name request
      (algorithmSODAWWriteGetOrReadGetTag server request) := by
  by_cases hshort : (server.version args.initData request.object).1.Short
  · have hstored := hwell.getObjectTag_of_short args.initData hname hshort
    refine Or.inl ⟨server, _, ?_, hwell, .report hphase⟩
    rw [algorithmSODAWWriteGetOrReadGetTag, hstored]
    rfl
  · have hstored := hwell.getObjectTag_of_not_short args.initData hname hshort
    refine Or.inr ⟨?_, hshort⟩
    rw [algorithmSODAWWriteGetOrReadGetTag, hstored]
    rfl

theorem correct_writePut (hwell : WellFormed server.objects)
    (hname : hasObject server.objects request.object = true)
    (htag : request.tag = tagToString request.tagValue) (hphase : name.phase = .writePut) :
    Correct strcmp args server name request
      (algorithmSODAWWritePut strcmp args server request) := by
  have hparse := parse_rendered htag
  by_cases hshort : (server.version args.initData request.object).1.Short
  swap
  · have hstored := hwell.getObjectTag_of_not_short args.initData hname hshort
    exact Or.inr ⟨by simp [algorithmSODAWWritePut, hparse, hstored], hshort⟩
  have hstored := hwell.getObjectTag_of_short args.initData hname hshort
  left
  rcases lt_or_ge (server.version args.initData request.object).1 request.tagValue with hlt | hle
  · obtain ⟨objects', hreplace, hcontents, hwell'⟩ :=
      hwell.replaceVersion_eq args.initData hname request.tagValue request.payload
    rw [← htag] at hreplace
    refine ⟨{ server with objects := objects' },
      relayed strcmp args server.tables request request.tagValue, ?_, hwell', ?_⟩
    · have hadopts := (compareTags_pos_iff strcmp _ _).mpr hlt
      simp only [algorithmSODAWWritePut, hparse, hstored, hreplace, Option.bind_eq_bind,
        Option.bind_some]
      exact if_pos hadopts
    · have hversion : Server.version args.initData { server with objects := objects' } = _ :=
        hcontents
      rw [hversion]
      exact .adopt hphase hlt
  · refine ⟨server, _, ?_, hwell, .refuse hphase hle⟩
    have hrefuses := mt (compareTags_pos_iff strcmp _ _).mp (not_lt.mpr hle)
    simp only [algorithmSODAWWritePut, hparse, hstored, Option.bind_eq_bind, Option.bind_some]
    exact if_neg hrefuses

theorem correct_readValue (hwell : WellFormed server.objects)
    (hname : hasObject server.objects request.object = true)
    (htag : request.tag = tagToString request.tagValue) (hphase : name.phase = .readValue) :
    Correct strcmp args server name request
      (algorithmSODAWReadValue strcmp args server name request) := by
  have hparse := parse_rendered htag
  have hframe := hwell.getObjectFrame_eq args.initData hname
  by_cases hstale : server.tables.isStale name.client name.opnum = true
  · refine Or.inl ⟨server, _, ?_, hwell, .ignore (Or.inl hphase) hstale⟩
    simp [algorithmSODAWReadValue, hparse, hstale]
  · have hasserted := opnumsAsserted_of_not_isStale hstale
    by_cases hshort : (server.version args.initData request.object).1.Short
    swap
    · have hstored := hwell.getObjectTag_of_not_short args.initData hname hshort
      exact Or.inr ⟨by simp [algorithmSODAWReadValue, hparse, hstale, hasserted, hstored], hshort⟩
    have hstored := hwell.getObjectTag_of_short args.initData hname hshort
    left
    let registered : Server :=
      { server with tables := server.tables.register request.tagValue name.client name.opnum }
    rcases lt_or_ge (server.version args.initData request.object).1 request.tagValue with
      hlt | hle
    · refine ⟨registered, _, ?_, hwell, .register hphase hstale hlt⟩
      have hsmaller := mt (compareTags_nonneg_iff strcmp _ _).mp (not_le.mpr hlt)
      simp only [algorithmSODAWReadValue, hparse, hstored, hstale, hasserted, Option.bind_eq_bind,
        Option.bind_some]
      exact if_neg hsmaller
    · refine ⟨registered, _, ?_, hwell, .serve hphase hstale hle⟩
      have hgreater := (compareTags_nonneg_iff strcmp _ _).mpr hle
      simp only [algorithmSODAWReadValue, hparse, hstored, hframe, hstale, hasserted,
        Option.bind_eq_bind, Option.bind_some]
      exact if_pos hgreater

theorem correct_readComplete (hwell : WellFormed server.objects)
    (htag : request.tag = tagToString request.tagValue) (hphase : name.phase = .readComplete) :
    Correct strcmp args server name request
      (algorithmSODAWReadComplete server name request) := by
  have hparse := parse_rendered htag
  left
  by_cases hstale : server.tables.isStale name.client name.opnum = true
  · refine ⟨server, _, ?_, hwell, .ignore (Or.inr hphase) hstale⟩
    simp [algorithmSODAWReadComplete, hparse, hstale]
  · refine ⟨{ server with
      tables := server.tables.moveToReaded request.tagValue name.client name.opnum }, _, ?_,
      hwell, .complete hphase hstale⟩
    simp [algorithmSODAWReadComplete, hparse, hstale, opnumsAsserted_of_not_isStale hstale]

/-- On a request that carries the rendering of a tag when its phase has one, a server with one
version for each object does what `Handles` says, unless the tag of the object is too long. -/
theorem algorithmSODAW_eq (strcmp : Strcmp) (args : ServerArgs)
    (hstore : WellFormed server.objects)
    (htag : name.phase.CarriesTag → request.tag = tagToString request.tagValue) :
    Correct strcmp args server name request (algorithmSODAW strcmp args server name request) := by
  set created := server.create args request.object with hcreate
  have hwell : WellFormed created.objects := hstore.createObject args.initData server.status
  have hname : hasObject created.objects request.object = true :=
    hasObject_createObject args.initData server.status
  have hversion : created.version args.initData = server.version args.initData :=
    contents_createObject args.initData server.status
  have hcorrect : Correct strcmp args created name request
      (algorithmSODAW strcmp args server name request) := by
    rw [algorithmSODAW, ← hcreate]
    cases hphase : name.phase with
    | writeGet => exact correct_report hwell hname (Or.inl hphase)
    | readGet => exact correct_report hwell hname (Or.inr hphase)
    | writePut => exact correct_writePut hwell hname (htag (Or.inl hphase)) hphase
    | readValue => exact correct_readValue hwell hname (htag (Or.inr (Or.inl hphase))) hphase
    | readComplete => exact correct_readComplete hwell (htag (Or.inr (Or.inr hphase))) hphase
  rwa [Correct, hversion] at hcorrect

/-- With a short tag the handler succeeds. -/
theorem Correct.of_short {result : Option (Server × Output)}
    (h : Correct strcmp args server name request result)
    (hshort : (server.version args.initData request.object).1.Short) :
    ∃ server' output, result = some (server', output) ∧ WellFormed server'.objects ∧
      Handles strcmp args (server.version args.initData) server.tables name request
        (server'.version args.initData) server'.tables output :=
  h.resolve_right fun hfails ↦ hfails.2 hshort

/-- What a handler has done. -/
theorem Correct.of_eq_some {server' : Server} {output : Output}
    (h : Correct strcmp args server name request (some (server', output))) :
    WellFormed server'.objects ∧
      Handles strcmp args (server.version args.initData) server.tables name request
        (server'.version args.initData) server'.tables output := by
  rcases h with ⟨server'', output'', heq, hwell, hhandles⟩ | ⟨hnone, -⟩
  · obtain ⟨rfl, rfl⟩ := Prod.mk.inj (Option.some.inj heq)
    exact ⟨hwell, hhandles⟩
  · cases hnone

/-- On a notice with rendered tags, whose key has room if it is to be recorded, a server with one
version for each object does what `HandlesNotice` says, and the versions stay as they are. -/
theorem algorithmSODAWOnNotice_eq (args : ServerArgs) (hstore : WellFormed server.objects)
    {notice : Disperse} {sendTag readTag : Tag} (hsend : notice.sendTag = tagToString sendTag)
    (hread : notice.readTag = tagToString readTag)
    (hkey : ¬ server.tables.isStale notice.readerid notice.opnum = true →
      notice.history.key.length < bufsize) :
    ∃ server', algorithmSODAWOnNotice args server notice = some server' ∧
      WellFormed server'.objects ∧
      server'.version args.initData = server.version args.initData ∧
      HandlesNotice args server.tables notice server'.tables := by
  set created := server.create args notice.object with hcreate
  have hwell : WellFormed created.objects := hstore.createObject args.initData server.status
  have hversion : created.version args.initData = server.version args.initData :=
    contents_createObject args.initData server.status
  have hsend' : stringToTag notice.sendTag = some sendTag := by
    rw [hsend, stringToTag_tagToString]
  have hread' : stringToTag notice.readTag = some readTag := by
    rw [hread, stringToTag_tagToString]
  by_cases hstale : server.tables.isStale notice.readerid notice.opnum = true
  · refine ⟨created, ?_, hwell, hversion, .ignore hstale⟩
    have hcreated : created.tables.isStale notice.readerid notice.opnum = true := hstale
    simp [algorithmSODAWOnNotice, ← hcreate, algorithmSODAWReadDisperse, hsend', hread', hcreated]
  · have hcreated : ¬ created.tables.isStale notice.readerid notice.opnum = true := hstale
    have hkeystring : historyDataKeystring notice.history = some notice.history.key :=
      if_pos (hkey hstale)
    let recorded := created.tables.record notice.history
    by_cases hmany : args.k ≤ (historydataLookup recorded.historyTable notice.readerid notice.opnum
        notice.sendTag).length
    · refine ⟨{ created with
        tables := recorded.moveToReaded readTag notice.readerid notice.opnum }, ?_, hwell,
        hversion, .move readTag hstale hmany⟩
      have hasserted := opnumsAsserted_of_not_isStale hcreated
      simp only [algorithmSODAWOnNotice, ← hcreate, algorithmSODAWReadDisperse, hsend', hread',
        hcreated, hasserted, hkeystring, Option.bind_eq_bind, Option.bind_some]
      exact if_pos hmany
    · refine ⟨{ created with tables := recorded }, ?_, hwell, hversion, .record hstale⟩
      simp only [algorithmSODAWOnNotice, ← hcreate, algorithmSODAWReadDisperse, hsend', hread',
        hcreated, hkeystring, Option.bind_eq_bind, Option.bind_some]
      exact if_neg hmany

/-- A notice that was recorded has a key with room. -/
theorem key_length_of_algorithmSODAWOnNotice {notice : Disperse} {server' : Server}
    (h : algorithmSODAWOnNotice args server notice = some server')
    (hfresh : ¬ server.tables.isStale notice.readerid notice.opnum = true) :
    notice.history.key.length < bufsize := by
  obtain ⟨hstale, -⟩ | ⟨-, hkey, -⟩ := readDisperse_cases h
  · exact absurd hstale hfresh
  · exact hkey

/-- What a server with one version for each object has done with a notice. -/
theorem eq_of_algorithmSODAWOnNotice {notice : Disperse} {server' : Server}
    (hstore : WellFormed server.objects) {sendTag readTag : Tag}
    (hsend : notice.sendTag = tagToString sendTag) (hread : notice.readTag = tagToString readTag)
    (h : algorithmSODAWOnNotice args server notice = some server') :
    WellFormed server'.objects ∧
      server'.version args.initData = server.version args.initData ∧
      HandlesNotice args server.tables notice server'.tables := by
  obtain ⟨server'', hserver, hnotice⟩ := algorithmSODAWOnNotice_eq args hstore hsend hread
    (key_length_of_algorithmSODAWOnNotice h)
  rw [h, Option.some.injEq] at hserver
  subst hserver
  exact hnotice

end Spec

/-! ### What the handlers send -/

section Sends

variable {strcmp : Strcmp} {args : ServerArgs} {version version' : CString → Tag × Frame}
  {tables tables' : Tables} {name : CallId Phase} {request : Body} {output : Output}

/-- If the entries of the reading table stand under their reader ids, a `WRITE_PUT` is relayed to
readers with different ids. -/
theorem nodup_relayTargets (strcmp : Strcmp) (tagW : Tag)
    (hkeys : ∀ key reader, tables.readingTable.lookup key = some reader → reader.readerId = key) :
    ((tables.relayTargets strcmp tagW).map RegReader.readerId).Nodup := by
  have hitems : (items tables.readingTable).map RegReader.readerId = tables.readingTable.keys := by
    rw [items, List.map_map]
    exact List.map_congr_left fun e he ↦ hkeys e.1 e.2 (AList.mem_lookup_iff.mpr he)
  have hreaders : ((items tables.readingTable).map RegReader.readerId).Nodup := by
    rw [hitems]
    exact tables.readingTable.nodupKeys
  exact List.Sublist.nodup (List.filter_sublist.map _) hreaders

theorem mem_relayed_elements {tagW : Tag} {element : CallId Phase × Body} :
    element ∈ (relayed strcmp args tables request tagW).elements ↔
      ∃ reader, ((∃ key, tables.readingTable.lookup key = some reader) ∧ reader.tr ≤ tagW) ∧
        codedElement reader.readerId reader.opnum request.object tagW request.payload =
          element := by
  simp only [relayed, List.mem_map, mem_relayTargets]

theorem mem_relayed_disperses {tagW : Tag} {notice : Disperse} :
    notice ∈ (relayed strcmp args tables request tagW).disperses ↔
      ∃ reader, ((∃ key, tables.readingTable.lookup key = some reader) ∧ reader.tr ≤ tagW) ∧
        ⟨args.serverId, request.object, request.tag, reader.readerId, tagToString reader.tr,
          reader.opnum⟩ = notice := by
  simp only [relayed, List.mem_map, mem_relayTargets]

/-- The two ways in which a server comes to send an element. -/
inductive SendsElement (version : CString → Tag × Frame) (tables : Tables) (name : CallId Phase)
    (request : Body) : CallId Phase → Body → Prop
  /-- A greater version is relayed to a registered reader. -/
  | relay (key : CString) (reader : RegReader) (hphase : name.phase = .writePut)
    (hlt : (version request.object).1 < request.tagValue)
    (hreader : tables.readingTable.lookup key = some reader)
    (hle : reader.tr ≤ request.tagValue) :
    SendsElement version tables name request ⟨reader.readerId, reader.opnum, .readValue⟩
      ⟨request.object, tagToString request.tagValue, request.payload⟩
  /-- A reader that registers gets the stored version. -/
  | first (hphase : name.phase = .readValue)
    (hfresh : ¬ tables.isStale name.client name.opnum = true)
    (hle : request.tagValue ≤ (version request.object).1) :
    SendsElement version tables name request ⟨name.client, name.opnum, .readValue⟩
      ⟨request.object, tagToString (version request.object).1, (version request.object).2⟩

theorem Handles.sendsElement
    (h : Handles strcmp args version tables name request version' tables' output)
    {other : CallId Phase} {body : Body} (hmem : (other, body) ∈ output.elements) :
    SendsElement version tables name request other body := by
  cases h with
  | adopt hphase hlt =>
    obtain ⟨reader, ⟨⟨key, hreader⟩, hle⟩, heq⟩ := mem_relayed_elements.mp hmem
    obtain ⟨rfl, rfl⟩ := Prod.mk.inj heq
    exact .relay key reader hphase hlt hreader hle
  | serve hphase hfresh hle =>
    obtain ⟨rfl, rfl⟩ := Prod.mk.inj (List.mem_singleton.mp hmem)
    exact .first hphase hfresh hle
  | _ => exact absurd hmem List.not_mem_nil

/-- If the entries of the reading table stand under their reader ids, no two elements that a server
sends on a request go to the same reader. -/
theorem Handles.nodup_names
    (h : Handles strcmp args version tables name request version' tables' output)
    (hkeys : ∀ key reader, tables.readingTable.lookup key = some reader → reader.readerId = key) :
    (output.elements.map Prod.fst).Nodup := by
  cases h with
  | adopt =>
    refine List.Nodup.of_map CallId.client ?_
    simpa [relayed, codedElement, Function.comp_def] using
      nodup_relayTargets strcmp request.tagValue hkeys
  | serve => exact List.nodup_singleton _
  | _ => exact List.nodup_nil

/-- The tag of an element is between the stored tag before the request and the one after it. -/
theorem Handles.element_between
    (h : Handles strcmp args version tables name request version' tables' output)
    {other : CallId Phase} {body : Body} (hmem : (other, body) ∈ output.elements) :
    (version body.object).1 ≤ body.tagValue ∧ body.tagValue ≤ (version' body.object).1 := by
  cases h with
  | adopt hphase hlt =>
    obtain ⟨reader, -, heq⟩ := mem_relayed_elements.mp hmem
    obtain ⟨-, rfl⟩ := Prod.mk.inj heq
    simpa using hlt.le
  | serve hphase hfresh hle =>
    obtain ⟨-, rfl⟩ := Prod.mk.inj (List.mem_singleton.mp hmem)
    simp
  | _ => exact absurd hmem List.not_mem_nil

/-- With every notice goes the element that it is about. -/
theorem Handles.notice
    (h : Handles strcmp args version tables name request version' tables' output)
    (htag : name.phase.CarriesTag → request.tag = tagToString request.tagValue)
    {notice : Disperse} (hmem : notice ∈ output.disperses) :
    notice.clientid = args.serverId ∧ ∃ body : Body,
      (⟨notice.readerid, notice.opnum, .readValue⟩, body) ∈ output.elements ∧
        body.tag = notice.sendTag := by
  cases h with
  | adopt hphase hlt =>
    obtain ⟨reader, hreader, rfl⟩ := mem_relayed_disperses.mp hmem
    exact ⟨rfl, _, mem_relayed_elements.mpr ⟨reader, hreader, rfl⟩, (htag (Or.inl hphase)).symm⟩
  | serve =>
    obtain rfl := List.mem_singleton.mp hmem
    exact ⟨rfl, _, List.mem_singleton_self _, rfl⟩
  | _ => exact absurd hmem List.not_mem_nil

/-- A registered reader was registered before or registers now. -/
theorem Handles.reading
    (h : Handles strcmp args version tables name request version' tables' output) {key : CString}
    {reader : RegReader} (hreader : tables'.readingTable.lookup key = some reader) :
    tables.readingTable.lookup key = some reader ∨
      name.phase = .readValue ∧ key = name.client ∧
        reader = ⟨request.tagValue, name.opnum, name.client⟩ := by
  have hregister : name.phase = .readValue →
      (tables.register request.tagValue name.client name.opnum).readingTable.lookup key =
        some reader → tables.readingTable.lookup key = some reader ∨
          name.phase = .readValue ∧ key = name.client ∧
            reader = ⟨request.tagValue, name.opnum, name.client⟩ := by
    intro hphase hlookup
    rw [reading_register] at hlookup
    split_ifs at hlookup with hkey
    · exact Or.inr ⟨hphase, hkey, (Option.some.inj hlookup).symm⟩
    · exact Or.inl hlookup
  cases h with
  | register hphase => exact hregister hphase hreader
  | serve hphase => exact hregister hphase hreader
  | complete =>
    rw [reading_moveToReaded] at hreader
    split_ifs at hreader
    exact Or.inl hreader
  | _ => exact Or.inl hreader

/-- A request records no notice. -/
theorem Handles.history
    (h : Handles strcmp args version tables name request version' tables' output) {key : CString}
    {his : HistoryData} (hhis : tables'.historyTable.lookup key = some his) :
    tables.historyTable.lookup key = some his := by
  cases h with
  | complete => exact history_of_moveToReaded hhis
  | _ => exact hhis

/-- A notice registers no reader. -/
theorem HandlesNotice.reading {notice : Disperse} (h : HandlesNotice args tables notice tables')
    {key : CString} {reader : RegReader}
    (hreader : tables'.readingTable.lookup key = some reader) :
    tables.readingTable.lookup key = some reader := by
  cases h with
  | move =>
    rw [reading_moveToReaded] at hreader
    split_ifs at hreader
    exact hreader
  | _ => exact hreader

/-- A recorded notice was recorded before or is recorded now. -/
theorem history_record {his item : HistoryData} {key : CString}
    (h : (tables.record his).historyTable.lookup key = some item) :
    tables.historyTable.lookup key = some item ∨
      key = his.key ∧ item = his :=
  lookup_zhashInsert h

theorem HandlesNotice.history {notice : Disperse} (h : HandlesNotice args tables notice tables')
    {key : CString} {item : HistoryData} (hitem : tables'.historyTable.lookup key = some item) :
    tables.historyTable.lookup key = some item ∨
      key = notice.history.key ∧ item = notice.history := by
  cases h with
  | ignore => exact Or.inl hitem
  | record => exact history_record hitem
  | move => exact history_record (history_of_moveToReaded hitem)

/-- A version stays as it is or is replaced by that of a `WRITE_PUT`. -/
theorem Handles.version_eq
    (h : Handles strcmp args version tables name request version' tables' output)
    (object : CString) : version' object = version object ∨ name.phase = .writePut ∧
      object = request.object ∧ version' object = (request.tagValue, request.payload) := by
  cases h with
  | adopt hphase hlt =>
    by_cases hobject : object = request.object
    · subst hobject
      exact Or.inr ⟨hphase, rfl, Function.update_self ..⟩
    · exact Or.inl (Function.update_of_ne hobject ..)
  | _ => exact Or.inl rfl

/-- A greater version that comes with a `WRITE_PUT` is stored. -/
theorem Handles.version_writePut
    (h : Handles strcmp args version tables name request version' tables' output)
    (hphase : name.phase = .writePut) (hlt : (version request.object).1 < request.tagValue) :
    version' request.object = (request.tagValue, request.payload) := by
  cases h with
  | adopt => exact Function.update_self ..
  | refuse _ hle => exact absurd hlt (not_lt.mpr hle)
  | report hget => simp [hphase] at hget
  | ignore hread => simp [hphase] at hread
  | register hread => simp [hphase] at hread
  | serve hread => simp [hphase] at hread
  | complete hread => simp [hphase] at hread

/-- The versions grow. -/
theorem Handles.version_le
    (h : Handles strcmp args version tables name request version' tables' output)
    (object : CString) : (version object).1 ≤ (version' object).1 := by
  cases h with
  | adopt hphase hlt =>
    by_cases hobject : object = request.object
    · subst hobject
      rw [Function.update_self]
      exact hlt.le
    · rw [Function.update_of_ne hobject]
  | _ => exact le_rfl

/-- Requests that register or unregister a reader have no response. A response carries a tag and
repeats the object, and for `WRITE_PUT` the tag, of the request. -/
theorem Handles.response
    (h : Handles strcmp args version tables name request version' tables' output)
    (hstored : ∀ object, 0 ≤ (version object).1.number)
    (hrequest : name.phase.CarriesTag →
      request.tag = tagToString request.tagValue ∧ 0 ≤ request.tagValue.number) {reply : Body}
    (hreply : output.response = some reply) :
    name.phase ≠ .readValue ∧ reply.tag = tagToString reply.tagValue ∧ 0 ≤ reply.tagValue.number ∧
      reply.object = request.object ∧ (name.phase = .writePut → reply.tag = request.tag) := by
  have hack : name.phase = .writePut → some ⟨request.object, request.tag, []⟩ = some reply →
      name.phase ≠ .readValue ∧ reply.tag = tagToString reply.tagValue ∧
        0 ≤ reply.tagValue.number ∧ reply.object = request.object ∧
          (name.phase = .writePut → reply.tag = request.tag) := by
    rintro hphase ⟨⟩
    obtain ⟨htag, hz⟩ := hrequest (Or.inl hphase)
    exact ⟨by simp [hphase], htag, hz, rfl, fun _ ↦ rfl⟩
  cases h with
  | report hphase =>
    obtain rfl := Option.some.inj hreply
    rw [Body.tagValue_tagToString]
    refine ⟨?_, rfl, hstored _, rfl, ?_⟩ <;> rcases hphase with hget | hget <;> simp [hget]
  | refuse hphase => exact hack hphase hreply
  | adopt hphase => exact hack hphase hreply
  | _ => cases hreply

/-- An element carries a tag, and so does a notice. -/
theorem Handles.rendered
    (h : Handles strcmp args version tables name request version' tables' output)
    (hstored : ∀ object, 0 ≤ (version object).1.number)
    (hrequest : name.phase.CarriesTag →
      request.tag = tagToString request.tagValue ∧ 0 ≤ request.tagValue.number) :
    (∀ element ∈ output.elements,
      element.2.tag = tagToString element.2.tagValue ∧ 0 ≤ element.2.tagValue.number) ∧
    ∀ notice ∈ output.disperses, ∃ sendTag readTag,
      notice.sendTag = tagToString sendTag ∧ notice.readTag = tagToString readTag := by
  have hcoded : ∀ {readerid : CString} {opnum : ℕ} {object : CString} {tag : Tag} {cs : Frame},
      0 ≤ tag.number → (codedElement readerid opnum object tag cs).2.tag =
          tagToString (codedElement readerid opnum object tag cs).2.tagValue ∧
        0 ≤ (codedElement readerid opnum object tag cs).2.tagValue.number := by
    intro readerid opnum object tag cs hz
    rw [codedElement, Body.tagValue_tagToString]
    exact ⟨rfl, hz⟩
  cases h with
  | adopt hphase =>
    obtain ⟨htag, hz⟩ := hrequest (Or.inl hphase)
    refine ⟨fun element helement ↦ ?_, fun notice hnotice ↦ ?_⟩
    · obtain ⟨reader, -, rfl⟩ := mem_relayed_elements.mp helement
      exact hcoded hz
    · obtain ⟨reader, -, rfl⟩ := mem_relayed_disperses.mp hnotice
      exact ⟨_, _, htag, rfl⟩
  | serve =>
    refine ⟨fun element helement ↦ ?_, fun notice hnotice ↦ ?_⟩
    · obtain rfl := List.mem_singleton.mp helement
      exact hcoded (hstored _)
    · obtain rfl := List.mem_singleton.mp hnotice
      exact ⟨_, _, rfl, rfl⟩
  | _ =>
    exact ⟨fun _ hmem ↦ absurd hmem List.not_mem_nil, fun _ hmem ↦ absurd hmem List.not_mem_nil⟩

end Sends

/-- A response answers a `WRITE_GET`, a `READ_GET` or a `WRITE_PUT`. It repeats the object of the
request, and to a `WRITE_PUT` its tag. -/
theorem response_of_algorithmSODAW {strcmp : Strcmp} {args : ServerArgs} {server server' : Server}
    {name : CallId Phase} {request reply : Body} {output : Output}
    (h : algorithmSODAW strcmp args server name request = some (server', output))
    (hreply : output.response = some reply) :
    (name.phase = .writeGet ∨ name.phase = .readGet ∨ name.phase = .writePut) ∧
      reply.object = request.object ∧ (name.phase = .writePut → reply.tag = request.tag) := by
  obtain ⟨client, opnum, phase⟩ := name
  cases phase with
  | writeGet =>
    obtain ⟨-, tag, rfl⟩ := report_cases h
    obtain rfl := Option.some.inj hreply
    exact ⟨Or.inl rfl, rfl, fun hput ↦ by cases hput⟩
  | readGet =>
    obtain ⟨-, tag, rfl⟩ := report_cases h
    obtain rfl := Option.some.inj hreply
    exact ⟨Or.inr (Or.inl rfl), rfl, fun hput ↦ by cases hput⟩
  | writePut =>
    refine ⟨Or.inr (Or.inr rfl), ?_⟩
    obtain ⟨tagW, tag, -, -, ⟨-, -, rfl⟩ | ⟨-, -, rfl⟩⟩ := writePut_cases h
    · obtain rfl := Option.some.inj hreply
      exact ⟨rfl, fun _ ↦ rfl⟩
    · obtain rfl := Option.some.inj hreply
      exact ⟨rfl, fun _ ↦ rfl⟩
  | readValue =>
    obtain ⟨-, -, rfl⟩ | ⟨-, tagR, -, rfl | ⟨tagLoc, payload, rfl⟩⟩ := readValue_cases h
    · cases hreply
    · cases hreply
    · cases hreply
  | readComplete =>
    obtain ⟨rfl, -⟩ := readComplete_cases h
    cases hreply

end Colas.Sodaw
