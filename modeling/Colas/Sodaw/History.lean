import Mathlib.Data.Finset.Insert
import Colas.Sodaw.Tables

/-!
# What the history table counts

A server accepts a `READ_DISPERSE` if the operation of the reader is not over, and puts it into the
history table under a key that joins the reader, the number of the operation, the sender and the tag
with underscores. The ids and the tag have underscores of their own, so that different notices can
have one key, and a notice whose key is taken is dropped.

`senders` is what is to be counted, read off the log of a run: the servers from which a notice about
an operation and a tag has been accepted since the history of the reader was last cleared for that
operation. The table counts them in every run in which each accepted notice has a key that fits into
the buffer of `HistoryData_keystring`, and that is not taken by a different notice
(`history_counts`). A notice whose key is too long is not handled (`step_eq_none_of_long`), and the
first one whose key is taken is not counted (`miscounted_of_collision`).
-/

set_option autoImplicit false
set_option relaxedAutoImplicit false

namespace Colas.Sodaw

open TransitionSystem

/-- What makes a notice: the reader, the number of the operation, the sender and the tag. -/
def HistoryData.fields (his : HistoryData) : CString × ℕ × CString × CString :=
  (his.readerid, his.opnum, his.senderid, his.sendTagStr)

/-- The notice that a server accepts. -/
def Server.accepted (server : Server) : Message → Option HistoryData
  | .disperse notice =>
    if server.tables.isStale notice.readerid notice.opnum then none else some notice.history
  | .request _ _ | .other _ => none

/-- The reader and the number up to which a server clears the history of its operations. -/
def Server.cleared (args : ServerArgs) (server : Server) : Message → Option (CString × ℕ)
  | .disperse notice =>
    if ¬ server.tables.isStale notice.readerid notice.opnum ∧
        args.k ≤ (historydataLookup (server.tables.record notice.history).historyTable
          notice.readerid notice.opnum notice.sendTag).length then
      some (notice.readerid, notice.opnum)
    else none
  | .request name _ =>
    if name.phase = .readComplete ∧ ¬ server.tables.isStale name.client name.opnum then
      some (name.client, name.opnum)
    else none
  | .other _ => none

/-- The servers from which a notice about the operation and the tag has been accepted since the
history of the reader was last cleared for the operation. -/
def senders (args : ServerArgs) (readerid : CString) (opnum : ℕ) (sendTag : CString) :
    List (Server × Message) → Finset CString
  | [] => ∅
  | (server, message) :: earlier =>
    if (server.cleared args message).any fun last ↦ last.1 = readerid ∧ opnum ≤ last.2 then ∅
    else match server.accepted message with
      | some his =>
        if his.readerid = readerid ∧ his.opnum = opnum ∧ his.sendTagStr = sendTag then
          insert his.senderid (senders args readerid opnum sendTag earlier)
        else senders args readerid opnum sendTag earlier
      | none => senders args readerid opnum sendTag earlier

/-- The key of a notice that the server accepts is free, or the notice is there already. -/
def Server.KeyFree (server : Server) (message : Message) : Prop :=
  ∀ his ∈ server.accepted message,
    ∀ other ∈ server.tables.historyTable.lookup his.key,
      other.fields = his.fields

instance (server : Server) : DecidablePred server.KeyFree := fun message ↦
  inferInstanceAs (Decidable (∀ his ∈ server.accepted message,
    ∀ other ∈ server.tables.historyTable.lookup his.key,
      other.fields = his.fields))

/-- The key of a notice that the server accepts has room in the buffer of
`HistoryData_keystring`. -/
def Server.KeyFits (server : Server) (message : Message) : Prop :=
  ∀ his ∈ server.accepted message, his.key.length < bufsize

instance (server : Server) : DecidablePred server.KeyFits := fun message ↦
  inferInstanceAs (Decidable (∀ his ∈ server.accepted message, his.key.length < bufsize))

/-- The key of a notice that the server accepts fits, and it is free. -/
def Server.Countable (server : Server) (message : Message) : Prop :=
  server.KeyFits message ∧ server.KeyFree message

instance (server : Server) : DecidablePred server.Countable := fun message ↦
  inferInstanceAs (Decidable (server.KeyFits message ∧ server.KeyFree message))

/-! ### What a message does to the history table -/

/-- The history table after a notice has been recorded, or none. -/
def recordAccepted (historyTab : ZHash HistoryData) : Option HistoryData → ZHash HistoryData
  | some his => (zhashInsert historyTab his.key his).1
  | none => historyTab

/-- The history table after it has been cleared, or not. -/
def clearFor (historyTab : ZHash HistoryData) : Option (CString × ℕ) → ZHash HistoryData
  | some (readerid, opnum) => historydataClearByReaderidOpnum historyTab readerid opnum
  | none => historyTab

section Spec

variable {strcmp : Strcmp} {args : ServerArgs} {server server' : Server} {message : Message}
  {output : Output}

/-- An accepted notice is recorded, and then the history is cleared, if at all. -/
theorem Handled.history (h : Handled strcmp args server message server' output) :
    server'.tables.historyTable = clearFor
      (recordAccepted server.tables.historyTable (server.accepted message))
      (server.cleared args message) := by
  cases h with
  | report name request tag hphase =>
    rcases hphase with hphase | hphase <;>
      simp [Server.accepted, Server.cleared, hphase, recordAccepted, clearFor]
  | adopt name request tagW tag objects key hphase =>
    simp [Server.accepted, Server.cleared, hphase, recordAccepted, clearFor]
  | refuse name request tagW tag hphase =>
    simp [Server.accepted, Server.cleared, hphase, recordAccepted, clearFor]
  | ignore name request hphase hstale =>
    simp [Server.accepted, Server.cleared, hstale, recordAccepted, clearFor]
  | register name request tagR output hphase =>
    simp [Server.accepted, Server.cleared, hphase, recordAccepted, clearFor, Tables.register]
  | complete name request tagR hphase hfresh =>
    simp [Server.accepted, Server.cleared, hphase, hfresh, recordAccepted, clearFor,
      Tables.moveToReaded]
  | ignoreNotice notice hstale =>
    simp [Server.accepted, Server.cleared, hstale, recordAccepted, clearFor]
  | record notice hfresh hfew =>
    rw [Server.accepted, if_neg hfresh, Server.cleared, if_neg fun h ↦ hfew h.2]
    rfl
  | move notice readTag hfresh hmany =>
    rw [Server.accepted, if_neg hfresh, Server.cleared, if_pos ⟨hfresh, hmany⟩]
    rfl
  | other => rfl

theorem step_history (h : server.step strcmp args message = some server') :
    server'.tables.historyTable = clearFor
      (recordAccepted server.tables.historyTable (server.accepted message))
      (server.cleared args message) := by
  obtain ⟨⟨after, output⟩, hhandle, rfl⟩ := Option.map_eq_some_iff.mp h
  have hhistory := (handled_of_handle hhandle).history
  cases message <;> exact hhistory

/-- An accepted notice whose key is too long does not leave the handler. -/
theorem step_eq_none_of_long (hlong : ¬ server.KeyFits message) :
    server.step strcmp args message = none := by
  rw [Option.eq_none_iff_forall_ne_some]
  intro server' hstep
  cases message with
  | disperse notice =>
    refine hlong fun his haccepted ↦ ?_
    simp only [Server.accepted, Option.mem_def, Option.ite_none_left_eq_some,
      Option.some.injEq] at haccepted
    obtain ⟨hfresh, rfl⟩ := haccepted
    obtain ⟨⟨_, output⟩, hhandle, -⟩ := Option.map_eq_some_iff.mp hstep
    obtain ⟨after, hafter, -⟩ := Option.map_eq_some_iff.mp hhandle
    exact key_length_of_algorithmSODAWOnNotice hafter hfresh
  | request name frames => exact hlong fun his haccepted ↦ by cases haccepted
  | other object => exact hlong fun his haccepted ↦ by cases haccepted

end Spec

/-! ### Counting -/

/-- A notice with these fields is in the table. -/
def Recorded (historyTab : ZHash HistoryData) (fields : CString × ℕ × CString × CString) : Prop :=
  ∃ key his, historyTab.lookup key = some his ∧ his.fields = fields

/-- The notices stand under their own keys. -/
def OwnKeys (historyTab : ZHash HistoryData) : Prop :=
  ∀ key his, historyTab.lookup key = some his → key = his.key

section Counting

variable {historyTab : ZHash HistoryData} {accepted : Option HistoryData}
  {cleared : Option (CString × ℕ)} {readerid sender sendTag key : CString} {opnum : ℕ}
  {his : HistoryData}

/-- Clearing keeps the notices about other readers and later operations. -/
theorem lookup_clearFor : (clearFor historyTab cleared).lookup key = some his ↔
    historyTab.lookup key = some his ∧
      ¬ cleared.any (fun last ↦ last.1 = his.readerid ∧ his.opnum ≤ last.2) = true := by
  cases cleared with
  | none => simp [clearFor]
  | some last =>
    have hfilter : (clearFor historyTab (some last)).lookup key = some his ↔
        Sigma.mk key his ∈ historyTab.entries.filter
          fun e ↦ ¬ (e.2.readerid = last.1 ∧ e.2.opnum ≤ last.2) := AList.mem_lookup_iff
    have hmem : historyTab.lookup key = some his ↔ Sigma.mk key his ∈ historyTab.entries :=
      AList.mem_lookup_iff
    rw [hfilter, hmem, List.mem_filter, Option.any_some, decide_eq_true_eq, decide_eq_true_eq,
      eq_comm (a := last.1)]

theorem OwnKeys.clearFor (h : OwnKeys historyTab) : OwnKeys (clearFor historyTab cleared) :=
  fun key his hlookup ↦ h key his (lookup_clearFor.mp hlookup).1

theorem OwnKeys.recordAccepted (h : OwnKeys historyTab) :
    OwnKeys (recordAccepted historyTab accepted) := by
  intro key his hlookup
  cases accepted with
  | none => exact h key his hlookup
  | some new =>
    rcases lookup_zhashInsert hlookup with hold | ⟨rfl, rfl⟩
    · exact h key his hold
    · rfl

theorem recorded_clearFor :
    Recorded (clearFor historyTab cleared) (readerid, opnum, sender, sendTag) ↔
      Recorded historyTab (readerid, opnum, sender, sendTag) ∧
        ¬ cleared.any (fun last ↦ last.1 = readerid ∧ opnum ≤ last.2) = true := by
  constructor
  · rintro ⟨key, his, hlookup, hfields⟩
    obtain ⟨hold, hkept⟩ := lookup_clearFor.mp hlookup
    obtain ⟨rfl, rfl, -⟩ := by simpa [HistoryData.fields] using hfields
    exact ⟨⟨key, his, hold, hfields⟩, hkept⟩
  · rintro ⟨⟨key, his, hold, hfields⟩, hkept⟩
    obtain ⟨rfl, rfl, -⟩ := by simpa [HistoryData.fields] using hfields
    exact ⟨key, his, lookup_clearFor.mpr ⟨hold, hkept⟩, hfields⟩

/-- Recording adds the notice if its key is free or its own. -/
theorem recorded_recordAccepted {fields : CString × ℕ × CString × CString}
    (hfree : ∀ his ∈ accepted, ∀ other ∈ historyTab.lookup his.key,
      other.fields = his.fields) :
    Recorded (recordAccepted historyTab accepted) fields ↔
      Recorded historyTab fields ∨ ∃ his ∈ accepted, his.fields = fields := by
  cases accepted with
  | none => simp [recordAccepted]
  | some new =>
    simp only [recordAccepted, zhashInsert, Option.mem_some_iff, exists_eq_left']
    split_ifs with hkey
    · refine ⟨Or.inl, fun h ↦ h.elim id fun hnew ↦ ?_⟩
      obtain ⟨other, hother⟩ := Option.isSome_iff_exists.mp (AList.lookup_isSome.mpr hkey)
      exact ⟨_, other, hother, (hfree new rfl other hother).trans hnew⟩
    · constructor
      · rintro ⟨key, his, hlookup, hfields⟩
        by_cases hsame : key = new.key
        · subst hsame
          rw [AList.lookup_insert, Option.some.injEq] at hlookup
          exact Or.inr (hlookup ▸ hfields)
        · rw [AList.lookup_insert_ne hsame] at hlookup
          exact Or.inl ⟨key, his, hlookup, hfields⟩
      · rintro (⟨key, his, hlookup, hfields⟩ | hnew)
        · have hother : key ≠ new.key := by
            rintro rfl
            exact hkey (AList.lookup_isSome.mp (by rw [hlookup]; rfl))
          exact ⟨key, his, (AList.lookup_insert_ne hother).trans hlookup, hfields⟩
        · exact ⟨_, new, AList.lookup_insert _, hnew⟩

/-- Notices about one operation and one tag that stand under their own keys have different
senders. -/
theorem length_historydataLookup (hkeys : OwnKeys historyTab) {ids : Finset CString}
    (hids : ∀ sender, sender ∈ ids ↔ Recorded historyTab (readerid, opnum, sender, sendTag)) :
    (historydataLookup historyTab readerid opnum sendTag).length = ids.card := by
  let found := historyTab.entries.filter fun e ↦
    e.2.readerid = readerid ∧ opnum = e.2.opnum ∧ e.2.sendTagStr = sendTag
  have hfound : ∀ e, e ∈ found ↔ e ∈ historyTab.entries ∧
      e.2.readerid = readerid ∧ opnum = e.2.opnum ∧ e.2.sendTagStr = sendTag := fun e ↦ by
    rw [List.mem_filter, decide_eq_true_eq]
  have hmap : historydataLookup historyTab readerid opnum sendTag =
      (found.map fun e ↦ e.2.senderid).map fun sender ↦
        HistoryData.key ⟨readerid, sender, [], sendTag, opnum⟩ := by
    rw [List.map_map]
    refine List.map_congr_left fun e he ↦ ?_
    obtain ⟨hmem, rfl, rfl, rfl⟩ := (hfound e).mp he
    exact hkeys e.1 e.2 (AList.mem_lookup_iff.mpr hmem)
  have hnodup : (found.map fun e ↦ e.2.senderid).Nodup :=
    List.Nodup.of_map _ (hmap ▸ nodup_historydataLookup historyTab readerid opnum sendTag)
  have hset : (found.map fun e ↦ e.2.senderid).toFinset = ids := by
    ext sender
    rw [List.mem_toFinset, List.mem_map, hids]
    constructor
    · rintro ⟨e, he, rfl⟩
      obtain ⟨hmem, rfl, rfl, rfl⟩ := (hfound e).mp he
      exact ⟨e.1, e.2, AList.mem_lookup_iff.mpr hmem, rfl⟩
    · rintro ⟨key, his, hlookup, hfields⟩
      obtain ⟨hreader, hopnum, hsender, htag⟩ := by simpa [HistoryData.fields] using hfields
      exact ⟨⟨key, his⟩,
        (hfound _).mpr ⟨AList.mem_lookup_iff.mp hlookup, hreader, hopnum.symm, htag⟩, hsender⟩
  rw [← hset, List.toFinset_card_of_nodup hnodup, hmap, List.length_map]

end Counting

/-! ### Runs -/

/-- The history table has the notices that are to be counted, under their own keys. -/
structure Recounted (args : ServerArgs) (s : Logged Server Message) : Prop where
  /-- The notices stand under their own keys. -/
  ownKeys : OwnKeys s.state.tables.historyTable
  /-- They are from the senders in the log. -/
  mem_senders : ∀ readerid opnum sendTag sender,
    sender ∈ senders args readerid opnum sendTag s.log ↔
      Recorded s.state.tables.historyTable (readerid, opnum, sender, sendTag)

section Runs

variable {strcmp : Strcmp} {args : ServerArgs} {server : Server} {message : Message}
  {log : List (Server × Message)} {s s' : Logged Server Message}
  {readerid sender sendTag : CString} {opnum : ℕ}

theorem mem_senders_cons :
    sender ∈ senders args readerid opnum sendTag ((server, message) :: log) ↔
      (sender ∈ senders args readerid opnum sendTag log ∨
        ∃ his ∈ server.accepted message, his.fields = (readerid, opnum, sender, sendTag)) ∧
      ¬ (server.cleared args message).any (fun last ↦ last.1 = readerid ∧ opnum ≤ last.2) =
        true := by
  rw [senders]
  split_ifs with hcleared
  · exact iff_of_false (Finset.notMem_empty _) fun h ↦ h.2 hcleared
  · rw [and_iff_left hcleared]
    cases haccepted : server.accepted message with
    | none => simp
    | some his =>
      simp only [Option.mem_some_iff, exists_eq_left', HistoryData.fields, Prod.mk.injEq]
      split_ifs with hsame
      · obtain ⟨rfl, rfl, rfl⟩ := hsame
        rw [Finset.mem_insert, or_comm]
        simp [eq_comm]
      · refine (or_iff_left fun h ↦ hsame ⟨h.1, h.2.1, h.2.2.2⟩).symm

/-- Under its key the table has no notice with the fields, if a different one stands there. -/
theorem not_recorded_of_taken {historyTab : ZHash HistoryData} {his other : HistoryData}
    (hkeys : OwnKeys historyTab)
    (hother : historyTab.lookup his.key = some other)
    (hne : other.fields ≠ his.fields) : ¬ Recorded historyTab his.fields := by
  rintro ⟨key, same, hsame, hfields⟩
  obtain ⟨hreader, hopnum, hsender, htag⟩ := by simpa [HistoryData.fields] using hfields
  have hkey : key = his.key := by
    rw [hkeys key same hsame, HistoryData.key, HistoryData.key, hreader, hopnum, hsender,
      htag]
  rw [hkey, hother, Option.some.injEq] at hsame
  exact hne (hsame ▸ hfields)

theorem recounted_start (args : ServerArgs) : Recounted args (Logged.start Server.initial) where
  ownKeys := fun key his h ↦ by simp [Logged.start, Server.initial] at h
  mem_senders := fun readerid opnum sendTag sender ↦ by
    simp [Logged.start, senders, Recorded, Server.initial]

/-- A message after which the tally is that of the table. -/
theorem Recounted.step (h : Recounted args s) (hfree : s.state.KeyFree message)
    (hstep : Logged.next (Server.step strcmp args) s message = some s') : Recounted args s' := by
  obtain ⟨server, hserver, rfl⟩ := Option.map_eq_some_iff.mp hstep
  have hhistory := step_history hserver
  refine ⟨?_, fun readerid opnum sendTag sender ↦ ?_⟩
  · rw [hhistory]
    exact h.ownKeys.recordAccepted.clearFor
  · rw [mem_senders_cons, hhistory, recorded_clearFor, recorded_recordAccepted hfree,
      h.mem_senders]

/-- The table counts what is to be counted. -/
theorem Recounted.length_eq (h : Recounted args s) :
    (historydataLookup s.state.tables.historyTable readerid opnum sendTag).length =
      (senders args readerid opnum sendTag s.log).card :=
  length_historydataLookup h.ownKeys (h.mem_senders readerid opnum sendTag)

theorem Recounted.of_run
    (run : Run (Logged.next (Server.step strcmp args)) (fun s message ↦ s.state.Countable message)
      (Logged.start Server.initial) s) : Recounted args s :=
  run.invariant (recounted_start args) fun _ _ _ h hguard hstep ↦ h.step hguard.2 hstep

/-- In every run in which the key of each accepted notice fits and is not taken by a different one,
the notices in the history table about an operation and a tag are as many as the servers from which
such a notice has been accepted since the history of the reader was last cleared for the
operation. -/
theorem history_counts
    (run : Run (Logged.next (Server.step strcmp args)) (fun s message ↦ s.state.Countable message)
      (Logged.start Server.initial) s) (readerid : CString) (opnum : ℕ) (sendTag : CString) :
    (historydataLookup s.state.tables.historyTable readerid opnum sendTag).length =
      (senders args readerid opnum sendTag s.log).card :=
  (Recounted.of_run run).length_eq

/-- An accepted notice that is not recorded clears nothing, as long as few notices agree. -/
theorem cleared_eq_none {server : Server} {his : HistoryData}
    (hfew : ∀ readerid opnum sendTag, (historydataLookup server.tables.historyTable readerid opnum
      sendTag).length < args.k) (haccepted : server.accepted message = some his)
    (hrecord : (server.tables.record his).historyTable = server.tables.historyTable) :
    server.cleared args message = none := by
  cases message with
  | disperse notice =>
    simp only [Server.accepted, Option.ite_none_left_eq_some, Option.some.injEq] at haccepted
    obtain ⟨-, rfl⟩ := haccepted
    rw [Server.cleared, hrecord]
    exact if_neg fun h ↦ absurd h.2 (not_le.mpr (hfew _ _ _))
  | request name frames => cases haccepted
  | other object => cases haccepted

/-- The first notice that finds its key taken by a different one is not counted. -/
theorem miscounted_of_collision (hk : 1 ≤ args.k)
    (run : Run (Logged.next (Server.step strcmp args)) (fun s message ↦ s.state.Countable message)
      (Logged.start Server.initial) s) (htaken : ¬ s.state.KeyFree message)
    (hstep : Logged.next (Server.step strcmp args) s message = some s') :
    ∃ readerid opnum sendTag,
      (historydataLookup s'.state.tables.historyTable readerid opnum sendTag).length + 1 =
        (senders args readerid opnum sendTag s'.log).card := by
  have hrecounted := Recounted.of_run run
  obtain ⟨server, hserver, rfl⟩ := Option.map_eq_some_iff.mp hstep
  obtain ⟨his, haccepted, other, hother, hne⟩ : ∃ his, s.state.accepted message = some his ∧
      ∃ other, s.state.tables.historyTable.lookup his.key = some other ∧
        other.fields ≠ his.fields := by
    simpa [Server.KeyFree] using htaken
  have hkey : his.key ∈ s.state.tables.historyTable :=
    AList.lookup_isSome.mp (by rw [hother]; rfl)
  have hrecord : (s.state.tables.record his).historyTable = s.state.tables.historyTable := by
    rw [Tables.record, zhashInsert, if_pos hkey]
  have hreaches : Run (Server.step strcmp args) (fun s message ↦ s.Countable message)
      Server.initial s.state := Logged.run_state run
  have hfew := (tidy_of_run hk (hreaches.weaken fun _ _ _ ↦ trivial)).2.1.few
  have hcleared : s.state.cleared args message = none :=
    cleared_eq_none hfew haccepted hrecord
  have hhistory := step_history hserver
  rw [haccepted, hcleared] at hhistory
  refine ⟨his.readerid, his.opnum, his.sendTagStr, ?_⟩
  have hnew : his.senderid ∉ senders args his.readerid his.opnum his.sendTagStr s.log := by
    rw [hrecounted.mem_senders]
    exact not_recorded_of_taken hrecounted.ownKeys hother hne
  have hsenders : senders args his.readerid his.opnum his.sendTagStr
      ((s.state, message) :: s.log) =
        insert his.senderid (senders args his.readerid his.opnum his.sendTagStr s.log) := by
    simp [senders, haccepted, hcleared]
  rw [hsenders, Finset.card_insert_of_notMem hnew, ← hrecounted.length_eq, hhistory]
  exact congrArg (fun table ↦ (historydataLookup table _ _ _).length + 1) hrecord

/-- A server of a system in which three elements are enough. -/
def historyArgs : ServerArgs := ⟨ascii ['s', '1'], [1], 3⟩

/-- The server says that it has sent the reader `r` the element with the tag for the operation
`1`. -/
def sentBy (server : List Char) (tag : Tag) : Message :=
  .disperse ⟨ascii server, ascii ['o'], tagToString tag, ascii ['r'], tagToString initTag, 1⟩

/-- A server after these messages, if they meet the guard. -/
def historyRun (guard : Server → Message → Prop) [∀ s message, Decidable (guard s message)]
    (messages : List Message) : Option (Logged Server Message) :=
  execute (Logged.next (Server.step Strcmp.sign historyArgs))
    (fun s message ↦ guard s.state message) (Logged.start Server.initial) messages

/-- Two servers send a notice about one tag, the first of them twice. -/
theorem history_counts_two : ∃ s, historyRun Server.Countable [sentBy ['s', '1'] ⟨1, ascii ['w']⟩,
      sentBy ['s', '2'] ⟨1, ascii ['w']⟩, sentBy ['s', '1'] ⟨1, ascii ['w']⟩] = some s ∧
    (historydataLookup s.state.tables.historyTable (ascii ['r']) 1 (ascii ['1', '_', 'w'])).length =
      (senders historyArgs (ascii ['r']) 1 (ascii ['1', '_', 'w']) s.log).card := by
  have hsome : (historyRun Server.Countable [sentBy ['s', '1'] ⟨1, ascii ['w']⟩,
      sentBy ['s', '2'] ⟨1, ascii ['w']⟩, sentBy ['s', '1'] ⟨1, ascii ['w']⟩]).isSome = true := by
    decide +kernel
  obtain ⟨s, hs⟩ := Option.isSome_iff_exists.mp hsome
  exact ⟨s, hs, history_counts (run_of_execute hs) _ _ _⟩

/-- A notice in which the ids of the reader, of the server and of the writer have forty bytes. -/
def longIds : Message :=
  let repeated (c : Byte) : CString := List.replicate 40 c
  .disperse ⟨repeated 115, ascii ['o'], tagToString ⟨1, repeated 119⟩, repeated 114,
    tagToString initTag, 1⟩

/-- The key of a notice of the server `s` about a tag of the writer `1_w` is taken by one of the
server `s_1` about a tag of the writer `w`. A notice with three long ids is accepted, and the buffer
for its key has no room. -/
theorem not_history_counts : (∃ s,
    historyRun (fun _ _ ↦ True) [sentBy ['s', '_', '1'] ⟨1, ascii ['w']⟩,
      sentBy ['s'] ⟨1, ascii ['1', '_', 'w']⟩] = some s ∧
    senders historyArgs (ascii ['r']) 1 (ascii ['1', '_', '1', '_', 'w']) s.log =
      {ascii ['s']} ∧
    (historydataLookup s.state.tables.historyTable (ascii ['r']) 1
      (ascii ['1', '_', '1', '_', 'w'])).length ≠
        (senders historyArgs (ascii ['r']) 1 (ascii ['1', '_', '1', '_', 'w']) s.log).card) ∧
    (Server.initial.accepted longIds).isSome = true ∧
      Server.initial.step Strcmp.sign historyArgs longIds = none := by
  have hsome : (historyRun (fun _ _ ↦ True) [sentBy ['s', '_', '1'] ⟨1, ascii ['w']⟩,
      sentBy ['s'] ⟨1, ascii ['1', '_', 'w']⟩]).map (fun s ↦
        ((historydataLookup s.state.tables.historyTable (ascii ['r']) 1
          (ascii ['1', '_', '1', '_', 'w'])).length,
          senders historyArgs (ascii ['r']) 1 (ascii ['1', '_', '1', '_', 'w']) s.log)) =
      some (0, {ascii ['s']}) := by
    decide +kernel
  obtain ⟨s, hs, hvalues⟩ := Option.map_eq_some_iff.mp hsome
  obtain ⟨hlength, hsenders⟩ := Prod.mk.inj hvalues
  refine ⟨⟨s, hs, hsenders, ?_⟩, rfl, step_eq_none_of_long (by decide +kernel)⟩
  rw [hlength, hsenders]
  simp

end Runs

end Colas.Sodaw
