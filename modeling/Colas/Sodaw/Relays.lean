import Colas.Sodaw.Tables

/-!
# Whom a write is relayed to

On a `WRITE_PUT`, a server first compares the tag of the request with the stored one. Only if it is
greater, the server goes through the reading table: it sends the element to each registered reader
that has asked for a tag which is not greater, and tells all servers so. A write that comes after a
greater one is acknowledged, and nothing of it is relayed, also if the server has never seen it and
a registered reader would take it.

The reading table does not say which object a reader has registered for. It is read off the log of
a run: `lastRegistration` is the `READ_VALUE` that has registered a reader last, and every
registered reader has one (`exists_registration`). `relays_or_acknowledges` is about the readers of
the written object. They stand in the reading table under their ids, so that each is sent one
element.
-/

set_option autoImplicit false
set_option relaxedAutoImplicit false

namespace Colas.Sodaw

open TransitionSystem

/-- The reader is sent one element, the one of the write for the operation that it is registered
for, and the servers are told so once. -/
structure Output.RelaysTo (output : Output) (args : ServerArgs) (request : Body) (tagW : Tag)
    (reader : RegReader) : Prop where
  /-- The elements for the reader. -/
  elements : output.elements.filter (fun element ↦ element.1.client = reader.readerId) =
    [codedElement reader.readerId reader.opnum request.object tagW request.payload]
  /-- The notices about the reader. -/
  disperses : output.disperses.filter (fun notice ↦ notice.readerid = reader.readerId) =
    [⟨args.serverId, request.object, request.tag, reader.readerId, tagToString reader.tr,
      reader.opnum⟩]

/-- The number and the object with which the message registers the reader, if it does. -/
def Server.registration (server : Server) (readerid : CString) : Message → Option (ℕ × CString)
  | .request name frames =>
    if name.phase = .readValue ∧ name.client = readerid ∧
        ¬ server.tables.isStale name.client name.opnum then
      some (name.opnum, frames.object)
    else none
  | .disperse _ | .other _ => none

/-- The number and the object with which the reader has registered last. -/
def lastRegistration (readerid : CString) : List (Server × Message) → Option (ℕ × CString)
  | [] => none
  | (server, message) :: earlier =>
    (server.registration readerid message).or (lastRegistration readerid earlier)

section Relays

variable {strcmp : Strcmp} {args : ServerArgs} {server server' : Server} {tables : Tables}
  {name : CallId Phase} {request : Body} {output : Output} {tagW : Tag} {key : CString}
  {reader : RegReader} {message : Message} {s : Logged Server Message}

/-! ### What readers have registered for -/

/-- A reader that is registered after a message registers with it, or was registered before and does
not register. -/
theorem Handled.reading (h : Handled strcmp args server message server' output)
    (hkeyed : server.tables.Keyed)
    (hreader : server'.tables.readingTable.lookup key = some reader) :
    (∃ object, server.registration reader.readerId message = some (reader.opnum, object)) ∨
      server.registration reader.readerId message = none ∧
        server.tables.readingTable.lookup key = some reader := by
  cases h with
  | register name request tagR output hphase hfresh =>
    rw [reading_register] at hreader
    split_ifs at hreader with hkey
    · obtain rfl := Option.some.inj hreader
      exact Or.inl ⟨request.object, if_pos ⟨hphase, rfl, hfresh⟩⟩
    · have hother : name.client ≠ reader.readerId := by
        rw [hkeyed key reader hreader]
        exact Ne.symm hkey
      exact Or.inr ⟨if_neg fun hnew ↦ hother hnew.2.1, hreader⟩
  | complete name request tagR hphase =>
    rw [reading_moveToReaded] at hreader
    split_ifs at hreader
    exact Or.inr ⟨if_neg fun hnew ↦ by simp [hphase] at hnew, hreader⟩
  | ignore name request hphase hstale =>
    exact Or.inr ⟨if_neg fun hnew ↦ hnew.2.2 hstale, hreader⟩
  | report name request tag hphase =>
    refine Or.inr ⟨if_neg fun hnew ↦ ?_, hreader⟩
    rcases hphase with hget | hget <;> simp [hget] at hnew
  | adopt name request tagW tag objects key hphase =>
    exact Or.inr ⟨if_neg fun hnew ↦ by simp [hphase] at hnew, hreader⟩
  | refuse name request tagW tag hphase =>
    exact Or.inr ⟨if_neg fun hnew ↦ by simp [hphase] at hnew, hreader⟩
  | move notice readTag =>
    rw [reading_moveToReaded] at hreader
    split_ifs at hreader
    exact Or.inr ⟨rfl, hreader⟩
  | ignoreNotice notice hstale => exact Or.inr ⟨rfl, hreader⟩
  | record notice => exact Or.inr ⟨rfl, hreader⟩
  | other object => exact Or.inr ⟨rfl, hreader⟩

theorem keyed_of_log
    (run : Run (Logged.next (Server.step strcmp args)) (fun _ _ ↦ True)
      (Logged.start Server.initial) s) : s.state.tables.Keyed :=
  keyed_of_run (@Logged.run_state _ _ (Server.step strcmp args) (fun _ _ ↦ True) _ _ run)

/-- Every registered reader has registered last for the operation with which it stands in the
table. -/
theorem exists_registration
    (run : Run (Logged.next (Server.step strcmp args)) (fun _ _ ↦ True)
      (Logged.start Server.initial) s)
    (hreader : s.state.tables.readingTable.lookup key = some reader) :
    ∃ object, lastRegistration reader.readerId s.log = some (reader.opnum, object) := by
  refine run.invariant_reach (P := fun s ↦ ∀ key reader,
    s.state.tables.readingTable.lookup key = some reader →
      ∃ object, lastRegistration reader.readerId s.log = some (reader.opnum, object))
    (fun key reader h ↦ by simp [Logged.start, Server.initial] at h)
    (fun s message t hprevious ih _ hstep key reader hreader ↦ ?_) key reader hreader
  obtain ⟨server, hserver, rfl⟩ := Option.map_eq_some_iff.mp hstep
  obtain ⟨⟨after, output⟩, hhandle, rfl⟩ := Option.map_eq_some_iff.mp hserver
  have hhandled := handled_of_handle hhandle
  obtain ⟨object, hnew⟩ | ⟨hnone, hold⟩ := hhandled.reading (keyed_of_log hprevious) hreader
  · refine ⟨object, ?_⟩
    rw [lastRegistration, show s.state.registration reader.readerId message = _ from hnew]
    rfl
  · obtain ⟨object, hobject⟩ := ih key reader hold
    refine ⟨object, ?_⟩
    rw [lastRegistration, show s.state.registration reader.readerId message = _ from hnone,
      Option.none_or, hobject]

/-! ### Relaying -/

/-- In a list without duplicates of a value, the elements with the value of one of them. -/
theorem filter_eq_singleton {α β : Type} [DecidableEq β] {f : α → β} {l : List α} {x : α}
    (hnodup : (l.map f).Nodup) (hx : x ∈ l) : l.filter (fun y ↦ f y = f x) = [x] := by
  induction l with
  | nil => cases hx
  | cons y l ih =>
    obtain ⟨hnew, hrest⟩ := List.nodup_cons.mp hnodup
    rcases List.mem_cons.mp hx with rfl | hmem
    · rw [List.filter_cons_of_pos (by simp), List.filter_eq_nil_iff.mpr]
      intro z hz heq
      exact hnew (List.mem_map.mpr ⟨z, hz, of_decide_eq_true heq⟩)
    · have hne : f y ≠ f x := fun heq ↦ hnew (heq ▸ List.mem_map_of_mem hmem)
      rw [List.filter_cons_of_neg (by simpa using hne), ih hrest hmem]

/-- A write that is adopted is relayed to a registered reader that has asked for a tag which is not
greater. -/
theorem relayed_relaysTo (hkeyed : tables.Keyed)
    (hreader : tables.readingTable.lookup key = some reader) (hle : reader.tr ≤ tagW) :
    (relayed strcmp args tables request tagW).RelaysTo args request tagW reader := by
  have htarget : reader ∈ tables.relayTargets strcmp tagW :=
    mem_relayTargets.mpr ⟨⟨key, hreader⟩, hle⟩
  have hone := filter_eq_singleton (nodup_relayTargets strcmp tagW hkeyed) htarget
  constructor
  · rw [relayed, List.filter_map]
    exact congrArg _ hone
  · rw [relayed, List.filter_map]
    exact congrArg _ hone

/-- In every state that a server reaches, a `WRITE_PUT` whose tag is greater than the stored one is
relayed once to each reader that is registered for its object and has asked for a tag which is not
greater. Any other `WRITE_PUT` is acknowledged and relayed to nobody. -/
theorem relays_or_acknowledges
    (run : Run (Logged.next (Server.step strcmp args)) (fun _ _ ↦ True)
      (Logged.start Server.initial) s)
    (hphase : name.phase = .writePut) (htagW : stringToTag request.tag = some tagW)
    (h : s.state.handle strcmp args (.request name request) = some (server', output)) :
    ∃ stored, getObjectTag (s.state.create args request.object).objects request.object =
        some stored ∧
      (stored < tagW → ∀ key reader, s.state.tables.readingTable.lookup key = some reader →
        lastRegistration reader.readerId s.log = some (reader.opnum, request.object) →
          reader.tr ≤ tagW → output.RelaysTo args request tagW reader) ∧
      (tagW ≤ stored → output = .reply ⟨request.object, request.tag, []⟩) := by
  have hkeyed := keyed_of_log run
  have hhandled := handled_of_handle h
  cases hhandled with
  | adopt name request parsed stored objects key _ hparsed hstored hadopts =>
    obtain rfl : parsed = tagW := Option.some.inj (hparsed.symm.trans htagW)
    rw [compareTags_pos_iff] at hadopts
    exact ⟨stored, hstored, fun _ key reader hreader _ hle ↦ relayed_relaysTo hkeyed hreader hle,
      fun hle ↦ absurd hadopts (not_lt.mpr hle)⟩
  | refuse name request parsed stored _ hparsed hstored hrefuses =>
    obtain rfl : parsed = tagW := Option.some.inj (hparsed.symm.trans htagW)
    rw [compareTags_pos_iff] at hrefuses
    exact ⟨stored, hstored, fun hlt ↦ absurd hlt hrefuses, fun _ ↦ rfl⟩
  | report name request tag hother =>
    rw [hphase] at hother
    exact absurd hother (by simp)
  | ignore name request hother =>
    rw [hphase] at hother
    exact absurd hother (by simp)
  | register name request tagR output hother =>
    rw [hphase] at hother
    cases hother
  | complete name request tagR hother =>
    rw [hphase] at hother
    cases hother

end Relays

/-- A `WRITE_PUT` of the writer `w`. -/
def writePut (z : Int32) (payload : Frame) : CallId Phase × Body :=
  (⟨ascii ['w'], 1, .writePut⟩, ⟨ascii ['o'], tagToString ⟨z, ascii ['w']⟩, payload⟩)

/-- A reader registers, and then come these writes. -/
def registering (writes : List (CallId Phase × Body)) : List Message :=
  .request ⟨ascii ['r'], 1, .readValue⟩ ⟨ascii ['o'], tagToString initTag, []⟩ ::
    writes.map fun write ↦ .request write.1 write.2

/-- A server with which a reader has registered, after these writes. -/
def registeredServer (writes : List (CallId Phase × Body)) : Server :=
  Server.initial.after Strcmp.sign sampleArgs (registering writes)

/-- A server with its log after these messages. -/
def loggedServer (messages : List Message) : Option (Logged Server Message) :=
  execute (Logged.next (Server.step Strcmp.sign sampleArgs)) (fun _ _ ↦ True)
    (Logged.start Server.initial) messages

/-- A write after another one is relayed to the reader. -/
theorem relays_later_write : ∃ s server' output,
    loggedServer (registering [writePut 1 [1]]) = some s ∧
      s.state.handle Strcmp.sign sampleArgs (.request (writePut 2 [2]).1 (writePut 2 [2]).2) =
        some (server', output) ∧
      output.RelaysTo sampleArgs (writePut 2 [2]).2 ⟨2, ascii ['w']⟩
        ⟨initTag, 1, ascii ['r']⟩ := by
  have hview : (loggedServer (registering [writePut 1 [1]])).map (fun s ↦ decide
      ((s.state.handle Strcmp.sign sampleArgs
          (.request (writePut 2 [2]).1 (writePut 2 [2]).2)).isSome = true ∧
        getObjectTag (s.state.create sampleArgs (ascii ['o'])).objects (ascii ['o']) =
          some ⟨1, ascii ['w']⟩ ∧
        s.state.tables.readingTable.lookup (ascii ['r']) = some ⟨initTag, 1, ascii ['r']⟩ ∧
        lastRegistration (ascii ['r']) s.log = some (1, ascii ['o']))) = some true := by
    decide +kernel
  obtain ⟨s, hs, hvalues⟩ := Option.map_eq_some_iff.mp hview
  obtain ⟨hsome, hone, hreader, hobject⟩ := of_decide_eq_true hvalues
  obtain ⟨⟨server', output⟩, h⟩ := Option.isSome_iff_exists.mp hsome
  refine ⟨s, server', output, hs, h, ?_⟩
  obtain ⟨stored, hstored, hrelays, -⟩ := relays_or_acknowledges (run_of_execute hs) rfl
    (stringToTag_tagToString ⟨2, ascii ['w']⟩) h
  obtain rfl := Option.some.inj (hstored.symm.trans hone)
  exact hrelays ((Tag.lt_iff _ _).mpr (Or.inl (by decide))) _ _ hreader hobject
    (le_of_lt ((Tag.lt_iff _ _).mpr (Or.inl (by decide))))

/-- The first version of the writer comes after its second one: the server has not seen it and has a
reader that asks for the initial tag, and sends nothing to the reader. -/
theorem not_relays_earlier_write :
    Server.Reaches Strcmp.sign sampleArgs Server.initial (registeredServer [writePut 2 [2]]) ∧
      (registeredServer [writePut 2 [2]]).tables.readingTable.lookup (ascii ['r']) =
        some ⟨initTag, 1, ascii ['r']⟩ ∧ initTag ≤ ⟨1, ascii ['w']⟩ ∧
      ∃ server' output, (registeredServer [writePut 2 [2]]).handle Strcmp.sign sampleArgs
          (.request (writePut 1 [1]).1 (writePut 1 [1]).2) = some (server', output) ∧
        output.elements = [] ∧ output.disperses = [] := by
  refine ⟨Server.reaches_after (by decide +kernel), by decide +kernel,
    le_of_lt ((Tag.lt_iff _ _).mpr (Or.inl (by decide))), ?_⟩
  have hsome : ((registeredServer [writePut 2 [2]]).handle Strcmp.sign sampleArgs
      (.request (writePut 1 [1]).1 (writePut 1 [1]).2)).map (fun result ↦
        (result.2.elements, result.2.disperses)) = some ([], []) := by
    decide +kernel
  obtain ⟨⟨server', output⟩, h, hvalues⟩ := Option.map_eq_some_iff.mp hsome
  obtain ⟨helements, hdisperses⟩ := Prod.mk.inj hvalues
  exact ⟨server', output, h, helements, hdisperses⟩

end Colas.Sodaw
