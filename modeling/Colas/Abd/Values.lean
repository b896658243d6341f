import Colas.Abd.Atomicity

/-!
# The value of a tag

A register is meant to keep for every tag the payload of the write that created it. `Written` says
so of one version, and `Valued` is the invariant that carries it from the writer to the servers, to
the readers and, in the write-back of a read, to other servers.

The last passage is broken. The write-back copies the bytes at the address of the frame object
(`DupFrame.writeBackPayload`), and a server that has not seen the write adopts them under its tag:
`corrupted_version` is a run in which it does. As long as the servers have seen the write before and
refuse the write-backs (`RefusesWriteBacks`), every stored version is written (`stored_written`).
What the invariant needs is less, that whatever they adopt from a read is the value that it returns
(`WritesBackValue`).
-/

set_option autoImplicit false
set_option relaxedAutoImplicit false

namespace Colas.Abd

open TransitionSystem Quorum

variable {n : ℕ}

/-- The version is the initial one, or the payload of a write of the object under the tag that it
created. -/
def Written (initData : Frame) (history : List Event) (object : CString) (version : Tag × Frame) :
    Prop :=
  version = (initTag, initData) ∨ ∃ clientId opNum,
    .writeInvoked clientId opNum object version.2 ∈ history ∧
      .writeTagged clientId opNum object version.1 version.2 ∈ history

/-- A server that adopts the write-back of a read receives the value that the read returns. -/
def WritesBackValue (strcmp : Strcmp) (initData : Frame) (s : State n) : Action n → Prop
  | .serve (i, name, frames) =>
    Adopts strcmp ((s.servers i).version initData) name.phase frames frames.tagValue →
      ∀ value, .readTagged name.client name.opnum frames.object frames.tagValue (some value) ∈
        s.history → frames.payload = value
  | _ => True

/-- The request belongs to a read, which has chosen what it writes back. -/
def WriteBack (history : List Event) (name : CallId Phase) : Prop :=
  ∃ object tag value, .readTagged name.client name.opnum object tag value ∈ history

/-- No server adopts the write-back of a read. -/
def RefusesWriteBacks (strcmp : Strcmp) (initData : Frame) (s : State n) : Action n → Prop
  | .serve (i, name, frames) => WriteBack s.history name →
    ¬ Adopts strcmp ((s.servers i).version initData) name.phase frames frames.tagValue
  | _ => True

theorem RefusesWriteBacks.writesBackValue {strcmp : Strcmp} {initData : Frame} {s : State n}
    {a : Action n} (h : RefusesWriteBacks strcmp initData s a) :
    WritesBackValue strcmp initData s a := by
  cases a with
  | serve request => exact fun hadopts value hmem ↦ absurd hadopts (h ⟨_, _, _, hmem⟩)
  | _ => trivial

/-- Whether the event is the choice of the read with this number. -/
def Event.chosenBy (name : CallId Phase) : Event → Bool
  | .readTagged clientId opNum _ _ _ => clientId = name.client && opNum = name.opnum
  | _ => false

theorem writeBack_iff (history : List Event) (name : CallId Phase) :
    history.any (Event.chosenBy name) = true ↔ WriteBack history name := by
  rw [List.any_eq_true]
  constructor
  · rintro ⟨e, hmem, hchosen⟩
    cases e with
    | readTagged clientId opNum object tag value =>
      obtain ⟨rfl, rfl⟩ : clientId = name.client ∧ opNum = name.opnum := by
        simpa [Event.chosenBy] using hchosen
      exact ⟨object, tag, value, hmem⟩
    | _ => cases hchosen
  · rintro ⟨object, tag, value, hmem⟩
    exact ⟨_, hmem, by simp [Event.chosenBy]⟩

instance (strcmp : Strcmp) (initData : Frame) (s : State n) (a : Action n) :
    Decidable (RefusesWriteBacks strcmp initData s a) :=
  match a with
  | .serve (_, name, _) =>
    haveI := decidable_of_iff _ (writeBack_iff s.history name)
    inferInstanceAs (Decidable (_ → ¬ Adopts _ _ _ _ _))
  | .invokeWrite _ _ _ _ => inferInstanceAs (Decidable True)
  | .invokeRead _ _ _ => inferInstanceAs (Decidable True)
  | .receive _ _ => inferInstanceAs (Decidable True)

/-- Whether the event is the choice of a read under this number and tag with another value. -/
def Event.disagrees (name : CallId Phase) (frames : Body) : Event → Bool
  | .readTagged clientId opNum object tag (some value) =>
    clientId = name.client && opNum = name.opnum && object = frames.object &&
      tag = frames.tagValue && frames.payload ≠ value
  | _ => false

theorem disagrees_iff (history : List Event) (name : CallId Phase) (frames : Body) :
    (∀ value, .readTagged name.client name.opnum frames.object frames.tagValue (some value) ∈
      history → frames.payload = value) ↔ history.any (Event.disagrees name frames) = false := by
  rw [List.any_eq_false]
  constructor
  · rintro h (_ | _ | _ | _ | ⟨clientId, opNum, object, tag, - | value⟩ | _) hmem <;>
      simp only [Event.disagrees, Bool.false_eq_true, not_false_eq_true]
    simp only [Bool.and_eq_true, decide_eq_true_eq, not_and]
    rintro ⟨⟨⟨rfl, rfl⟩, rfl⟩, rfl⟩
    simpa using h value hmem
  · intro h value hmem
    simpa [Event.disagrees] using h _ hmem

instance (strcmp : Strcmp) (initData : Frame) (s : State n) (a : Action n) :
    Decidable (WritesBackValue strcmp initData s a) :=
  match a with
  | .serve (_, name, frames) =>
    haveI := decidable_of_iff _ (disagrees_iff s.history name frames).symm
    inferInstanceAs (Decidable (Adopts _ _ _ _ _ → _))
  | .invokeWrite _ _ _ _ => inferInstanceAs (Decidable True)
  | .invokeRead _ _ _ => inferInstanceAs (Decidable True)
  | .receive _ _ => inferInstanceAs (Decidable True)

/-- What a client knows of the values. -/
def KnowsValues (initData : Frame) (calls : Calls (Fin n) (CallId Phase) Body Body)
    (history : List Event) (clientId : CString) : Client → Prop
  | .getMaxTag opNum object rawData _ _ =>
    .writeInvoked clientId opNum object rawData ∈ history
  | .getMaxTagValue opNum object _ tag data =>
    .readInvoked clientId opNum object ∈ history ∧
      (∀ i frames, (i, ⟨clientId, opNum, .getTagValue⟩, frames) ∈ calls.requests.sent →
        frames.object = object) ∧
      ∀ value, data = some value → Written initData history object (tag, value)
  | _ => True

/-- The request stores the payload of a write, or it is the write-back of a read. -/
def StoresValue (history : List Event) (name : CallId Phase) (frames : Body) : Prop :=
  (.writeInvoked name.client name.opnum frames.object frames.payload ∈ history ∧
      .writeTagged name.client name.opnum frames.object frames.tagValue frames.payload ∈ history) ∨
    ∃ value, .readTagged name.client name.opnum frames.object frames.tagValue (some value) ∈ history

/-- The invariant about values. -/
structure Valued (initData : Frame) (s : State n) : Prop where
  /-- A name is used by the operation that it names. -/
  issued : ∀ {name}, s.calls.Issued name → Invoked s.history name.client name.opnum
  /-- The servers store written versions. -/
  stored : ∀ i object, Written initData s.history object ((s.servers i).version initData object)
  /-- The requests to store come from writes and reads. -/
  requested : ∀ {i name frames}, (i, name, frames) ∈ s.calls.requests.sent →
    name.phase = .writeValue → StoresValue s.history name frames
  /-- The servers answer reads with written versions. -/
  answered : ∀ {i name frames}, (i, name, frames) ∈ s.calls.answers.sent →
    name.phase = .getTagValue →
      Written initData s.history frames.object (frames.tagValue, frames.payload)
  /-- The reads choose written versions. -/
  read : ∀ {clientId opNum object tag value},
    .readTagged clientId opNum object tag (some value) ∈ s.history →
      Written initData s.history object (tag, value)
  /-- The clients hold written versions. -/
  clients : ∀ clientId, KnowsValues initData s.calls s.history clientId (s.clients clientId)

theorem Written.mono {initData : Frame} {history history' : List Event} {object : CString}
    {version : Tag × Frame} (h : Written initData history object version)
    (hsub : history ⊆ history') : Written initData history' object version :=
  h.imp_right fun ⟨clientId, opNum, hinvoked, htagged⟩ ↦
    ⟨clientId, opNum, hsub hinvoked, hsub htagged⟩

theorem StoresValue.mono {history history' : List Event} {name : CallId Phase} {frames : Body}
    (h : StoresValue history name frames) (hsub : history ⊆ history') :
    StoresValue history' name frames :=
  h.imp (fun hwrite ↦ ⟨hsub hwrite.1, hsub hwrite.2⟩) fun ⟨value, hread⟩ ↦ ⟨value, hsub hread⟩

/-- What a client knows depends on its own requests and on the past. -/
theorem KnowsValues.frame {initData : Frame}
    {calls calls' : Calls (Fin n) (CallId Phase) Body Body} {history history' : List Event}
    {clientId : CString} {client : Client}
    (h : KnowsValues initData calls history clientId client)
    (hrequests : ∀ {i opNum phase frames},
      (i, ⟨clientId, opNum, phase⟩, frames) ∈ calls'.requests.sent →
        (i, ⟨clientId, opNum, phase⟩, frames) ∈ calls.requests.sent)
    (hsub : history ⊆ history') : KnowsValues initData calls' history' clientId client := by
  cases client with
  | getMaxTag => exact hsub h
  | getMaxTagValue =>
    obtain ⟨hinvoked, habout, hvalue⟩ := h
    exact ⟨hsub hinvoked, fun i frames hmem ↦ habout i frames (hrequests hmem),
      fun value hdata ↦ (hvalue value hdata).mono hsub⟩
  | _ => trivial

section Steps

variable {strcmp : Strcmp} {initData : Frame} {s t : State n}

theorem valued_initial : Valued initData (State.initial : State n) where
  issued := fun ⟨_, _, hmem⟩ ↦ absurd hmem List.not_mem_nil
  stored := fun i object ↦ Or.inl (by
    simp [State.initial, Server.version, Server.initial, contents])
  requested := fun hmem ↦ absurd hmem List.not_mem_nil
  answered := fun hmem ↦ absurd hmem List.not_mem_nil
  read := fun hmem ↦ absurd hmem List.not_mem_nil
  clients := fun _ ↦ trivial

/-- Handling a request that satisfies the condition keeps the values. -/
theorem Valued.serverStep (hshape : Shape initData s) (h : Valued initData s) {a : Action n}
    (hback : WritesBackValue strcmp initData s a) (hstep : ServerStep strcmp initData s a t) :
    Valued initData t := by
  obtain ⟨i, name, frames, server, rfl, hsent, rfl, -, hversion⟩ := hstep.eq hshape
  -- an adopted version is the payload of a write, or by the condition the value of a read
  have hadopted : ∀ object, Written initData s.history object (server.version initData object) := by
    intro object
    rw [hversion]
    split_ifs with hadopts
    · by_cases hobject : object = frames.object
      · subst hobject
        rw [Function.update_self]
        rcases h.requested hsent hadopts.1 with hwrite | ⟨value, hread⟩
        · exact Or.inr ⟨name.client, name.opnum, hwrite⟩
        · rw [hback hadopts value hread]
          exact h.read hread
      · rw [Function.update_of_ne hobject]
        exact h.stored i object
    · exact h.stored i object
  refine
    { issued := h.issued
      stored := fun j object ↦ ?_
      requested := h.requested
      answered := fun {j other body} hmem hphase ↦ ?_
      read := h.read
      clients := fun clientId ↦ (h.clients clientId).frame id fun _ he ↦ he }
  · rw [version_handle]
    split_ifs
    · exact hadopted object
    · exact h.stored j object
  · rcases List.mem_cons.mp hmem with heq | hold
    · obtain ⟨rfl, rfl, rfl⟩ := by simpa using heq
      have hreply : response ((s.servers j).version initData) other.phase frames =
          ⟨frames.object, tagToString ((s.servers j).version initData frames.object).1,
            ((s.servers j).version initData frames.object).2⟩ := by rw [hphase]; rfl
      rw [hreply, Body.tagValue_tagToString]
      exact h.stored j frames.object
    · exact h.answered hold hphase

/-- A turn keeps the values if its multicast, its event and its client do. -/
theorem Valued.takeTurn (h : Valued initData s) {clientId : CString} {turn : Turn n Client Phase}
    (hmulticast : ∀ name content, turn.multicast = some (name, content) →
      name.client = clientId ∧ Invoked (turn.event.toList ++ s.history) clientId name.opnum ∧
        (name.phase = .writeValue →
          ∀ i, StoresValue (turn.event.toList ++ s.history) name (content i)))
    (hevent : ∀ {other opNum object tag value},
      turn.event = some (.readTagged other opNum object tag (some value)) →
        Written initData s.history object (tag, value))
    (hclient : KnowsValues initData (turn.sendOn s.calls) (turn.event.toList ++ s.history) clientId
      turn.client) : Valued initData (s.takeTurn clientId turn) where
  issued := fun {name} hname ↦ by
    rcases turn.issued_sendOn s.calls hname with ⟨content, hcall⟩ | hold
    · obtain ⟨hclientId, hinvoked, -⟩ := hmulticast name content hcall
      rwa [history_takeTurn, hclientId]
    · exact (h.issued hold).mono (List.subset_append_right _ _)
  stored := fun i object ↦ (h.stored i object).mono (List.subset_append_right _ _)
  requested := fun {i name frames} hmem hphase ↦ by
    rcases (turn.mem_requests_sendOn s.calls).mp hmem with ⟨content, hcall, rfl⟩ | hold
    · exact (hmulticast name content hcall).2.2 hphase i
    · exact (h.requested hold hphase).mono (List.subset_append_right _ _)
  answered := fun {i name frames} hmem hphase ↦ by
    rw [calls_takeTurn, Turn.answers_sendOn] at hmem
    exact (h.answered hmem hphase).mono (List.subset_append_right _ _)
  read := fun {other opNum object tag value} hmem ↦ by
    refine Written.mono ?_ (List.subset_append_right _ _)
    rcases List.mem_append.mp hmem with hnew | hold
    · exact hevent (Option.mem_toList.mp hnew)
    · exact h.read hold
  clients := by
    refine (Function.forall_update_iff s.clients
      (KnowsValues initData (turn.sendOn s.calls) (turn.event.toList ++ s.history))).mpr
      ⟨hclient, fun other hother ↦ ?_⟩
    refine (h.clients other).frame ?_ (List.subset_append_right _ _)
    intro i opNum phase frames hmem
    rcases (turn.mem_requests_sendOn s.calls).mp hmem with ⟨content, hcall, -⟩ | hold
    · exact absurd (hmulticast _ content hcall).1 hother
    · exact hold

/-- The maximum of a reader after a response is again a written version of its object. -/
theorem Valued.written_updateMaxTagValue (hshape : Shape initData s) (h : Valued initData s)
    {i : Fin n} {clientId : CString} {opNum : ℕ} {frames : Body}
    (hsent : (i, ⟨clientId, opNum, .getTagValue⟩, frames) ∈ s.calls.answers.sent)
    {object : CString} {tag : Tag} {data : Option Frame}
    (habout : ∀ i frames, (i, ⟨clientId, opNum, .getTagValue⟩, frames) ∈ s.calls.requests.sent →
      frames.object = object)
    (hvalue : ∀ value, data = some value → Written initData s.history object (tag, value))
    (value : Frame)
    (hdata : (updateMaxTagValue strcmp tag data frames.tagValue frames.payload).2 = some value) :
    Written initData s.history object
      ((updateMaxTagValue strcmp tag data frames.tagValue frames.payload).1, value) := by
  rcases updateMaxTagValue_eq_or strcmp tag data frames.tagValue frames.payload with
    heq | heq <;> rw [heq] at hdata ⊢
  · exact hvalue value hdata
  · obtain ⟨-, request, hrequest, hobject, -⟩ := hshape.answered hsent
    obtain rfl := Option.some.inj hdata
    rw [← habout i request hrequest, ← hobject]
    exact h.answered hsent rfl

/-- The turn of a client on a response keeps the values. -/
theorem Valued.receive (hshape : Shape initData s) (h : Valued initData s) {i : Fin n}
    {clientId : CString} {opNum : ℕ} {phase : Phase} {frames : Body}
    {heap : Heap} {turn : Turn n Client Phase}
    (hsent : (i, ⟨clientId, opNum, phase⟩, frames) ∈ s.calls.answers.sent)
    (hturn : Receives strcmp clientId heap opNum frames phase (s.clients clientId) turn) :
    Valued initData (State.takeTurn
      { s with calls := s.calls.collect (i, ⟨clientId, opNum, phase⟩, frames) } clientId turn) := by
  have hcollected : Valued initData
      { s with calls := s.calls.collect (i, ⟨clientId, opNum, phase⟩, frames) } :=
    { h with clients := fun other ↦ (h.clients other).frame id fun _ he ↦ he }
  have hown := h.clients clientId
  have hsame : ∀ {history}, s.history ⊆ history →
      KnowsValues initData (s.calls.collect (i, ⟨clientId, opNum, phase⟩, frames)) history
        clientId (s.clients clientId) := fun hsub ↦ hown.frame id hsub
  generalize s.clients clientId = client at hturn hown hsame
  cases hturn with
  | stale =>
    exact hcollected.takeTurn (by rintro name content ⟨⟩)
      (by rintro other opNum' object' tag value ⟨⟩) (hsame fun _ he ↦ he)
  | ended =>
    exact hcollected.takeTurn (by rintro name content ⟨⟩)
      (by rintro other opNum' object' tag value ⟨⟩) trivial
  | countTag =>
    exact hcollected.takeTurn (by rintro name content ⟨⟩)
      (by rintro other opNum' object' tag value ⟨⟩) hown
  | @chooseTag object rawData responses tagList hmany =>
    refine hcollected.takeTurn ?_ (by rintro other opNum' object' tag value ⟨⟩) trivial
    rintro name content ⟨⟩
    refine ⟨rfl, Or.inl ⟨object, rawData, List.mem_cons_of_mem _ hown⟩, fun _ j ↦ Or.inl
      ⟨List.mem_cons_of_mem _ hown, ?_⟩⟩
    rw [Body.tagValue_tagToString]
    exact List.mem_cons_self
  | countValue =>
    obtain ⟨hinvoked, habout, hvalue⟩ := hown
    exact hcollected.takeTurn (by rintro name content ⟨⟩)
      (by rintro other opNum' object' tag value ⟨⟩)
      ⟨hinvoked, habout, h.written_updateMaxTagValue hshape hsent habout hvalue⟩
  | @chooseValue object responses tag data value hmany hdata =>
    obtain ⟨hinvoked, habout, hvalue⟩ := hown
    refine hcollected.takeTurn ?_ ?_ trivial
    · rintro name content ⟨⟩
      refine ⟨rfl, Or.inr ⟨object, List.mem_cons_of_mem _ hinvoked⟩, fun _ j ↦ Or.inr
        ⟨value, ?_⟩⟩
      rw [Body.tagValue_tagToString]
      exact List.mem_cons_self
    · rintro other opNum' object' tag' value' heq
      obtain ⟨-, -, rfl, rfl, hchosen⟩ := Event.readTagged.inj (Option.some.inj heq)
      obtain rfl := Option.some.inj hchosen
      exact h.written_updateMaxTagValue hshape hsent habout hvalue _ hdata
  | countAck =>
    exact hcollected.takeTurn (by rintro name content ⟨⟩)
      (by rintro other opNum' object' tag value ⟨⟩) trivial
  | @complete object tag operation =>
    refine hcollected.takeTurn (by rintro name content ⟨⟩) ?_ trivial
    rintro other opNum' object' tag' value heq
    cases operation <;> simp [finish, Operation.completed] at heq

/-- A step of a client under a new number keeps the values. -/
theorem Valued.clientStep (hshape : Shape initData s) (h : Valued initData s) {a : Action n}
    (hfresh : FreshNumbers s a) (hstep : ClientStep strcmp s a t) : Valued initData t := by
  cases hstep with
  | write clientId opNum object payload hidle =>
    refine h.takeTurn ?_ (by rintro other opNum' object' tag value ⟨⟩) List.mem_cons_self
    rintro name content ⟨⟩
    exact ⟨rfl, Or.inl ⟨object, payload, List.mem_cons_self⟩, Phase.noConfusion⟩
  | read clientId opNum object hidle =>
    refine h.takeTurn ?_ (by rintro other opNum' object' tag value ⟨⟩)
      ⟨List.mem_cons_self, fun i frames hmem ↦ ?_, by rintro value ⟨⟩⟩
    · rintro name content ⟨⟩
      exact ⟨rfl, Or.inr ⟨object, List.mem_cons_self⟩, Phase.noConfusion⟩
    · rcases ((abdRead clientId opNum object).mem_requests_sendOn s.calls).mp hmem with
        ⟨content, ⟨⟩, rfl⟩ | hold
      · rfl
      · exact absurd (h.issued ⟨i, frames, hold⟩) hfresh
  | receive i name frames heap turn hsent hturn => exact h.receive hshape hsent hturn

/-- In every run in which the servers adopt from a read only the value that the read returns, the
values are kept. -/
theorem Valued.of_run (run : Run (step strcmp initData)
      (fun s a ↦ FreshNumbers s a ∧ WritesBackValue strcmp initData s a) State.initial s) :
    Valued initData s :=
  run.invariant_reach valued_initial fun _ _ _ hrun h hguard hstep ↦
    (step_cases hstep).elim (h.clientStep (Shape.of_run hrun) hguard.1)
      (h.serverStep (Shape.of_run hrun) hguard.2)

/-- A write has a positive version number. -/
theorem one_le_number_of_writeTagged (hshape : Shape initData s) (hcounting : Counting s)
    {clientId : CString} {opNum : ℕ} {object : CString} {tag : Tag} {payload : Frame}
    (hmem : .writeTagged clientId opNum object tag payload ∈ s.history) : 1 ≤ tag.number := by
  obtain ⟨members, hmajority, hreported⟩ := hcounting.events _ hmem
  obtain ⟨i, hi⟩ := hmajority.nonempty
  obtain ⟨frames, hanswer, -, hz⟩ := hreported i hi
  have hnonneg := (hshape.answered hanswer).1
  omega

/-- In every run in which no server adopts the write-back of a read, the version that a server
stores of an object is the initial one or the payload of a write under the tag that the write
created; and if no message is delivered twice, there is no other write of the object with the
tag. -/
theorem stored_written (run : Run (step strcmp initData)
      (fun s a ↦ FreshNumbers s a ∧ RefusesWriteBacks strcmp initData s a) State.initial s)
    (object : CString) (i : Fin n) :
    Written initData s.history object ((s.servers i).version initData object) ∧
      (Run (step strcmp initData) Guard State.initial s → ∀ clientId opNum payload,
        .writeTagged clientId opNum object ((s.servers i).version initData object).1 payload ∈
          s.history → payload = ((s.servers i).version initData object).2) := by
  have hwritten :=
    (Valued.of_run (run.weaken fun _ _ h ↦ ⟨h.1, h.2.writesBackValue⟩)).stored i object
  refine ⟨hwritten, fun hguarded clientId opNum payload hmem ↦ ?_⟩
  rcases hwritten with hinit | ⟨clientId', opNum', -, htagged⟩
  · rw [hinit] at hmem
    have hz := one_le_number_of_writeTagged (Shape.of_run run) (Counting.of_run hguarded) hmem
    exact absurd hz (show ¬ 1 ≤ initTag.number by decide)
  · exact (tagsUnique hguarded _ _ _ _ _ _ _ _ hmem htagged).2.2

/-- A write that has reached only the first of two servers, and a read whose write-back reaches the
second. -/
def lagSchedule (initData payload : Frame) : List (Action 2) :=
  let object := ascii ['o']
  let writer := ascii ['w']
  let reader := ascii ['r']
  let tag : Tag := ⟨1, writer⟩
  [ .invokeWrite writer 1 object payload,
    .serve (0, ⟨writer, 1, .getTag⟩, ⟨object, [], []⟩),
    .serve (1, ⟨writer, 1, .getTag⟩, ⟨object, [], []⟩),
    .receive (0, ⟨writer, 1, .getTag⟩, ⟨object, tagToString initTag, []⟩) .adjacent,
    .receive (1, ⟨writer, 1, .getTag⟩, ⟨object, tagToString initTag, []⟩) .adjacent,
    .serve (0, ⟨writer, 1, .writeValue⟩, ⟨object, tagToString tag, payload⟩),
    .invokeRead reader 1 object,
    .serve (0, ⟨reader, 1, .getTagValue⟩, ⟨object, [], []⟩),
    .serve (1, ⟨reader, 1, .getTagValue⟩, ⟨object, [], []⟩),
    .receive (0, ⟨reader, 1, .getTagValue⟩, ⟨object, tagToString tag, payload⟩) .adjacent,
    .receive (1, ⟨reader, 1, .getTagValue⟩, ⟨object, tagToString initTag, initData⟩) .adjacent,
    .serve (1, ⟨reader, 1, .writeValue⟩,
      ⟨object, tagToString tag, (DupFrame.adjacent payload).writeBackPayload⟩) ]

/-- The history of `lagSchedule`. -/
def lagHistory (payload : Frame) : List Event :=
  let object := ascii ['o']
  let writer := ascii ['w']
  let reader := ascii ['r']
  [ .readTagged reader 1 object ⟨1, writer⟩ (some payload),
    .readInvoked reader 1 object,
    .writeTagged writer 1 object ⟨1, writer⟩ payload,
    .writeInvoked writer 1 object payload ]

/-- The second server stores, under the tag of the write, a payload that starts with the bytes of a
frame object and that nobody has written. -/
theorem corrupted_version : ∃ s : State 2,
    Run (step Strcmp.difference (hundredBytes 0)) Guard State.initial s ∧ ∃ i object,
      ((s.servers i).version (hundredBytes 0) object).2.take 4 = [254, 202, 2, 0] ∧
        ¬ Written (hundredBytes 0) s.history object
          ((s.servers i).version (hundredBytes 0) object) := by
  have hview : (execute (step Strcmp.difference (hundredBytes 0)) Guard State.initial
      (lagSchedule (hundredBytes 0) (hundredBytes 1))).map
        (fun s ↦ (s.history, (s.servers 1).version (hundredBytes 0) (ascii ['o']))) =
      some (lagHistory (hundredBytes 1),
        (⟨1, ascii ['w']⟩, (DupFrame.adjacent (hundredBytes 1)).writeBackPayload)) := by
    decide +kernel
  obtain ⟨s, hexecute, hs⟩ := Option.map_eq_some_iff.mp hview
  obtain ⟨hhistory, hversion⟩ := Prod.mk.inj hs
  refine ⟨s, run_of_execute hexecute, 1, ascii ['o'], ?_, ?_⟩ <;> rw [hversion]
  · decide +kernel
  · rintro (hinit | ⟨clientId, opNum, -, hmem⟩)
    · exact absurd (congrArg (fun v ↦ v.1.number) hinit) (by decide)
    · rw [hhistory] at hmem
      have hpayload : (DupFrame.adjacent (hundredBytes 1)).writeBackPayload = hundredBytes 1 := by
        exact (by simpa [lagHistory] using hmem : _ ∧ _ ∧ _).2.2
      exact absurd hpayload (by decide +kernel)

/-- In the race the first two servers have the write that the read returns, and refuse its
write-back. -/
theorem stored_written_race : ∃ s : State 3,
    s.history = raceHistory (hundredBytes 1) (hundredBytes 3) ⟨1, ascii ['w', '3']⟩
      (hundredBytes 3) ∧
    ∀ i, Written (hundredBytes 0) s.history (ascii ['o'])
      ((s.servers i).version (hundredBytes 0) (ascii ['o'])) := by
  have hhistory : (execute (step Strcmp.sign (hundredBytes 0))
      (fun s a ↦ FreshNumbers s a ∧ RefusesWriteBacks Strcmp.sign (hundredBytes 0) s a)
      State.initial (raceSchedule 0 1 2 (hundredBytes 0) (hundredBytes 1) (hundredBytes 3)
        ⟨1, ascii ['w', '3']⟩ (hundredBytes 3))).map State.history =
      some (raceHistory (hundredBytes 1) (hundredBytes 3) ⟨1, ascii ['w', '3']⟩
        (hundredBytes 3)) := by
    decide +kernel
  obtain ⟨s, hexecute, hs⟩ := Option.map_eq_some_iff.mp hhistory
  exact ⟨s, hs, fun i ↦ (stored_written (run_of_execute hexecute) (ascii ['o']) i).1⟩

end Steps

end Colas.Abd
