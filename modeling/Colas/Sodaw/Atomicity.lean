import Colas.BaseProcess.Writers
import Colas.Sodaw.Quorums
import Colas.Sodaw.Readers

/-!
# Atomicity of the SODAW register

A finished operation has left its tag at a majority: a write because a majority has acknowledged it,
and a server has stored what it acknowledges or more; a read because a majority has sent elements
with the tag, and a server sends only what it stores. A read that starts later has not asked for
elements yet, and every element that such a server sends from then on has a tag at least as great,
whether it answers the registration or relays a write. So the majority whose elements the read
decodes bounds the tag (`decodesInOrder`), whatever tag the first phase has computed.

A write that starts later asks a majority for tags, and they report what they store. This gives
growing version numbers (`writesIncrease`) and, because clients are sequential, different tags
(`tagsUnique`).
-/

set_option autoImplicit false
set_option relaxedAutoImplicit false

namespace Colas.Sodaw

open TransitionSystem Quorum

variable {n : ℕ} {config : Config n} {object : CString} {s t : State n}

/-! ### What a server stores when it sends -/

/-- A request for the tag is answered with the stored one, and what is acknowledged is stored. -/
theorem Handles.response_tag {strcmp : Strcmp} {args : ServerArgs}
    {version version' : CString → Tag × Frame} {tables tables' : Tables} {name : CallId Phase}
    {request : Body} {output : Output}
    (h : Handles strcmp args version tables name request version' tables' output) {reply : Body}
    (hreply : output.response = some reply) :
    (name.phase = .writeGet → (version reply.object).1 = reply.tagValue) ∧
      (name.phase = .writePut → reply.tagValue ≤ (version' reply.object).1) := by
  cases h with
  | report hphase =>
    obtain rfl := Option.some.inj hreply
    refine ⟨fun _ ↦ (Body.tagValue_tagToString _ _ _).symm, fun hput ↦ ?_⟩
    rcases hphase with hget | hget <;> exact absurd (hget.symm.trans hput) Phase.noConfusion
  | refuse hphase hle =>
    obtain rfl := Option.some.inj hreply
    exact ⟨fun hget ↦ absurd (hphase.symm.trans hget) Phase.noConfusion, fun _ ↦ hle⟩
  | adopt hphase hlt =>
    obtain rfl := Option.some.inj hreply
    refine ⟨fun hget ↦ absurd (hphase.symm.trans hget) Phase.noConfusion, fun _ ↦ ?_⟩
    rw [Function.update_self]
    exact le_rfl
  | _ => cases hreply

/-- No server has acknowledged a tag that is greater than the one it stores. -/
def AcknowledgedStored (config : Config n) (s : State n) : Prop :=
  ∀ i name frames, (i, name, frames) ∈ s.calls.answers.sent → name.phase = .writePut →
    frames.tagValue ≤ s.storedTag config frames.object i

/-- In every run, what is acknowledged is stored. -/
theorem AcknowledgedStored.of_run {guard : State n → Action n → Prop}
    (run : Run (step config) guard State.initial s) : AcknowledgedStored config s := by
  refine run.invariant_reach (fun _ _ _ hmem ↦ absurd hmem List.not_mem_nil)
    fun s a t hrun h _ hstep i name frames hmem hphase ↦ ?_
  have hshape := Shape.of_run hrun
  have hgrow := storedTag_le hshape hstep frames.object i
  by_cases hold : (i, name, frames) ∈ s.calls.answers.sent
  · exact (h i name frames hold hphase).trans hgrow
  · rcases step_cases hstep with hclient | hserver
    · rw [hclient.serversKept.answers] at hmem
      exact absurd hmem hold
    · cases hserver.move hshape with
      | serve j other request server output hsent halive hwell hhandles =>
        obtain ⟨rfl, rfl, hreply⟩ := (mem_answers_handle.mp hmem).resolve_right hold
        rw [State.storedTag, servers_handle, if_pos rfl]
        exact (hhandles.response_tag hreply).2 hphase
      | serveNotice => exact absurd hmem hold
      | stop => exact absurd hmem hold

/-- A new answer to a `WRITE_GET` reports the stored tag. -/
theorem storedTag_of_new_answer (hshape : Shape config s) {a : Action n}
    (hstep : step config s a = some t) {i : Fin n} {name : CallId Phase} {frames : Body}
    (hnew : (i, name, frames) ∈ t.calls.answers.sent)
    (hold : (i, name, frames) ∉ s.calls.answers.sent) (hphase : name.phase = .writeGet) :
    s.storedTag config frames.object i = frames.tagValue := by
  rcases step_cases hstep with hclient | hserver
  · rw [hclient.serversKept.answers] at hnew
    exact absurd hnew hold
  · cases hserver.move hshape with
    | serve j other request server output hsent halive hwell hhandles =>
      obtain ⟨rfl, rfl, hreply⟩ := (mem_answers_handle.mp hnew).resolve_right hold
      exact (hhandles.response_tag hreply).1 hphase
    | serveNotice => exact absurd hnew hold
    | stop => exact absurd hnew hold

/-- A new element has at least the stored tag. -/
theorem storedTag_le_of_new_element (hshape : Shape config s) {a : Action n}
    (hstep : step config s a = some t) {i : Fin n} {name : CallId Phase} {frames : Body}
    (hnew : (i, name, frames) ∈ t.elements.sent) (hold : (i, name, frames) ∉ s.elements.sent) :
    s.storedTag config frames.object i ≤ frames.tagValue := by
  rcases step_cases hstep with hclient | hserver
  · rw [hclient.serversKept.elements] at hnew
    exact absurd hnew hold
  · cases hserver.move hshape with
    | serve j other request server output hsent halive hwell hhandles =>
      obtain ⟨rfl, hmem⟩ := (mem_elements_handle.mp hnew).resolve_right hold
      exact (hhandles.element_between hmem).1
    | serveNotice => exact absurd hnew hold
    | stop => exact absurd hnew hold

/-! ### What a finished operation leaves at a majority -/

/-- The tag of a finished operation is stored by a majority. -/
theorem heldByMajority_of_decided (hsourced : Sourced config s) (hcounting : Counting s)
    (hstored : AcknowledgedStored config s) (habout : About object s) (hcollecting : Collecting s)
    {tag : Tag} (hdecided : Decided s.history object tag) :
    HeldByMajority (s.storedTag config object) tag := by
  have hread : ∀ {clientId opNum value},
      .readTagged clientId opNum object tag value ∈ s.history →
        HeldByMajority (s.storedTag config object) tag := by
    intro clientId opNum value hmem
    refine ReportedByMajority.held (hcollecting.events _ hmem) ?_
    rintro i frames hsent rfl
    have hle := (hsourced.element hsent).2.2
    rwa [habout.element hsent] at hle
  rcases hdecided with (⟨clientId, opNum, hmem⟩ | ⟨clientId, opNum, value, hmem⟩) |
    ⟨clientId, opNum, value, hmem⟩
  · refine ReportedByMajority.held (hcounting.events _ hmem).1 ?_
    rintro i frames hsent ⟨rfl, rfl⟩
    exact hstored i _ frames hsent rfl
  · exact hread (hcollecting.events _ hmem)
  · exact hread hmem

/-- A message about the object reports its tag. -/
def Reports (object : CString) (frames : Body) (tag : Tag) : Prop :=
  frames.object = object ∧ tag = frames.tagValue

/-- A message about the object reports its version number. -/
def ReportsNumber (object : CString) (frames : Body) (z : ℤ) : Prop :=
  frames.object = object ∧ z = frames.tagValue.number

/-- A tag that is fenced under the elements for a read stays so in every run. -/
theorem fenced_elements {guard : State n → Action n → Prop} (hshape : Shape config s)
    (run : Run (step config) guard s t) {name : CallId Phase} {tag : Tag}
    (h : Fenced s.elements.sent name (Reports object) (s.storedTag config object) tag) :
    Fenced t.elements.sent name (Reports object) (t.storedTag config object) tag := by
  refine (run.invariant (P := fun u ↦ Shape config u ∧ Fenced u.elements.sent name (Reports object)
    (u.storedTag config object) tag) ⟨hshape, h⟩ ?_).2
  rintro u a v ⟨hu, hfence⟩ - hstep
  refine ⟨(step_cases hstep).elim hu.clientStep fun hserver ↦ hu.serverMove (hserver.move hu),
    hfence.step (storedTag_le hu hstep object) ?_⟩
  rintro i frames hnew hold l ⟨rfl, rfl⟩
  exact storedTag_le_of_new_element hu hstep hnew hold

/-- A version number is fenced for an operation when a majority stores it and has reported nothing
below it to the operation. -/
def FencedNumber (config : Config n) (s : State n) (clientId : CString) (opNum : ℕ)
    (object : CString) (z : ℤ) : Prop :=
  Fenced s.calls.answers.sent ⟨clientId, opNum, .writeGet⟩ (ReportsNumber object)
    (fun i ↦ (s.storedTag config object i).number) z

/-- A version number that is fenced for an operation stays so in every step. -/
theorem FencedNumber.step (hshape : Shape config s) {a : Action n}
    (hstep : step config s a = some t) {clientId : CString} {opNum : ℕ} {object : CString} {z : ℤ}
    (h : FencedNumber config s clientId opNum object z) :
    FencedNumber config t clientId opNum object z := by
  refine Fenced.step h (fun i ↦ Tag.monotone_number (storedTag_le hshape hstep object i)) ?_
  rintro i frames hnew hold l ⟨rfl, rfl⟩
  rw [storedTag_of_new_answer hshape hstep hnew hold rfl]

/-- The version number of a tag that a majority stores is fenced for a new operation. -/
theorem fencedNumber_of_held (hcounting : Counting s) (hnumbered : Numbered s) {tag : Tag}
    (hheld : HeldByMajority (s.storedTag config object) tag) {clientId : CString} {opNum : ℕ}
    (hnew : ¬ Invoked s.history clientId opNum) :
    FencedNumber config s clientId opNum object tag.number :=
  (hheld.map Tag.monotone_number).fenced fun _ _ hmem ↦
    hnew (hnumbered.issued (hcounting.calls.issued_of_answer hmem))

/-! ### Events -/

/-- A step adds at most one event. -/
theorem exists_event {a : Action n} (hstep : step config s a = some t) :
    ∃ e : Option Event, t.history = e.toList ++ s.history := by
  rcases step_cases hstep with hclient | hserver
  · cases hclient <;> exact ⟨_, rfl⟩
  · exact ⟨none, hserver.clients_eq.2.1⟩

/-- The event starts an operation on the object. -/
def Starts (clientId : CString) (opNum : ℕ) (object : CString) (e : Event) : Prop :=
  (∃ payload, e = .writeInvoked clientId opNum object payload) ∨
    e = .readInvoked clientId opNum object

/-- No operation starts inside a loop. -/
theorem Receives.not_starts {clientId other object : CString} {round opNum : ℕ} {phase : Phase}
    {frames : Body} {client : Client} {turn : Turn n Client Phase}
    (h : Receives clientId round frames phase client turn) {e : Event}
    (he : turn.event = some e) : ¬ Starts other opNum object e := by
  cases h <;> cases he <;> simp [Starts]

theorem TimesOut.not_starts {clientId other object : CString} {opNum : ℕ} {client : Client}
    {turn : Turn n Client Phase} (h : TimesOut config clientId client turn) {e : Event}
    (he : turn.event = some e) : ¬ Starts other opNum object e := by
  cases h <;> cases he <;> simp [Starts]

/-- With fresh numbers, the number of an operation is new when the operation is invoked. -/
theorem not_invoked_of_event {a : Action n} (hfresh : FreshNumbers s a)
    (hstep : step config s a = some t) {e : Event} (he : t.history = e :: s.history)
    {clientId : CString} {opNum : ℕ} (hstarts : Starts clientId opNum object e) :
    ¬ Invoked s.history clientId opNum := by
  have hturn : ∀ {turn : Turn n Client Phase}, turn.event.toList ++ s.history = t.history →
      turn.event = some e := by
    intro turn hhistory
    rcases hcase : turn.event with - | e'
    · rw [he, hcase] at hhistory
      simp at hhistory
    · rw [he, hcase] at hhistory
      simpa using hhistory
  rcases step_cases hstep with hclient | hserver
  · cases hclient with
    | write clientId' opNum' object' payload' =>
      obtain rfl := Option.some.inj (hturn rfl)
      obtain ⟨payload, heq⟩ | heq := hstarts
      · obtain ⟨rfl, rfl, -, -⟩ := Event.writeInvoked.inj heq
        exact hfresh
      · exact absurd heq Event.noConfusion
    | read clientId' opNum' object' =>
      obtain rfl := Option.some.inj (hturn rfl)
      obtain ⟨payload, heq⟩ | heq := hstarts
      · exact absurd heq Event.noConfusion
      · obtain ⟨rfl, rfl, -⟩ := Event.readInvoked.inj heq
        exact hfresh
    | receive i name frames turn hsent hreceives =>
      exact absurd hstarts (hreceives.not_starts (hturn rfl))
    | receiveElement i name frames turn hsent hreceives =>
      exact absurd hstarts (hreceives.not_starts (hturn rfl))
    | timeout clientId' turn htimesOut =>
      exact absurd hstarts (htimesOut.not_starts (hturn rfl))
  · rw [hserver.clients_eq.2.1] at he
    simp at he

/-! ### Runs -/

/-- The guard of the results about runs on one object. -/
abbrev OnObject (object : CString) (s : State n) (a : Action n) : Prop :=
  Guard s a ∧ OneObject object a

/-- What is known of every run on one object under `Guard`. -/
structure Regular (config : Config n) (object : CString) (s : State n) : Prop where
  shape : Shape config s
  sourced : Sourced config s
  numbered : Numbered s
  counting : Counting s
  about : About object s
  distinct : Distinct s
  collecting : Collecting s
  acknowledged : AcknowledgedStored config s

theorem Regular.of_run (run : Run (step config) (OnObject object) State.initial s) :
    Regular config object s where
  shape := Shape.of_run run
  sourced := Sourced.of_run run
  numbered := Numbered.of_run (fun _ _ h ↦ h.1.freshNumbers) run
  counting := Counting.of_run (fun _ _ h ↦ h.1) run
  about := About.of_run (fun _ _ h ↦ h.2) run
  distinct := Distinct.of_run (fun _ _ h ↦ h.1.freshNumbers) (fun _ _ h ↦ h.2)
    (fun _ _ h ↦ h.1.readsOnce) run
  collecting := Collecting.of_run (fun _ _ h ↦ h.1.freshNumbers) (fun _ _ h ↦ h.2)
    (fun _ _ h ↦ h.1.readsOnce) run
  acknowledged := AcknowledgedStored.of_run run

theorem Regular.held (h : Regular config object s) {tag : Tag}
    (hdecided : Decided s.history object tag) :
    HeldByMajority (s.storedTag config object) tag :=
  heldByMajority_of_decided h.sourced h.counting h.acknowledged h.about h.collecting hdecided

/-- In every run on one object, a read that starts after an operation with a tag has finished
decodes a tag that is not smaller. -/
theorem decodesInOrder (run : Run (step config) (OnObject object) State.initial s) :
    ReadsInOrder Decided s.history := by
  intro later earlier clientId opNum object' tag tag' hsplit hdecided hread
  have hregular := Regular.of_run run
  have hsub : later ⊆ s.history := hsplit ▸ List.subset_append_left _ _
  have hobject : (Event.readInvoked clientId opNum object').object = object :=
    hregular.about.events _ (hsplit ▸ List.mem_append_right _ List.mem_cons_self)
  obtain rfl : object' = object := hobject
  obtain ⟨before, a, after, hbefore, rfl, ha, hstep, hafter, hrest⟩ :=
    Run.split_history State.history (fun _ _ _ ↦ exists_event) run rfl hsplit
  have hstart := Regular.of_run hbefore
  have hnew := not_invoked_of_event ha.1.freshNumbers hstep hafter (Or.inr rfl)
  -- nothing is sent to the read before it has asked
  have hfenced : Fenced before.elements.sent ⟨clientId, opNum, .readValue⟩ (Reports object')
      (before.storedTag config object') tag := by
    refine (hstart.held hdecided).fenced fun i frames hmem ↦ hnew ?_
    obtain ⟨-, ⟨request, hrequest, -⟩, -⟩ := hstart.sourced.element hmem
    exact hstart.numbered.issued ⟨i, request, hstart.shape.served _ hrequest⟩
  have hdecoded : ReportedByMajority s.elements.sent ⟨clientId, opNum, .readValue⟩
      fun _ frames ↦ frames.tagValue = tag' := by
    rcases hread with ⟨value, hmem⟩ | ⟨value, hmem⟩
    · exact hregular.collecting.events _ (hsub hmem)
    · exact hregular.collecting.events _ (hregular.collecting.events _ (hsub hmem))
  refine (fenced_elements hstart.shape ((Run.single ha hstep).trans hrest)
    hfenced).le_of_reported (hdecoded.mono (fun _ hm ↦ hm) ?_)
  rintro i frames hmem rfl
  exact ⟨frames.tagValue, ⟨hregular.about.element hmem, rfl⟩, le_rfl⟩

/-- In the run on three servers the read decodes the tag of the write that has returned. -/
theorem decodesInOrder_sample : ∃ s : State 3,
    s.history = sampleHistory [1, 2, 3, 4] ∧ ReadsInOrder Decided s.history := by
  have hhistory : (execute (step (sampleConfig 3)) (OnObject (ascii ['o'])) State.initial
      (sampleWrite [1, 2, 3, 4] ++ sampleRead [1, 2, 3, 4] ++ [.timeout (ascii ['r'])])).map
        State.history = some (sampleHistory [1, 2, 3, 4]) := by
    decide +kernel
  obtain ⟨s, hexecute, hs⟩ := Option.map_eq_some_iff.mp hhistory
  exact ⟨s, hs, decodesInOrder (run_of_execute hexecute)⟩

/-- In every run on one object a write that starts after an operation with a tag has finished
chooses a greater version number. -/
theorem writesIncrease (run : Run (step config) (OnObject object) State.initial s) :
    WritesIncrease Decided s.history := by
  intro later earlier clientId opNum object' payload tag tag' payload' hsplit hdecided htagged
  have hregular := Regular.of_run run
  have hsub : later ⊆ s.history := hsplit ▸ List.subset_append_left _ _
  have hobject : (Event.writeInvoked clientId opNum object' payload).object = object :=
    hregular.about.events _ (hsplit ▸ List.mem_append_right _ List.mem_cons_self)
  obtain rfl : object' = object := hobject
  obtain ⟨before, a, after, hbefore, rfl, ha, hstep, hafter, hrest⟩ :=
    Run.split_history State.history (fun _ _ _ ↦ exists_event) run rfl hsplit
  have hstart := Regular.of_run hbefore
  have hnew := not_invoked_of_event ha.1.freshNumbers hstep hafter (Or.inl ⟨payload, rfl⟩)
  have hfenced : FencedNumber config s clientId opNum object' tag.number := by
    refine (((Run.single ha hstep).trans hrest).invariant (P := fun u ↦ Shape config u ∧
      FencedNumber config u clientId opNum object' tag.number)
      ⟨hstart.shape, fencedNumber_of_held hstart.counting hstart.numbered (hstart.held hdecided)
        hnew⟩ ?_).2
    rintro u b v ⟨hu, hfence⟩ - hubv
    exact ⟨(step_cases hubv).elim hu.clientStep fun hserver ↦ hu.serverMove (hserver.move hu),
      hfence.step hu hubv⟩
  have hle : tag.number ≤ tag'.number - 1 := hfenced.le_of_reported <|
    ReportedByMajority.mono (hregular.counting.events _ (hsub htagged)) (fun _ hm ↦ hm)
      fun i frames _ hP ↦ ⟨frames.tagValue.number, ⟨hP.1, rfl⟩, by have hlt := hP.2; omega⟩
  omega

/-! ### No two writes have the same tag -/

/-- Where a client is with its writes. -/
def Client.stage : Client → Stage
  | .idle => .resting
  | .get opNum object (.write _) _ _ => .choosing opNum object
  | .get _ _ .read _ _ => .resting
  | .writePut opNum object tag _ => .storing opNum object tag
  | .readValue _ _ _ _ _ => .resting
  | .exited => .ended

/-- A turn on a message is a move of the client. -/
theorem Receives.move {history : List Event}
    {fenced fenced' : CString → ℕ → CString → ℤ → Prop} {clientId : CString} {round : ℕ}
    {phase : Phase} {frames : Body} {client : Client} {turn : Turn n Client Phase}
    (h : Receives clientId round frames phase client turn) :
    Move history fenced fenced' clientId client.stage turn.event turn.client.stage := by
  cases h with
  | stale => exact Move.stay _
  | @countTag object operation => cases operation <;> exact Move.stay _
  | countAck => exact Move.stay _
  | complete => exact Move.complete _ _ _
  | collect => exact Move.stay _
  | decide => exact Move.readTagged _ _ _ _

/-- A turn at the end of a loop is a move of the client. -/
theorem TimesOut.move {history history' : List Event}
    {calls : Calls (Fin n) (CallId Phase) Body Body}
    {fenced' : CString → ℕ → CString → ℤ → Prop} {clientId : CString} {client : Client}
    {turn : Turn n Client Phase} (h : TimesOut config clientId client turn)
    (hasked : Numbering calls history clientId client)
    (hevent : ∀ e, turn.event = some e → Supported s.calls.answers.sent history' e) :
    Move history (FencedNumber config s) fenced' clientId client.stage turn.event
      turn.client.stage := by
  cases h with
  | @startWrite opNum object payload responses tagList newTag encodedInfo hmany hnext =>
    obtain ⟨-, hid⟩ := Tag.next_eq_some_iff.mp hnext
    refine Move.choose opNum object _ payload hid hasked.1.invoked fun z hfenced ↦ ?_
    have hle : z ≤ newTag.number - 1 := hfenced.le_of_reported <|
      ReportedByMajority.mono (hevent _ rfl) (fun _ hm ↦ hm)
        fun i frames _ hP ↦ ⟨frames.tagValue.number, ⟨hP.1, rfl⟩, Int.le_sub_one_of_lt hP.2⟩
    exact Int.lt_of_le_sub_one hle
  | startRead => exact Move.stay _
  | decoded => exact Move.readCompleted _ _ _ _
  | failed => exact Move.leave _

/-- A step of a client is a move of that client. -/
theorem ClientStep.move (h : Regular config object s) (hcounting : Counting t) {a : Action n}
    (hguard : OnObject object s a) (hsteps : step config s a = some t)
    (hstep : ClientStep config s a t) :
    ∃ clientId event client, t.history = event.toList ++ s.history ∧
      t.clients = Function.update s.clients clientId client ∧
      Move s.history (FencedNumber config s) (FencedNumber config t) clientId
        (s.clients clientId).stage event client.stage := by
  cases hstep with
  | write clientId opNum object' payload hidle =>
    obtain ⟨hfresh, rfl⟩ := hguard
    refine ⟨clientId, _, _, rfl, rfl, ?_⟩
    rw [hidle]
    refine Move.invoke opNum object' payload hfresh fun opNum' tag hmem ↦ ?_
    have hheld := h.held (Or.inl (Or.inl ⟨clientId, opNum', hmem⟩))
    exact (fencedNumber_of_held h.counting h.numbered hheld hfresh).step h.shape hsteps
  | read clientId opNum object' hidle =>
    refine ⟨clientId, _, _, rfl, rfl, ?_⟩
    rw [hidle]
    exact Move.readInvoked opNum object'
  | receive i name frames turn hsent hturn => exact ⟨name.client, _, _, rfl, rfl, hturn.move⟩
  | receiveElement i name frames turn hsent hturn =>
    exact ⟨name.client, _, _, rfl, rfl, hturn.move⟩
  | timeout clientId turn hturn =>
    have hevent : ∀ e, turn.event = some e →
        Supported s.calls.answers.sent (turn.event.toList ++ s.history) e := by
      intro e he
      rw [← (serversKept_takeTurn s clientId turn).answers]
      exact hcounting.events e (List.mem_append_left _ (Option.mem_toList.mpr he))
    exact ⟨clientId, _, _, rfl, rfl, hturn.move (h.numbered.clients clientId) hevent⟩

/-- The writes of every run on one object are sequential. -/
theorem sequentialWriters_of_run (run : Run (step config) (OnObject object) State.initial s) :
    SequentialWriters s.history (fun clientId ↦ (s.clients clientId).stage)
      (FencedNumber config s) := by
  refine run.invariant_reach (P := fun s ↦ SequentialWriters s.history
    (fun clientId ↦ (s.clients clientId).stage) (FencedNumber config s))
    (sequentialWriters_nil fun _ ↦ rfl) fun s a t hrun h hguard hstep ↦ ?_
  have hregular := Regular.of_run hrun
  have hfenced : ∀ clientId opNum object' z, FencedNumber config s clientId opNum object' z →
      FencedNumber config t clientId opNum object' z := fun _ _ _ _ hfence ↦
    hfence.step hregular.shape hstep
  rcases step_cases hstep with hclient | hserver
  · obtain ⟨clientId, event, client, hhistory, hclients, hmove⟩ := hclient.move hregular
      (Regular.of_run (hrun.tail hguard hstep)).counting hguard hstep
    have hstage : (fun other ↦ (t.clients other).stage) =
        Function.update (fun other ↦ (s.clients other).stage) clientId client.stage := by
      funext other
      rw [hclients]
      exact Function.apply_update (fun _ ↦ Client.stage) s.clients clientId client other
    rw [hhistory, hstage]
    exact h.move hfenced hmove
  · rw [hserver.clients_eq.1, hserver.clients_eq.2.1]
    exact h.mono hfenced

/-- In every run on one object no two writes have the same tag. -/
theorem tagsUnique (run : Run (step config) (OnObject object) State.initial s) :
    TagsUnique s.history :=
  fun _ _ _ _ _ _ _ _ h h' ↦ (sequentialWriters_of_run run).unique h h'

end Colas.Sodaw
