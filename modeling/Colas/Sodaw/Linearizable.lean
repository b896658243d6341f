import Colas.BaseProcess.Linearizable
import Colas.Sodaw.Validity

/-!
# SODAW is linearizable

The events of every SODAW operation come in their order (`Following`), so the properties of the tags
make a linearization. `linearizable_on_object` is about the runs on one object whose files have the
configured size, and in which no reader decodes the initial version, which is not encoded. The
object then behaves like a single register. As no read returns a value that was not written, it does
not matter which value the register holds first.
-/

set_option autoImplicit false
set_option relaxedAutoImplicit false

namespace Colas.Sodaw

open TransitionSystem Quorum Linearization

variable {n : ℕ} {config : Config n} {object : CString} {s t : State n}

/-- What a client process has done in its operation, by the events of its operations. -/
def Client.Tracks (clientId : CString) (events : ℕ → List Event) : Client → Prop
  | .idle => True
  | .get opNum object (.write payload) _ _ =>
    events opNum = [.writeInvoked clientId opNum object payload]
  | .get opNum object .read _ _ => events opNum = [.readInvoked clientId opNum object]
  | .writePut opNum object tag _ => ∃ payload,
    events opNum = [.writeTagged clientId opNum object tag payload,
      .writeInvoked clientId opNum object payload]
  | .readValue opNum object _ _ none => events opNum = [.readInvoked clientId opNum object]
  | .readValue opNum object _ _ (some decodeableKey) =>
    events opNum = [.readTagged clientId opNum object
      ((stringToTag decodeableKey).getD initTag) none, .readInvoked clientId opNum object]
  | .exited => True

/-- The clients go through their operations step by step. -/
structure Following (s : State n) : Prop where
  /-- The events of every operation come in their order. -/
  traced : Traced s.history
  /-- The clients have done what the events say. -/
  clients : ∀ clientId, (s.clients clientId).Tracks clientId (eventsOf s.history clientId)

theorem following_initial : Following (State.initial : State n) where
  traced := traced_nil
  clients := fun _ ↦ trivial

/-- A turn that continues the operation of its client. -/
theorem Following.takeTurn (h : Following s) {clientId : CString} {turn : Turn n Client Phase}
    (hevent : ∀ e, turn.event = some e → e.client = clientId ∧
      Trace e.client e.opnum (e :: eventsOf s.history e.client e.opnum))
    (hclient : turn.client.Tracks clientId (eventsOf (turn.event.toList ++ s.history) clientId)) :
    Following (s.takeTurn clientId turn) where
  traced := h.traced.append fun e he ↦ (hevent e he).2
  clients := by
    refine (Function.forall_update_iff s.clients fun other (client : Client) ↦
      client.Tracks other (eventsOf (turn.event.toList ++ s.history) other)).mpr
      ⟨hclient, fun other hother ↦ ?_⟩
    rw [eventsOf_other fun e he ↦ (hevent e he).1.trans_ne hother.symm]
    exact h.clients other

/-- A turn of a client on a message continues its operation. -/
theorem Following.receive (h : Following s) {clientId : CString} {opNum : ℕ} {phase : Phase}
    {frames : Body} {turn : Turn n Client Phase}
    (hturn : Receives clientId opNum frames phase (s.clients clientId) turn) :
    Following (s.takeTurn clientId turn) := by
  have hown := h.clients clientId
  generalize s.clients clientId = client at hturn hown
  cases hturn with
  | stale => exact h.takeTurn (by rintro e ⟨⟩) hown
  | @countTag object operation =>
    refine h.takeTurn (by rintro e ⟨⟩) ?_
    cases operation <;> exact hown
  | countAck => exact h.takeTurn (by rintro e ⟨⟩) hown
  | @complete object tag =>
    obtain ⟨payload, hevents⟩ := hown
    refine h.takeTurn ?_ trivial
    rintro e ⟨⟩
    refine ⟨rfl, ?_⟩
    rw [Event.client, Event.opnum, hevents]
    exact .writeCompleted object payload tag
  | collect => exact h.takeTurn (by rintro e ⟨⟩) hown
  | @decide object =>
    have hevents : eventsOf s.history clientId opNum =
      [.readInvoked clientId opNum object] := hown
    refine h.takeTurn ?_ ?_
    · rintro e ⟨⟩
      refine ⟨rfl, ?_⟩
      rw [Event.client, Event.opnum, hevents]
      exact .readTagged object _ _
    · rw [Client.Tracks, ← hevents]
      exact eventsOf_cons_self _ _

/-- A turn at the end of a loop continues the operation of the client. -/
theorem Following.timeout (h : Following s) {clientId : CString} {turn : Turn n Client Phase}
    (hturn : TimesOut config clientId (s.clients clientId) turn) :
    Following (s.takeTurn clientId turn) := by
  have hown := h.clients clientId
  generalize s.clients clientId = client at hturn hown
  cases hturn with
  | @startWrite opNum object payload =>
    have hevents : eventsOf s.history clientId opNum =
      [.writeInvoked clientId opNum object payload] := hown
    refine h.takeTurn ?_ ⟨payload, ?_⟩
    · rintro e ⟨⟩
      refine ⟨rfl, ?_⟩
      rw [Event.client, Event.opnum, hevents]
      exact .writeTagged object payload _
    · rw [← hevents]
      exact eventsOf_cons_self _ _
  | startRead => exact h.takeTurn (by rintro e ⟨⟩) hown
  | @decoded opNum object readTag tag recvDataset decodeableKey info hdecode htag =>
    have hevents : eventsOf s.history clientId opNum = [.readTagged clientId opNum object
        ((stringToTag decodeableKey).getD initTag) none, .readInvoked clientId opNum object] := hown
    rw [htag] at hevents
    refine h.takeTurn ?_ trivial
    rintro e ⟨⟩
    refine ⟨rfl, ?_⟩
    rw [Event.client, Event.opnum, hevents]
    exact .readCompleted object tag none _
  | failed => exact h.takeTurn (by rintro e ⟨⟩) trivial

/-- A step under a new number keeps the operations in their order. -/
theorem Following.step (h : Following s) {a : Action n} (hfresh : FreshNumbers s a)
    (hstep : step config s a = some t) : Following t := by
  rcases step_cases hstep with hclient | hserver
  · cases hclient with
    | write clientId opNum object payload hidle =>
      have hnone := h.traced.eventsOf_eq_nil hfresh
      refine h.takeTurn ?_ ?_
      · rintro e ⟨⟩
        refine ⟨rfl, ?_⟩
        rw [Event.client, Event.opnum, hnone]
        exact .writeInvoked object payload
      · rw [sodawWrite, Client.Tracks, ← hnone]
        exact eventsOf_cons_self _ _
    | read clientId opNum object hidle =>
      have hnone := h.traced.eventsOf_eq_nil hfresh
      refine h.takeTurn ?_ ?_
      · rintro e ⟨⟩
        refine ⟨rfl, ?_⟩
        rw [Event.client, Event.opnum, hnone]
        exact .readInvoked object
      · rw [sodawRead, Client.Tracks, ← hnone]
        exact eventsOf_cons_self _ _
    | receive i name frames turn hsent hturn =>
      have hcollected : Following { s with calls := s.calls.collect (i, name, frames) } :=
        { h with }
      exact hcollected.receive hturn
    | receiveElement i name frames turn hsent hturn =>
      have hdelivered :
          Following { s with elements := s.elements.deliver (i, name, frames) } := { h with }
      exact hdelivered.receive hturn
    | timeout clientId turn hturn => exact h.timeout hturn
  · obtain ⟨hclients, hhistory, -⟩ := hserver.clients_eq
    exact ⟨hhistory ▸ h.traced, fun clientId ↦ by
      rw [hclients, hhistory]
      exact h.clients clientId⟩

/-- In every run with fresh numbers the clients go through their operations step by step. -/
theorem Following.of_run {guard : State n → Action n → Prop}
    (hfresh : ∀ s a, guard s a → FreshNumbers s a)
    (run : Run (Sodaw.step config) guard State.initial s) : Following s :=
  run.invariant following_initial fun _ _ _ h hguard hstep ↦ h.step (hfresh _ _ hguard) hstep

/-! ### The tags of reads -/

/-- Once a majority stores a tag, an operation that is new decodes no smaller one. -/
theorem Regular.le_of_decoded {before : State n} (hbefore : Regular config object before)
    (h : Regular config object s) {guard : State n → Action n → Prop}
    (run : Run (step config) guard before s) {tag tag' : Tag}
    (hheld : HeldByMajority (before.storedTag config object) tag) {clientId : CString} {opNum : ℕ}
    (hnew : ¬ Invoked before.history clientId opNum) {value : Option Frame}
    (hdecoded : .readTagged clientId opNum object tag' value ∈ s.history) : tag ≤ tag' := by
  have hfenced : Fenced before.elements.sent ⟨clientId, opNum, .readValue⟩ (Reports object)
      (before.storedTag config object) tag := by
    refine hheld.fenced fun i frames hmem ↦ hnew ?_
    obtain ⟨-, ⟨request, hrequest, -⟩, -⟩ := hbefore.sourced.element hmem
    exact hbefore.numbered.issued ⟨i, request, hbefore.shape.served _ hrequest⟩
  refine (fenced_elements hbefore.shape run hfenced).le_of_reported
    (ReportedByMajority.mono (h.collecting.events _ hdecoded) (fun _ hm ↦ hm) ?_)
  rintro i frames hmem rfl
  exact ⟨frames.tagValue, ⟨h.about.element hmem, rfl⟩, le_rfl⟩

/-- A read that starts after an operation has returned returns no smaller tag. -/
theorem readsInOrder_completed (run : Run (step config) (OnObject object) State.initial s) :
    ReadsInOrder Completed s.history := by
  intro later earlier clientId opNum object' tag tag' hsplit hcompleted hread
  have hregular := Regular.of_run run
  have hsub : later ⊆ s.history := hsplit ▸ List.subset_append_left _ _
  have hobject : (Event.readInvoked clientId opNum object').object = object :=
    hregular.about.events _ (hsplit ▸ List.mem_append_right _ List.mem_cons_self)
  obtain rfl : object' = object := hobject
  obtain ⟨before, a, after, hbefore, rfl, ha, hstep, hafter, hrest⟩ :=
    Run.split_history State.history (fun _ _ _ ↦ exists_event) run rfl hsplit
  have hstart := Regular.of_run hbefore
  have hnew := not_invoked_of_event ha.1.freshNumbers hstep hafter (Or.inr rfl)
  have hdecoded : ∃ value, .readTagged clientId opNum object' tag' value ∈ s.history := by
    rcases hread with ⟨value, hmem⟩ | ⟨value, hmem⟩
    · exact ⟨value, hsub hmem⟩
    · exact ⟨none, hregular.collecting.events _ (hsub hmem)⟩
  obtain ⟨value, hdecoded⟩ := hdecoded
  exact hstart.le_of_decoded hregular ((Run.single ha hstep).trans hrest)
    (hstart.held (Or.inl hcompleted)) hnew hdecoded

/-- A write has a positive version number. -/
theorem one_le_number_of_writeTagged (hshape : Shape config s) (hcounting : Counting s)
    {clientId : CString} {opNum : ℕ} {tag : Tag} {payload : Frame}
    (hmem : .writeTagged clientId opNum object tag payload ∈ s.history) : 1 ≤ tag.number := by
  obtain ⟨members, hmajority, hreported⟩ := hcounting.events _ hmem
  obtain ⟨i, hi⟩ := hmajority.nonempty
  obtain ⟨frames, hanswer, -, hz⟩ := hreported i hi
  have hnonneg := (hshape.answered hanswer).2.2.1
  omega

/-- The runs on one object with files of the configured size, in which no reader decodes the initial
version. -/
abbrev OnWritten (config : Config n) (object : CString) (s : State n) (a : Action n) : Prop :=
  OnObject object s a ∧ WritesFiles config a ∧ AvoidsInitial s a

/-- A read returns the payload of the write with its tag. -/
theorem written_of_readCompleted (hk : ⌊(⌈(n : ℚ) + 1⌉₊ : ℚ) / 2⌋₊ = majority n)
    (hfile : 0 < config.parameters.filesize)
    (hdecodes : (config.codecs config.codingAlgorithm).Decodes)
    (run : Run (step config) (OnWritten config object) State.initial s) :
    ∀ clientId opNum object' tag value,
      .readCompleted clientId opNum object' tag value ∈ s.history →
        ∃ writer number, .writeTagged writer number object' tag value ∈ s.history := by
  refine run.invariant_reach (P := fun s ↦ ∀ clientId opNum object' tag value,
    .readCompleted clientId opNum object' tag value ∈ s.history →
      ∃ writer number, .writeTagged writer number object' tag value ∈ s.history)
    (fun _ _ _ _ _ hmem ↦ absurd hmem List.not_mem_nil) fun s a t hrun h _ hstep ↦ ?_
  intro clientId opNum object' tag value hmem
  have hsub : s.history ⊆ t.history := by
    obtain ⟨e, he⟩ := exists_event hstep
    exact he ▸ List.subset_append_right _ _
  by_cases hold : .readCompleted clientId opNum object' tag value ∈ s.history
  · obtain ⟨writer, number, htagged⟩ := h _ _ _ _ _ hold
    exact ⟨writer, number, hsub htagged⟩
  · have honObject := hrun.weaken fun _ _ h ↦ h.1
    have hregular := Regular.of_run honObject
    obtain ⟨readTag, recvDataset, decodeableKey, info, hclient, hdecode, htag, rfl⟩ :=
      exists_decoded hstep hmem hold
    have hreads : (s.clients clientId).object = some object' := by rw [hclient]; rfl
    obtain rfl : object' = object := hregular.about.clients hreads
    have hfiled := Filed.of_run (fun _ _ _ hrun' hsa hmove ↦ relaysOwnObject_of_about
      (About.of_run (fun _ _ h ↦ h.1.2) hrun') hmove) hrun
    have hstriped := Striped.of_run (fun _ _ h ↦ h.2.1) (fun _ _ h ↦ h.2.2) hrun
    obtain ⟨writer, number, payload, written, htagged, hlength, hencode, servers, hnodup, hcount,
      hframes⟩ := exists_stripes hregular (tagsUnique honObject) hfiled hstriped hclient htag
    rw [hframes] at hdecode
    obtain ⟨-, hvalue⟩ :=
      decodeElements_eq hk hfile hdecodes hlength hencode hnodup hcount hdecode
    rw [hvalue]
    exact ⟨writer, number, hsub htagged⟩

end Colas.Sodaw
