import Colas.Abd.Values
import Colas.BaseProcess.Linearizable

/-!
# ABD is linearizable

The events of every ABD operation come in their order (`Following`), so the properties of the tags
make a linearization. `linearizable_of_run` is about the runs in which neither of the two defects
shows: the negative results of `compare_tags` at the servers are `-1`, and the servers adopt from a
read only the value that the read returns. In those runs the objects of ABD behave like single
registers that hold the initial data first.
-/

set_option autoImplicit false
set_option relaxedAutoImplicit false

namespace Colas.Abd

open TransitionSystem Linearization

variable {n : ℕ}

/-- What a client process has done in its operation, by the events of its operations. -/
def Client.Tracks (clientId : CString) (events : ℕ → List Event) : Client → Prop
  | .idle => True
  | .getMaxTag opNum object rawData _ _ =>
    events opNum = [.writeInvoked clientId opNum object rawData]
  | .getMaxTagValue opNum object _ _ _ => events opNum = [.readInvoked clientId opNum object]
  | .writeValue opNum object tag .write _ => ∃ payload,
    events opNum = [.writeTagged clientId opNum object tag payload,
      .writeInvoked clientId opNum object payload]
  | .writeValue opNum object tag (.read data) _ =>
    events opNum = [.readTagged clientId opNum object tag (some data),
      .readInvoked clientId opNum object]
  | .exited => True

/-- The clients go through their operations step by step. -/
structure Following (s : State n) : Prop where
  /-- The events of every operation come in their order. -/
  traced : Traced s.history
  /-- The clients have done what the events say. -/
  clients : ∀ clientId, (s.clients clientId).Tracks clientId (eventsOf s.history clientId)

section Steps

variable {strcmp : Strcmp} {initData : Frame} {s t : State n}

theorem following_initial : Following (State.initial : State n) where
  traced := traced_nil
  clients := fun _ ↦ trivial

/-- A turn that continues the operation of its client. -/
theorem Following.takeTurn (h : Following s) {clientId : CString} {turn : Turn n Client Phase}
    (hevent : ∀ e, turn.event = some e → e.client = clientId ∧
      Trace e.client e.opnum (e :: eventsOf s.history e.client e.opnum))
    (hclient : turn.client.Tracks clientId (eventsOf (turn.event.toList ++ s.history) clientId)) :
    Following (s.takeTurn clientId turn) where
  traced := h.traced.append fun e he ↦ (hevent e he).2
  clients := by
    refine (Function.forall_update_iff s.clients fun other (client : Client) ↦
      client.Tracks other (eventsOf (turn.event.toList ++ s.history) other)).mpr
      ⟨hclient, fun other hother ↦ ?_⟩
    rw [eventsOf_other fun e he ↦ (hevent e he).1.trans_ne hother.symm]
    exact h.clients other

/-- A turn of a client on a response continues its operation. -/
theorem Following.receive (h : Following s) {clientId : CString} {opNum : ℕ} {phase : Phase}
    {frames : Body} {heap : Heap} {turn : Turn n Client Phase}
    (hturn : Receives strcmp clientId heap opNum frames phase (s.clients clientId) turn) :
    Following (s.takeTurn clientId turn) := by
  have hown := h.clients clientId
  generalize s.clients clientId = client at hturn hown
  cases hturn with
  | stale => exact h.takeTurn (by rintro e ⟨⟩) hown
  | ended => exact h.takeTurn (by rintro e ⟨⟩) trivial
  | countTag => exact h.takeTurn (by rintro e ⟨⟩) hown
  | @chooseTag object rawData =>
    have hevents : eventsOf s.history clientId opNum =
      [.writeInvoked clientId opNum object rawData] := hown
    refine h.takeTurn ?_ ⟨rawData, ?_⟩
    · rintro e ⟨⟩
      refine ⟨rfl, ?_⟩
      rw [Event.client, Event.opnum, hevents]
      exact .writeTagged object rawData _
    · rw [← hevents]
      exact eventsOf_cons_self _ _
  | countValue => exact h.takeTurn (by rintro e ⟨⟩) hown
  | @chooseValue object responses tag data value =>
    have hevents : eventsOf s.history clientId opNum =
      [.readInvoked clientId opNum object] := hown
    refine h.takeTurn ?_ ?_
    · rintro e ⟨⟩
      refine ⟨rfl, ?_⟩
      rw [Event.client, Event.opnum, hevents]
      exact .readTagged object _ _
    · rw [startWriteBack, Client.Tracks, ← hevents]
      exact eventsOf_cons_self _ _
  | @countAck object tag operation =>
    refine h.takeTurn (by rintro e ⟨⟩) ?_
    cases operation <;> exact hown
  | @complete object tag operation =>
    refine h.takeTurn ?_ trivial
    rintro e ⟨⟩
    cases operation with
    | write =>
      obtain ⟨payload, hevents⟩ := hown
      refine ⟨rfl, ?_⟩
      rw [Operation.completed, Event.client, Event.opnum, hevents]
      exact .writeCompleted object payload tag
    | read data =>
      have hevents : eventsOf s.history clientId opNum = _ := hown
      refine ⟨rfl, ?_⟩
      rw [Operation.completed, Event.client, Event.opnum, hevents]
      exact .readCompleted object tag (some data) data

/-- A step under a new number keeps the operations in their order. -/
theorem Following.step (h : Following s) {a : Action n} (hfresh : FreshNumbers s a)
    (hstep : step strcmp initData s a = some t) : Following t := by
  rcases step_cases hstep with hclient | hserver
  · cases hclient with
    | write clientId opNum object payload hidle =>
      have hnone := h.traced.eventsOf_eq_nil hfresh
      refine h.takeTurn ?_ ?_
      · rintro e ⟨⟩
        refine ⟨rfl, ?_⟩
        rw [Event.client, Event.opnum, hnone]
        exact .writeInvoked object payload
      · rw [abdWrite, Client.Tracks, ← hnone]
        exact eventsOf_cons_self _ _
    | read clientId opNum object hidle =>
      have hnone := h.traced.eventsOf_eq_nil hfresh
      refine h.takeTurn ?_ ?_
      · rintro e ⟨⟩
        refine ⟨rfl, ?_⟩
        rw [Event.client, Event.opnum, hnone]
        exact .readInvoked object
      · rw [abdRead, Client.Tracks, ← hnone]
        exact eventsOf_cons_self _ _
    | receive i name frames heap turn hsent hturn =>
      have hcollected : Following { s with calls := s.calls.collect (i, name, frames) } :=
        { h with }
      exact hcollected.receive hturn
  · cases hserver
    exact { h with }

/-- In every run with fresh numbers the clients go through their operations step by step. -/
theorem Following.of_run {guard : State n → Action n → Prop}
    (hfresh : ∀ s a, guard s a → FreshNumbers s a)
    (run : Run (Abd.step strcmp initData) guard State.initial s) : Following s :=
  run.invariant following_initial fun _ _ _ h hguard hstep ↦ h.step (hfresh _ _ hguard) hstep

theorem Guard.freshNumbers {a : Action n} (h : Guard s a) : FreshNumbers s a := by
  cases a with
  | invokeWrite => exact h
  | invokeRead => exact h
  | _ => trivial

/-- A server whose comparison is `-1` whenever it is negative adopts every greater tag. -/
theorem refusesOnlySmaller_of_comparesToMinusOne {a : Action n}
    (h : ComparesToMinusOne strcmp initData s a) :
    RefusesOnlySmaller id strcmp initData s a := by
  cases a with
  | serve request =>
    intro hphase hne
    exact not_lt.mp fun hlt ↦ hne (h hphase ((compareTags_neg_iff strcmp _ _).mpr hlt))
  | _ => trivial

/-- As long as the servers adopt every greater tag, reads do not go back. -/
theorem readsInOrder_of_refuses {guard : State n → Action n → Prop}
    (hguard : ∀ s a, guard s a → Guard s a)
    (hkeeps : ∀ s a, guard s a → RefusesOnlySmaller id strcmp initData s a)
    (run : Run (Abd.step strcmp initData) guard State.initial s) :
    ReadsInOrder Completed s.history := by
  intro later earlier clientId opNum object tag tag' hsplit hcompleted hreturned
  have hcounting := Counting.of_run (run.weaken hguard)
  have hsub : later ⊆ s.history := hsplit ▸ List.subset_append_left _ _
  have hchosen : ∃ value, .readTagged clientId opNum object tag' value ∈ s.history := by
    rcases hreturned with ⟨value, hmem⟩ | ⟨value, hmem⟩
    · exact ⟨value, hsub hmem⟩
    · exact ⟨_, (hcounting.events _ (hsub hmem)).2⟩
  obtain ⟨value, hmem⟩ := hchosen
  exact rank_le_of_invoked monotone_id hguard hkeeps run hsplit hcompleted (Or.inr rfl) (by decide)
    (hcounting.events _ hmem)

/-- In every run in which no client uses a number twice, no message is delivered twice, the negative
results of `compare_tags` are `-1`, and the servers adopt from a read only the value that the read
returns, every object is linearizable: the operations on it that have returned are those of a single
register that holds the initial data first. -/
theorem linearizable_of_run (run : Run (Abd.step strcmp initData)
      (fun s a ↦ Guard s a ∧ ComparesToMinusOne strcmp initData s a ∧
        WritesBackValue strcmp initData s a) State.initial s) (object : CString) :
    Linearizable initData object s.history := by
  have hguarded := run.weaken fun _ _ h ↦ h.1
  have hshape := Shape.of_run run
  have hcounting := Counting.of_run hguarded
  have hvalued := Valued.of_run (run.weaken fun _ _ h ↦ ⟨h.1.freshNumbers, h.2.2⟩)
  refine linearizable_of_tags
    { traced := (Following.of_run (fun _ _ h ↦ h.freshNumbers) hguarded).traced
      reads := readsInOrder_of_refuses (fun _ _ h ↦ h.1)
        (fun _ _ h ↦ refusesOnlySmaller_of_comparesToMinusOne h.2.1) run
      writes := writesIncrease hguarded
      unique := tagsUnique hguarded
      above := fun clientId opNum tag payload hmem ↦ ?_
      source := fun clientId opNum tag value hmem ↦ ?_ }
  · have hz := one_le_number_of_writeTagged hshape hcounting hmem
    exact (Tag.lt_iff initTag tag).mpr (Or.inl (lt_of_lt_of_le (by decide) hz))
  · rcases hvalued.read (hcounting.events _ hmem).2 with hinit | ⟨writer, number, -, htagged⟩
    · exact Or.inl hinit
    · exact Or.inr ⟨writer, number, htagged⟩

/-- The run of the race of two writers is linearizable. -/
theorem linearizable_race : ∃ s : State 3,
    s.history = raceHistory (hundredBytes 1) (hundredBytes 3) ⟨1, ascii ['w', '3']⟩
      (hundredBytes 3) ∧ Linearizable (hundredBytes 0) (ascii ['o']) s.history := by
  have hhistory : (execute (Abd.step Strcmp.sign (hundredBytes 0))
      (fun s a ↦ Guard s a ∧ ComparesToMinusOne Strcmp.sign (hundredBytes 0) s a ∧
        WritesBackValue Strcmp.sign (hundredBytes 0) s a) State.initial
      (raceSchedule 0 1 2 (hundredBytes 0) (hundredBytes 1) (hundredBytes 3)
        ⟨1, ascii ['w', '3']⟩ (hundredBytes 3))).map State.history =
      some (raceHistory (hundredBytes 1) (hundredBytes 3) ⟨1, ascii ['w', '3']⟩
        (hundredBytes 3)) := by
    decide +kernel
  obtain ⟨s, hexecute, hs⟩ := Option.map_eq_some_iff.mp hhistory
  exact ⟨s, hs, linearizable_of_run (run_of_execute hexecute) (ascii ['o'])⟩

end Steps

end Colas.Abd
