import Colas.Abd.Limits

/-!
# The sizes of the values of ABD

`print_out_hash_in_order` ends a reader on a value of less than 100 bytes. If the initial data and
what clients write is not so small, no value is: servers, readers and the write-backs, whatever
bytes these carry, keep the sizes, and no client is ended (`Sized.of_run`).
-/

set_option autoImplicit false
set_option relaxedAutoImplicit false

namespace Colas

/-- Writers have written at least 100 bytes. -/
def LargeWrites (history : List Event) : Prop :=
  ∀ clientId opNum object payload,
    .writeInvoked clientId opNum object payload ∈ history → 100 ≤ payload.length

theorem LargeWrites.mono {history history' : List Event} (h : LargeWrites history')
    (hsub : history ⊆ history') : LargeWrites history :=
  fun clientId opNum object payload hmem ↦ h clientId opNum object payload (hsub hmem)

namespace Abd

open TransitionSystem

variable {n : ℕ}

/-- The client has no small value and has not been ended. -/
def Client.Sized : Client → Prop
  | .getMaxTag _ _ rawData _ _ => 100 ≤ rawData.length
  | .getMaxTagValue _ _ _ _ data => ∀ value, data = some value → 100 ≤ value.length
  | .exited => False
  | _ => True

/-- No value is small. -/
structure Sized (initData : Frame) (s : State n) : Prop where
  requested : ∀ {i name frames}, (i, name, frames) ∈ s.calls.requests.sent →
    name.phase = .writeValue → 100 ≤ frames.payload.length
  stored : ∀ object i, 100 ≤ ((s.servers i).version initData object).2.length
  answered : ∀ {i name frames}, (i, name, frames) ∈ s.calls.answers.sent →
    name.phase = .getTagValue → 100 ≤ frames.payload.length
  clients : ∀ clientId, (s.clients clientId).Sized

section Loops

variable {strcmp : Strcmp} {opNum responses round : ℕ} {phase : Phase} {frames : Body}

/-- The loop for the tags of a write does not end the process. -/
theorem abdGetMaxTagPhase_ne_exit {heap : Heap} {tagList : List Tag} :
    abdGetMaxTagPhase strcmp heap n opNum responses tagList round phase frames ≠ some .exit := by
  intro h
  unfold abdGetMaxTagPhase at h
  split at h
  · obtain ⟨recvTag, -, hturn⟩ := Option.bind_eq_some_iff.mp h
    dsimp only at hturn
    split at hturn
    · cases hturn
    · cases hturn
  · cases h

/-- The loop for the versions of a read ends the process only on a small value. -/
theorem small_of_abdGetMaxTagValuePhase {tag : Tag} {data : Option Frame}
    (h : abdGetMaxTagValuePhase strcmp n opNum responses tag data round phase frames =
      some .exit) : phase = .getTagValue ∧ frames.payload.length < 100 := by
  obtain ⟨recvTag, -, hturn⟩ := Option.bind_eq_some_iff.mp h
  dsimp only at hturn
  split_ifs at hturn with hsmall
  · exact hsmall
  · obtain ⟨value, -, ⟨⟩⟩ := Option.bind_eq_some_iff.mp hturn
  · cases hturn
  · cases hturn

/-- The loop for the acknowledgements does not end the process. -/
theorem abdWriteValuePhase_ne_exit :
    abdWriteValuePhase n opNum responses round phase ≠ .exit := by
  intro h
  unfold abdWriteValuePhase at h
  split_ifs at h

end Loops

/-- A client is ended only by a small value. -/
theorem Client.small_of_exited {strcmp : Strcmp} {clientId : CString}
    {heap : Heap} {round : ℕ} {phase : Phase} {frames : Body}
    {client : Client} {turn : Turn n Client Phase}
    (h : client.receive strcmp clientId heap round phase frames = some turn)
    (hended : turn.client = .exited) : phase = .getTagValue ∧ frames.payload.length < 100 := by
  cases client with
  | idle => cases h
  | exited => cases h
  | getMaxTag opNum object rawData responses tagList =>
    obtain ⟨loop, hloop, hturn⟩ := Option.bind_eq_some_iff.mp h
    cases loop with
    | again result => obtain rfl := Option.some.inj hturn; cases hended
    | leave maxTag =>
      obtain ⟨newTag, -, hstart⟩ := Option.bind_eq_some_iff.mp hturn
      obtain rfl := Option.some.inj hstart
      cases hended
    | exit => exact absurd hloop abdGetMaxTagPhase_ne_exit
  | getMaxTagValue opNum object responses tag data =>
    obtain ⟨loop, hloop, hturn⟩ := Option.bind_eq_some_iff.mp h
    cases loop with
    | again result => obtain rfl := Option.some.inj hturn; cases hended
    | leave result => obtain rfl := Option.some.inj hturn; cases hended
    | exit => exact small_of_abdGetMaxTagValuePhase hloop
  | writeValue opNum object tag operation responses =>
    rw [Client.receive] at h
    cases hloop : abdWriteValuePhase n opNum responses round phase with
    | again responses => rw [hloop] at h; obtain rfl := Option.some.inj h; cases hended
    | leave => rw [hloop] at h; obtain rfl := Option.some.inj h; cases hended
    | exit => exact absurd hloop abdWriteValuePhase_ne_exit

/-- The write-back has the size of the value, whichever bytes it has. -/
theorem length_writeBackPayload {data : Frame} (dup : DupFrame data) :
    dup.writeBackPayload.length = data.length := by
  simp [DupFrame.writeBackPayload, zframeNew]

section Steps

variable {strcmp : Strcmp} {initData : Frame} {s t : State n}

theorem sized_initial (hinit : 100 ≤ initData.length) :
    Sized initData (State.initial : State n) where
  requested := fun h ↦ absurd h List.not_mem_nil
  stored := fun object i ↦ by
    simpa [State.initial, Server.version, Server.initial, contents] using hinit
  answered := fun h ↦ absurd h List.not_mem_nil
  clients := fun _ ↦ trivial

/-- A turn whose client and requests have no small value. -/
theorem Sized.takeTurn (h : Sized initData s) {clientId : CString} {turn : Turn n Client Phase}
    (hclient : turn.client.Sized)
    (hmulticast : ∀ name content, turn.multicast = some (name, content) →
      name.phase = .writeValue → ∀ i, 100 ≤ (content i).payload.length) :
    Sized initData (s.takeTurn clientId turn) where
  requested := fun {i name frames} hmem hphase ↦ by
    rcases (turn.mem_requests_sendOn s.calls).mp hmem with ⟨content, hcall, rfl⟩ | hold
    · exact hmulticast name content hcall hphase i
    · exact h.requested hold hphase
  stored := h.stored
  answered := fun {i name frames} hmem ↦ by
    rw [calls_takeTurn, Turn.answers_sendOn] at hmem
    exact h.answered hmem
  clients := (Function.forall_update_iff s.clients fun _ (client : Client) ↦ client.Sized).mpr
    ⟨hclient, fun other _ ↦ h.clients other⟩

/-- The turn of a client on a response with no small value. -/
theorem Receives.sized {clientId : CString} {heap : Heap} {round : ℕ}
    {phase : Phase} {frames : Body} {client : Client} {turn : Turn n Client Phase}
    (h : Receives strcmp clientId heap round frames phase client turn) (hclient : client.Sized)
    (hvalue : phase = .getTagValue → 100 ≤ frames.payload.length)
    (hlarge : turn.client ≠ .exited) :
    turn.client.Sized ∧ ∀ name content, turn.multicast = some (name, content) →
      name.phase = .writeValue → ∀ i, 100 ≤ (content i).payload.length := by
  have hupdate : ∀ {tag data value},
      (updateMaxTagValue strcmp tag data frames.tagValue frames.payload).2 = some value →
        phase = .getTagValue → (∀ old, data = some old → 100 ≤ old.length) →
          100 ≤ value.length := by
    intro tag data value hsome hphase hold
    rcases updateMaxTagValue_eq_or strcmp tag data frames.tagValue frames.payload with heq | heq
    · rw [heq] at hsome
      exact hold value hsome
    · rw [heq] at hsome
      obtain rfl := Option.some.inj hsome
      exact hvalue hphase
  cases h with
  | stale => exact ⟨hclient, by rintro name content ⟨⟩⟩
  | ended => exact absurd rfl hlarge
  | countTag => exact ⟨hclient, by rintro name content ⟨⟩⟩
  | chooseTag =>
    refine ⟨trivial, ?_⟩
    rintro name content ⟨⟩ - i
    exact hclient
  | countValue =>
    exact ⟨fun value hsome ↦ hupdate hsome rfl hclient, by rintro name content ⟨⟩⟩
  | chooseValue hmany hsome =>
    refine ⟨trivial, ?_⟩
    rintro name content ⟨⟩ - i
    exact (hupdate hsome rfl hclient).trans_eq (length_writeBackPayload _).symm
  | countAck => exact ⟨hclient, by rintro name content ⟨⟩⟩
  | complete => exact ⟨trivial, by rintro name content ⟨⟩⟩

/-- A step of a server. -/
theorem Sized.serverStep (hshape : Shape initData s) (h : Sized initData s) {a : Action n}
    (hstep : ServerStep strcmp initData s a t) : Sized initData t := by
  obtain ⟨i, name, frames, server, rfl, hsent, rfl, -, hversion⟩ := hstep.eq hshape
  refine
    { requested := h.requested
      stored := fun object j ↦ ?_
      answered := fun {j other body} hmem hphase ↦ ?_
      clients := h.clients }
  · rw [version_handle]
    split_ifs
    · rw [hversion]
      split_ifs with hadopts
      · by_cases hobject : object = frames.object
        · subst hobject
          rw [Function.update_self]
          exact h.requested hsent hadopts.1
        · rw [Function.update_of_ne hobject]
          exact h.stored object i
      · exact h.stored object i
    · exact h.stored object j
  · rcases List.mem_cons.mp hmem with heq | hold
    · obtain ⟨rfl, rfl, rfl⟩ := by simpa using heq
      rw [hphase]
      exact h.stored frames.object j
    · exact h.answered hold hphase

/-- The history only grows. -/
theorem history_subset {a : Action n} (hstep : step strcmp initData s a = some t) :
    s.history ⊆ t.history := by
  rcases step_cases hstep with hclient | hserver
  · cases hclient <;> exact List.subset_append_right _ _
  · cases hserver
    exact List.Subset.refl _

/-- One step. -/
theorem Sized.step (hshape : Shape initData s) (h : Sized initData s) {a : Action n}
    (hwrites : LargeWrites t.history) (hstep : Abd.step strcmp initData s a = some t) :
    Sized initData t := by
  rcases step_cases hstep with hclient | hserver
  · cases hclient with
    | write clientId opNum object payload hidle =>
      exact h.takeTurn (hwrites clientId opNum object payload List.mem_cons_self)
        (by rintro name content ⟨⟩ ⟨⟩)
    | read clientId opNum object hidle =>
      exact h.takeTurn (by rintro value ⟨⟩) (by rintro name content ⟨⟩ ⟨⟩)
    | receive i name frames heap =>
      obtain ⟨hsent, turn, hturn, heq⟩ := exists_turn hstep
      have hcollected : Sized initData { s with calls := s.calls.collect (i, name, frames) } :=
        { h with }
      have hlarge : turn.client ≠ .exited := fun hended ↦ by
        obtain ⟨hphase, hsmall⟩ := Client.small_of_exited hturn hended
        exact absurd (h.answered hsent hphase) (not_le.mpr hsmall)
      obtain ⟨hclient, hmulticast⟩ := (Client.receives hturn).sized (h.clients name.client)
        (h.answered hsent) hlarge
      rw [heq]
      exact hcollected.takeTurn hclient hmulticast
  · exact h.serverStep hshape hserver

/-- If the initial data are not small and no write has been, no value is small and no client is
ended. -/
theorem Sized.of_run (hinit : 100 ≤ initData.length) {guard : State n → Action n → Prop}
    (run : Run (Abd.step strcmp initData) guard State.initial s) :
    LargeWrites s.history → Sized initData s :=
  run.invariant_reach (P := fun s ↦ LargeWrites s.history → Sized initData s)
    (fun _ ↦ sized_initial hinit) fun _ _ _ hrun h _ hstep hwrites ↦
      (h (hwrites.mono (history_subset hstep))).step (Shape.of_run hrun) hwrites hstep

end Steps

end Abd

end Colas
