import Colas.Abd.System
import Colas.BaseProcess.Writers

/-!
# Where the tags of ABD come from

Clients and servers pass tags on, in responses and in write-backs, but only a writer at the end of
its first phase makes one. So every tag that a server stores, that a message carries or that a
client has collected is the initial one or that of a write (`TagsMade.of_run`), and what is known of
the tags of the writes holds of all of them.
-/

set_option autoImplicit false
set_option relaxedAutoImplicit false

namespace Colas.Abd

open TransitionSystem

variable {n : ℕ}

/-- The tags that the client has been told have the property. -/
def Client.Told (P : Tag → Prop) : Client → Prop
  | .getMaxTag _ _ _ _ tagList => ∀ tag ∈ tagList, P tag
  | .getMaxTagValue _ _ _ tag data => data ≠ none → P tag
  | _ => True

/-- All tags are made. -/
structure TagsMade (initData : Frame) (s : State n) : Prop where
  clients : ∀ clientId, (s.clients clientId).Told (Made s.history)
  requested : ∀ {i name frames}, (i, name, frames) ∈ s.calls.requests.sent →
    name.phase = .writeValue → Made s.history frames.tagValue
  answered : ∀ {i name frames}, (i, name, frames) ∈ s.calls.answers.sent →
    Made s.history frames.tagValue
  stored : ∀ object i, Made s.history (s.storedTag initData object i)

theorem Client.Told.mono {P Q : Tag → Prop} {client : Client} (h : client.Told P)
    (hPQ : ∀ tag, P tag → Q tag) : client.Told Q := by
  cases client with
  | getMaxTag => exact fun tag htag ↦ hPQ tag (h tag htag)
  | getMaxTagValue => exact fun hdata ↦ hPQ _ (h hdata)
  | _ => trivial

section Steps

variable {strcmp : Strcmp} {initData : Frame} {s t : State n}

theorem tagsMade_initial : TagsMade initData (State.initial : State n) where
  clients := fun _ ↦ trivial
  requested := fun h ↦ absurd h List.not_mem_nil
  answered := fun h ↦ absurd h List.not_mem_nil
  stored := fun object i ↦ Or.inl <| by
    simp [State.storedTag, State.initial, Server.version, Server.initial, contents]

/-- A turn after which the client has been told made tags, and whose requests carry made tags. -/
theorem TagsMade.takeTurn (h : TagsMade initData s) {clientId : CString}
    {turn : Turn n Client Phase}
    (hclient : turn.client.Told (Made (turn.event.toList ++ s.history)))
    (hmulticast : ∀ name content, turn.multicast = some (name, content) →
      name.phase = .writeValue →
        ∀ i, Made (turn.event.toList ++ s.history) (content i).tagValue) :
    TagsMade initData (s.takeTurn clientId turn) := by
  have hmono : ∀ tag, Made s.history tag → Made (turn.event.toList ++ s.history) tag :=
    fun tag hmade ↦ hmade.mono (List.subset_append_right _ _)
  refine
    { clients := (Function.forall_update_iff s.clients fun _ client ↦
        Client.Told (Made (turn.event.toList ++ s.history)) client).mpr
          ⟨hclient, fun other _ ↦ (h.clients other).mono hmono⟩
      requested := fun {i name frames} hmem hphase ↦ ?_
      answered := fun {i name frames} hmem ↦ ?_
      stored := fun object i ↦ hmono _ (h.stored object i) }
  · rcases (turn.mem_requests_sendOn s.calls).mp hmem with ⟨content, hcall, rfl⟩ | hold
    · exact hmulticast name content hcall hphase i
    · exact hmono _ (h.requested hold hphase)
  · rw [calls_takeTurn, Turn.answers_sendOn] at hmem
    exact hmono _ (h.answered hmem)

/-- A turn on a response with a tag that has the property, if the tag of a write that the client
makes in the turn has it. -/
theorem Receives.told {clientId : CString} {heap : Heap} {round : ℕ} {phase : Phase}
    {frames : Body} {client : Client} {turn : Turn n Client Phase}
    (h : Receives strcmp clientId heap round frames phase client turn) {P : Tag → Prop}
    (hclient : client.Told P) (hframes : P frames.tagValue)
    (hnew : ∀ opNum object tag payload,
      turn.event = some (.writeTagged clientId opNum object tag payload) → P tag) :
    turn.client.Told P ∧ ∀ name content, turn.multicast = some (name, content) →
      ∀ i, P (content i).tagValue := by
  have hcontent : ∀ {object : CString} {tag : Tag} {payload : Frame} {name name' : CallId Phase}
      {content : Fin n → Body}, P tag →
      some (name, fun _ ↦ ⟨object, tagToString tag, payload⟩) = some (name', content) →
      ∀ i, P (content i).tagValue := by
    rintro object tag payload name name' content htag ⟨⟩ i
    simpa using htag
  have hmaximum : ∀ {tag : Tag} {data : Option Frame}, (data ≠ none → P tag) →
      (updateMaxTagValue strcmp tag data frames.tagValue frames.payload).2 ≠ none →
        P (updateMaxTagValue strcmp tag data frames.tagValue frames.payload).1 := by
    intro tag data htag hdata
    rcases updateMaxTagValue_eq_or strcmp tag data frames.tagValue frames.payload with heq | heq <;>
      rw [heq] at hdata ⊢
    · exact htag hdata
    · exact hframes
  cases h with
  | stale => exact ⟨hclient, by rintro name content ⟨⟩⟩
  | ended => exact ⟨trivial, by rintro name content ⟨⟩⟩
  | countTag =>
    refine ⟨fun tag htag ↦ ?_, by rintro name content ⟨⟩⟩
    rcases List.mem_append.mp htag with hold | hmem
    · exact hclient tag hold
    · rwa [List.mem_singleton.mp hmem]
  | chooseTag => exact ⟨trivial, fun name content ↦ hcontent (hnew _ _ _ _ rfl)⟩
  | countValue => exact ⟨hmaximum hclient, by rintro name content ⟨⟩⟩
  | chooseValue hmany hvalue =>
    exact ⟨trivial, fun name content ↦ hcontent (hmaximum hclient (by simp [hvalue]))⟩
  | countAck => exact ⟨trivial, by rintro name content ⟨⟩⟩
  | complete => exact ⟨trivial, by rintro name content ⟨⟩⟩

/-- A server stores and reports made tags. -/
theorem TagsMade.serverStep (hshape : Shape initData s) (h : TagsMade initData s) {a : Action n}
    (hstep : ServerStep strcmp initData s a t) : TagsMade initData t := by
  obtain ⟨i, name, frames, server, rfl, hsent, rfl, -, hversion⟩ := hstep.eq hshape
  refine
    { clients := h.clients
      requested := h.requested
      answered := fun {j other body} hmem ↦ ?_
      stored := fun object j ↦ ?_ }
  · rcases List.mem_cons.mp hmem with heq | hold
    · obtain ⟨rfl, rfl, rfl⟩ := by simpa using heq
      have hstored := h.stored frames.object j
      cases hphase : other.phase with
      | getTag => exact (Body.tagValue_tagToString ..).symm ▸ hstored
      | getTagValue => exact (Body.tagValue_tagToString ..).symm ▸ hstored
      | writeValue =>
        have hrequest : Made s.history frames.tagValue := h.requested hsent hphase
        exact hrequest
    · exact h.answered hold
  · rw [State.storedTag, version_handle]
    split_ifs
    · rw [hversion]
      split_ifs with hadopts
      · by_cases hobject : object = frames.object
        · subst hobject
          rw [Function.update_self]
          exact h.requested hsent hadopts.1
        · rw [Function.update_of_ne hobject]
          exact h.stored object i
      · exact h.stored object i
    · exact h.stored object j

/-- Every tag in every run is the initial one or that of a write. -/
theorem TagsMade.of_run {guard : State n → Action n → Prop}
    (run : Run (Abd.step strcmp initData) guard State.initial s) : TagsMade initData s := by
  refine run.invariant_reach tagsMade_initial fun s a t hrun h _ hstep ↦ ?_
  rcases step_cases hstep with hclient | hserver
  · cases hclient with
    | write clientId opNum object payload hidle =>
      exact h.takeTurn (fun tag htag ↦ absurd htag List.not_mem_nil)
        (by rintro name content ⟨⟩ ⟨⟩)
    | read clientId opNum object hidle =>
      exact h.takeTurn (fun hdata ↦ absurd rfl hdata) (by rintro name content ⟨⟩ ⟨⟩)
    | receive i name frames heap turn hsent hturn =>
      have hcollected : TagsMade initData { s with calls := s.calls.collect (i, name, frames) } :=
        { h with }
      have hmono : ∀ tag, Made s.history tag → Made (turn.event.toList ++ s.history) tag :=
        fun tag hmade ↦ hmade.mono (List.subset_append_right _ _)
      obtain ⟨hclient, hmulticast⟩ := hturn.told ((h.clients name.client).mono hmono)
        (hmono _ (h.answered hsent)) fun opNum object tag payload hevent ↦
          Or.inr ⟨_, opNum, object, payload, by rw [hevent]; exact List.mem_cons_self⟩
      exact hcollected.takeTurn hclient fun other content hcall _ ↦ hmulticast other content hcall
  · exact h.serverStep (Shape.of_run hrun) hserver

end Steps

end Colas.Abd
