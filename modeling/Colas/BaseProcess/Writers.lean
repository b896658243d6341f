import Colas.BaseProcess.Client
import Colas.BaseProcess.ObjectStore

/-!
# Sequential writers do not repeat a tag

The tag of a write carries the id of its client, so two writes with one tag are writes of one
client, and a client runs its writes one after the other. What remains is that a write chooses a
version number above those of the earlier writes of its client on the object. `fenced` stands for
whatever the protocol at hand makes of that: a version number that is fenced for an operation is
below every number that the operation can choose.

`Stage` is what matters of a client process, and `Move` lists the moves between stages with the
events that go with them. `SequentialWriters` is the invariant; `SequentialWriters.move` keeps it
along every move, and its last field is the conclusion.

The last section is about single tags. `Made` says that a tag is the initial one or that of a write,
and the buffers and the `int` of the program hold it if `ShortTags` and `IncreasableTags` say so of
the tags of the writes.
-/

set_option autoImplicit false
set_option relaxedAutoImplicit false

namespace Colas

/-- Where a client is with its writes. -/
inductive Stage
  /-- It runs no write. -/
  | resting
  /-- It collects tags for a write. -/
  | choosing (opnum : ℕ) (object : CString)
  /-- It stores its payload under a tag. -/
  | storing (opnum : ℕ) (object : CString) (tag : Tag)
  /-- The process has ended. -/
  | ended

/-- The moves of a client, from a stage to a stage with the event that the outside sees. -/
inductive Move (history : List Event) (fenced fenced' : CString → ℕ → CString → ℤ → Prop)
    (client : CString) : Stage → Option Event → Stage → Prop
  | stay (stage : Stage) : Move history fenced fenced' client stage none stage
  | leave (stage : Stage) : Move history fenced fenced' client stage none .ended
  | readInvoked (opnum : ℕ) (object : CString) : Move history fenced fenced' client .resting
      (some (.readInvoked client opnum object)) .resting
  | readTagged (opnum : ℕ) (object : CString) (tag : Tag) (value : Option Frame) :
    Move history fenced fenced' client .resting
      (some (.readTagged client opnum object tag value)) .resting
  | readCompleted (opnum : ℕ) (object : CString) (tag : Tag) (value : Frame) :
    Move history fenced fenced' client .resting
      (some (.readCompleted client opnum object tag value)) .resting
  /-- A write starts under a new number; the version numbers of completed writes are fenced. -/
  | invoke (opnum : ℕ) (object : CString) (payload : Frame)
    (hfresh : ¬ Invoked history client opnum)
    (hfence : ∀ opnum' tag, .writeCompleted client opnum' object tag ∈ history →
      fenced' client opnum object tag.number) :
    Move history fenced fenced' client .resting
      (some (.writeInvoked client opnum object payload)) (.choosing opnum object)
  /-- A write chooses a version number above the fenced ones. -/
  | choose (opnum : ℕ) (object : CString) (tag : Tag) (payload : Frame) (hid : tag.id = client)
    (hinvoked : Invoked history client opnum)
    (habove : ∀ z, fenced client opnum object z → z < tag.number) :
    Move history fenced fenced' client (.choosing opnum object)
      (some (.writeTagged client opnum object tag payload)) (.storing opnum object tag)
  | complete (opnum : ℕ) (object : CString) (tag : Tag) :
    Move history fenced fenced' client (.storing opnum object tag)
      (some (.writeCompleted client opnum object tag)) .resting

/-- What sequential clients guarantee about the writes of a history. -/
structure SequentialWriters (history : List Event) (stage : CString → Stage)
    (fenced : CString → ℕ → CString → ℤ → Prop) : Prop where
  /-- A write that has chosen its tag has returned, or its client is storing it, or has ended. -/
  finished : ∀ {client opnum object tag payload},
    .writeTagged client opnum object tag payload ∈ history →
      .writeCompleted client opnum object tag ∈ history ∨
        stage client = .storing opnum object tag ∨ stage client = .ended
  /-- A write that has chosen its tag was invoked, and the tag carries the id of the client. -/
  invoked : ∀ {client opnum object tag payload},
    .writeTagged client opnum object tag payload ∈ history →
      Invoked history client opnum ∧ tag.id = client
  /-- A write that is choosing its tag has none, and the earlier ones of its client are fenced. -/
  pending : ∀ {client opnum object}, stage client = .choosing opnum object →
    (∀ object' tag payload, .writeTagged client opnum object' tag payload ∉ history) ∧
      ∀ opnum' tag payload, .writeTagged client opnum' object tag payload ∈ history →
        fenced client opnum object tag.number
  /-- No two writes have the same tag on one object. -/
  unique : ∀ {client client' opnum opnum' object tag payload payload'},
    .writeTagged client opnum object tag payload ∈ history →
      .writeTagged client' opnum' object tag payload' ∈ history →
        client = client' ∧ opnum = opnum' ∧ payload = payload'

section Moves

variable {history : List Event} {stage : CString → Stage}
  {fenced fenced' : CString → ℕ → CString → ℤ → Prop}

theorem sequentialWriters_nil (hresting : ∀ client, stage client = .resting) :
    SequentialWriters [] stage fenced where
  finished := fun h ↦ absurd h List.not_mem_nil
  invoked := fun h ↦ absurd h List.not_mem_nil
  pending := fun {client} _ _ h ↦ by simp [hresting client] at h
  unique := fun h ↦ absurd h List.not_mem_nil

/-- While nothing happens to the clients, the invariant is kept if the fences are. -/
theorem SequentialWriters.mono (h : SequentialWriters history stage fenced)
    (hfenced : ∀ client opnum object z, fenced client opnum object z →
      fenced' client opnum object z) : SequentialWriters history stage fenced' where
  finished := h.finished
  invoked := h.invoked
  pending := fun hstage ↦ ⟨(h.pending hstage).1, fun opnum' tag payload hmem ↦
    hfenced _ _ _ _ ((h.pending hstage).2 opnum' tag payload hmem)⟩
  unique := h.unique

/-- An event that chooses no tag leaves the writes of the history as they are. -/
theorem mem_of_ne_writeTagged {event : Option Event} {client : CString} {opnum : ℕ}
    {object : CString} {tag : Tag} {payload : Frame}
    (hne : event ≠ some (.writeTagged client opnum object tag payload))
    (h : .writeTagged client opnum object tag payload ∈ event.toList ++ history) :
    .writeTagged client opnum object tag payload ∈ history := by
  rcases List.mem_append.mp h with hnew | hold
  · exact absurd (Option.mem_toList.mp hnew) hne
  · exact hold

/-- The invariant after a move whose event chooses no tag. -/
theorem SequentialWriters.untagged (h : SequentialWriters history stage fenced)
    (hfenced : ∀ client opnum object z, fenced client opnum object z →
      fenced' client opnum object z)
    {client : CString} {event : Option Event} {next : Stage}
    (hevent : ∀ other opnum object tag payload,
      event ≠ some (.writeTagged other opnum object tag payload))
    (hover : ∀ {opnum object tag}, stage client = .storing opnum object tag ∨
      stage client = .ended → event = some (.writeCompleted client opnum object tag) ∨
        next = .storing opnum object tag ∨ next = .ended)
    (hpending : ∀ {opnum object}, next = .choosing opnum object →
      (∀ object' tag payload, .writeTagged client opnum object' tag payload ∉ history) ∧
        ∀ opnum' tag payload, .writeTagged client opnum' object tag payload ∈ history →
          fenced' client opnum object tag.number) :
    SequentialWriters (event.toList ++ history) (Function.update stage client next) fenced' where
  finished := fun {other opnum object tag payload} hmem ↦ by
    have hold := h.finished (mem_of_ne_writeTagged (hevent _ _ _ _ _) hmem)
    by_cases hother : other = client
    · subst hother
      rw [Function.update_self]
      rcases hold with hcompleted | hstage
      · exact Or.inl (List.mem_append_right _ hcompleted)
      · exact (hover hstage).imp_left fun heq ↦
          List.mem_append_left _ (Option.mem_toList.mpr heq)
    · rw [Function.update_of_ne hother]
      exact hold.imp_left (List.mem_append_right _)
  invoked := fun hmem ↦ by
    obtain ⟨hinvoked, hid⟩ := h.invoked (mem_of_ne_writeTagged (hevent _ _ _ _ _) hmem)
    exact ⟨hinvoked.mono (List.subset_append_right _ _), hid⟩
  pending := fun {other opnum object} hstage ↦ by
    have hcase : (∀ object' tag payload,
        .writeTagged other opnum object' tag payload ∉ history) ∧
          ∀ opnum' tag payload, .writeTagged other opnum' object tag payload ∈ history →
            fenced' other opnum object tag.number := by
      by_cases hother : other = client
      · subst hother
        rw [Function.update_self] at hstage
        exact hpending hstage
      · rw [Function.update_of_ne hother] at hstage
        exact (h.mono hfenced).pending hstage
    exact ⟨fun object' tag payload hmem ↦
        hcase.1 object' tag payload (mem_of_ne_writeTagged (hevent _ _ _ _ _) hmem),
      fun opnum' tag payload hmem ↦
        hcase.2 opnum' tag payload (mem_of_ne_writeTagged (hevent _ _ _ _ _) hmem)⟩
  unique := fun hmem hmem' ↦
    h.unique (mem_of_ne_writeTagged (hevent _ _ _ _ _) hmem)
      (mem_of_ne_writeTagged (hevent _ _ _ _ _) hmem')

/-- The invariant after a write has chosen its tag. -/
theorem SequentialWriters.tagged (h : SequentialWriters history stage fenced)
    (hfenced : ∀ client opnum object z, fenced client opnum object z →
      fenced' client opnum object z)
    {client : CString} {opnum : ℕ} {object : CString} {tag : Tag} {payload : Frame}
    (hstage : stage client = .choosing opnum object) (hid : tag.id = client)
    (hinvoked : Invoked history client opnum)
    (habove : ∀ z, fenced client opnum object z → z < tag.number) :
    SequentialWriters (.writeTagged client opnum object tag payload :: history)
      (Function.update stage client (.storing opnum object tag)) fenced' := by
  obtain ⟨hnone, hfence⟩ := h.pending hstage
  -- no earlier write has the tag, because it would be a smaller one of the same client
  have hnew : ∀ {other opnum' payload'},
      .writeTagged other opnum' object tag payload' ∉ history := by
    intro other opnum' payload' hmem
    obtain rfl : client = other := hid.symm.trans (h.invoked hmem).2
    exact lt_irrefl _ (habove _ (hfence _ _ _ hmem))
  refine
    { finished := fun {other opnum' object' tag' payload'} hmem ↦ ?_
      invoked := fun {other opnum' object' tag' payload'} hmem ↦ ?_
      pending := fun {other opnum' object'} hnext ↦ ?_
      unique := fun {other other' opnum' opnum'' object' tag' payload' payload''} hmem hmem' ↦ ?_ }
  · by_cases hother : other = client
    · subst hother
      rw [Function.update_self]
      rcases List.mem_cons.mp hmem with heq | hold
      · obtain ⟨-, rfl, rfl, rfl, -⟩ := Event.writeTagged.inj heq
        exact Or.inr (Or.inl rfl)
      · refine Or.inl (List.mem_cons_of_mem _ ?_)
        exact (h.finished hold).resolve_right (by simp [hstage])
    · rw [Function.update_of_ne hother]
      rcases List.mem_cons.mp hmem with heq | hold
      · exact absurd (Event.writeTagged.inj heq).1 hother
      · exact (h.finished hold).imp_left (List.mem_cons_of_mem _)
  · rcases List.mem_cons.mp hmem with heq | hold
    · obtain ⟨rfl, rfl, rfl, rfl, rfl⟩ := Event.writeTagged.inj heq
      exact ⟨hinvoked.mono (List.subset_cons_self _ _), hid⟩
    · obtain ⟨hinvoked', hid'⟩ := h.invoked hold
      exact ⟨hinvoked'.mono (List.subset_cons_self _ _), hid'⟩
  · by_cases hother : other = client
    · subst hother
      simp at hnext
    · rw [Function.update_of_ne hother] at hnext
      obtain ⟨hnone', hfence'⟩ := (h.mono hfenced).pending hnext
      refine ⟨fun object'' tag' payload' hmem ↦ ?_, fun opnum'' tag' payload' hmem ↦ ?_⟩
      · rcases List.mem_cons.mp hmem with heq | hold
        · exact hother (Event.writeTagged.inj heq).1
        · exact hnone' _ _ _ hold
      · rcases List.mem_cons.mp hmem with heq | hold
        · exact absurd (Event.writeTagged.inj heq).1 hother
        · exact hfence' _ _ _ hold
  · rcases List.mem_cons.mp hmem with heq | hold <;> rcases List.mem_cons.mp hmem' with heq' | hold'
    · obtain ⟨rfl, rfl, rfl, rfl, rfl⟩ := Event.writeTagged.inj heq
      obtain ⟨rfl, rfl, -, -, rfl⟩ := Event.writeTagged.inj heq'
      exact ⟨rfl, rfl, rfl⟩
    · obtain ⟨rfl, rfl, rfl, rfl, rfl⟩ := Event.writeTagged.inj heq
      exact absurd hold' hnew
    · obtain ⟨rfl, rfl, rfl, rfl, rfl⟩ := Event.writeTagged.inj heq'
      exact absurd hold hnew
    · exact h.unique hold hold'

/-- Every move keeps the invariant. -/
theorem SequentialWriters.move (h : SequentialWriters history stage fenced)
    (hfenced : ∀ client opnum object z, fenced client opnum object z →
      fenced' client opnum object z)
    {client : CString} {event : Option Event} {next : Stage}
    (hmove : Move history fenced fenced' client (stage client) event next) :
    SequentialWriters (event.toList ++ history) (Function.update stage client next) fenced' := by
  generalize hstage : stage client = current at hmove
  cases hmove with
  | stay =>
    exact h.untagged hfenced (by simp) (fun hcase ↦ Or.inr (by rwa [← hstage]))
      fun hnext ↦ (h.mono hfenced).pending (hstage.trans hnext)
  | leave => exact h.untagged hfenced (by simp) (by simp) (by simp)
  | readInvoked => exact h.untagged hfenced (by simp) (by simp [hstage]) (by simp)
  | readTagged => exact h.untagged hfenced (by simp) (by simp [hstage]) (by simp)
  | readCompleted => exact h.untagged hfenced (by simp) (by simp [hstage]) (by simp)
  | invoke opnum object payload hfresh hfence =>
    refine h.untagged hfenced (by simp) (by simp [hstage]) ?_
    rintro opnum' object' ⟨⟩
    refine ⟨fun object' tag payload hmem ↦ hfresh (h.invoked hmem).1,
      fun opnum' tag payload hmem ↦ hfence opnum' tag ?_⟩
    exact (h.finished hmem).resolve_right (by simp [hstage])
  | choose opnum object tag payload hid hinvoked habove =>
    exact h.tagged hfenced hstage hid hinvoked habove
  | complete => exact h.untagged hfenced (by simp) (by simp [hstage]) (by simp)

end Moves

/-! ### The tags that writers make -/

/-- The tag is the initial one, or that of a write. -/
def Made (history : List Event) (tag : Tag) : Prop :=
  tag = initTag ∨ ∃ client opnum object payload,
    .writeTagged client opnum object tag payload ∈ history

theorem Made.mono {history history' : List Event} {tag : Tag} (h : Made history tag)
    (hsub : history ⊆ history') : Made history' tag := by
  rcases h with hinit | ⟨client, opnum, object, payload, hmem⟩
  · exact Or.inl hinit
  · exact Or.inr ⟨client, opnum, object, payload, hsub hmem⟩

/-- The tags of the writes fit into the buffer of `get_object_tag`. -/
def ShortTags (history : List Event) : Prop :=
  ∀ client opnum object tag payload,
    .writeTagged client opnum object tag payload ∈ history → tag.Short

/-- The version numbers of the writes are not the greatest `int`. -/
def IncreasableTags (history : List Event) : Prop :=
  ∀ client opnum object tag payload,
    .writeTagged client opnum object tag payload ∈ history → tag.number < 2 ^ 31 - 1

theorem ShortTags.of_made {history : List Event} {tag : Tag} (h : ShortTags history)
    (hmade : Made history tag) : tag.Short := by
  rcases hmade with rfl | ⟨client, opnum, object, payload, hmem⟩
  · exact short_initTag
  · exact h client opnum object tag payload hmem

theorem ShortTags.mono {history history' : List Event} (h : ShortTags history')
    (hsub : history ⊆ history') : ShortTags history :=
  fun client opnum object tag payload hmem ↦ h client opnum object tag payload (hsub hmem)

theorem IncreasableTags.of_made {history : List Event} {tag : Tag} (h : IncreasableTags history)
    (hmade : Made history tag) : tag.number < 2 ^ 31 - 1 := by
  rcases hmade with rfl | ⟨client, opnum, object, payload, hmem⟩
  · decide
  · exact h client opnum object tag payload hmem

end Colas
