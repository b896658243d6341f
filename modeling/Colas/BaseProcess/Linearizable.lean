import Colas.BaseProcess.Client
import Colas.Library.Linearization

/-!
# Linearizable histories

`Linearizable` is what an application may expect of a shared object, whatever the protocol: the
operations that have returned, together with some of those that still run, can be put into one order
in which a single register could have done them, and in which no operation stands before one that
had returned when it started. It does not mention tags.

`linearizable_of_tags` derives it from what the protocols say of their tags. It needs that the
events of every operation come in their order (`Traced`): an operation starts, chooses its tag, and
returns, each once. The order is the one of the tags (`Linearization.Stamps.order`).
-/

set_option autoImplicit false
set_option relaxedAutoImplicit false

namespace Colas

open Linearization

/-! ### The events of an operation -/

/-- The client of the operation of an event. -/
def Event.client : Event → CString
  | .writeInvoked client _ _ _ => client
  | .writeTagged client _ _ _ _ => client
  | .writeCompleted client _ _ _ => client
  | .readInvoked client _ _ => client
  | .readTagged client _ _ _ _ => client
  | .readCompleted client _ _ _ _ => client

/-- The number of the operation of an event. -/
def Event.opnum : Event → ℕ
  | .writeInvoked _ opnum _ _ => opnum
  | .writeTagged _ opnum _ _ _ => opnum
  | .writeCompleted _ opnum _ _ => opnum
  | .readInvoked _ opnum _ => opnum
  | .readTagged _ opnum _ _ _ => opnum
  | .readCompleted _ opnum _ _ _ => opnum

/-- The events of the operation of a client under a number, newest first. -/
def eventsOf (history : List Event) (client : CString) (opnum : ℕ) : List Event :=
  history.filter fun e ↦ e.client = client && e.opnum = opnum

/-- What an operation has done so far: nothing, or a part of a write or of a read. -/
inductive Trace (client : CString) (opnum : ℕ) : List Event → Prop
  | new : Trace client opnum []
  | writeInvoked (object : CString) (payload : Frame) :
    Trace client opnum [.writeInvoked client opnum object payload]
  | writeTagged (object : CString) (payload : Frame) (tag : Tag) :
    Trace client opnum [.writeTagged client opnum object tag payload,
      .writeInvoked client opnum object payload]
  | writeCompleted (object : CString) (payload : Frame) (tag : Tag) :
    Trace client opnum [.writeCompleted client opnum object tag,
      .writeTagged client opnum object tag payload, .writeInvoked client opnum object payload]
  | readInvoked (object : CString) : Trace client opnum [.readInvoked client opnum object]
  | readTagged (object : CString) (tag : Tag) (value : Option Frame) :
    Trace client opnum [.readTagged client opnum object tag value,
      .readInvoked client opnum object]
  | readCompleted (object : CString) (tag : Tag) (chosen : Option Frame) (value : Frame) :
    Trace client opnum [.readCompleted client opnum object tag value,
      .readTagged client opnum object tag chosen, .readInvoked client opnum object]

/-- At every time, every operation has done a part of a write or of a read. -/
def Traced (history : List Event) : Prop :=
  ∀ earlier, earlier <:+ history →
    ∀ client opnum, Trace client opnum (eventsOf earlier client opnum)

section Traces

variable {history : List Event} {client : CString} {opnum : ℕ} {e : Event}

theorem mem_eventsOf : e ∈ eventsOf history client opnum ↔
    e ∈ history ∧ e.client = client ∧ e.opnum = opnum := by
  simp [eventsOf]

theorem eventsOf_cons_self (e : Event) (history : List Event) :
    eventsOf (e :: history) e.client e.opnum = e :: eventsOf history e.client e.opnum := by
  simp [eventsOf]

theorem eventsOf_cons_of_ne (hne : ¬ (e.client = client ∧ e.opnum = opnum)) :
    eventsOf (e :: history) client opnum = eventsOf history client opnum :=
  List.filter_cons_of_neg (by simpa using hne)

theorem eventsOf_append (later earlier : List Event) (client : CString) (opnum : ℕ) :
    eventsOf (later ++ earlier) client opnum =
      eventsOf later client opnum ++ eventsOf earlier client opnum :=
  List.filter_append ..

/-- The operations of other clients have no new events. -/
theorem eventsOf_other {event : Option Event} (hother : ∀ e, event = some e → e.client ≠ client) :
    eventsOf (event.toList ++ history) client = eventsOf history client := by
  funext opnum
  rcases event with - | e
  · rfl
  · exact eventsOf_cons_of_ne fun hown ↦ hother e rfl hown.1

theorem traced_nil : Traced [] := by
  intro earlier hsuffix client opnum
  obtain rfl := List.suffix_nil.mp hsuffix
  exact .new

/-- A history stays traced if the new event continues its operation. -/
theorem Traced.cons (h : Traced history)
    (he : Trace e.client e.opnum (e :: eventsOf history e.client e.opnum)) :
    Traced (e :: history) := by
  intro earlier hsuffix client opnum
  rcases List.suffix_cons_iff.mp hsuffix with rfl | hold
  · by_cases hown : e.client = client ∧ e.opnum = opnum
    · obtain ⟨rfl, rfl⟩ := hown
      rwa [eventsOf_cons_self]
    · rw [eventsOf_cons_of_ne hown]
      exact h history List.suffix_rfl client opnum
  · exact h earlier hold client opnum

theorem Traced.append (h : Traced history) {event : Option Event}
    (hevent : ∀ e, event = some e →
      Trace e.client e.opnum (e :: eventsOf history e.client e.opnum)) :
    Traced (event.toList ++ history) := by
  rcases event with - | e
  · exact h
  · exact h.cons (hevent e rfl)

theorem Traced.trace (h : Traced history) (client : CString) (opnum : ℕ) :
    Trace client opnum (eventsOf history client opnum) :=
  h history List.suffix_rfl client opnum

theorem Traced.suffix {earlier : List Event} (h : Traced history) (hsuffix : earlier <:+ history) :
    Traced earlier :=
  fun other hother ↦ h other (hother.trans hsuffix)

/-- An operation that has any event was invoked. -/
theorem Trace.invoked {events : List Event} (h : Trace client opnum events) (he : e ∈ events) :
    Invoked events client opnum := by
  cases h with
  | new => exact absurd he List.not_mem_nil
  | writeInvoked object payload => exact Or.inl ⟨object, payload, by simp⟩
  | writeTagged object payload tag => exact Or.inl ⟨object, payload, by simp⟩
  | writeCompleted object payload tag => exact Or.inl ⟨object, payload, by simp⟩
  | readInvoked object => exact Or.inr ⟨object, by simp⟩
  | readTagged object tag value => exact Or.inr ⟨object, by simp⟩
  | readCompleted object tag chosen value => exact Or.inr ⟨object, by simp⟩

/-- An operation that was not invoked has no events. -/
theorem Traced.eventsOf_eq_nil (h : Traced history) (hnew : ¬ Invoked history client opnum) :
    eventsOf history client opnum = [] := by
  refine List.eq_nil_iff_forall_not_mem.mpr fun e he ↦ hnew ?_
  exact ((h.trace client opnum).invoked he).mono fun e he ↦ (mem_eventsOf.mp he).1

theorem Trace.length_le {events : List Event} (h : Trace client opnum events) :
    events.length ≤ 3 := by
  cases h <;> simp

end Traces

/-! ### Operations -/

/-- An operation with what it does to its object. -/
structure Operation where
  /-- The client. -/
  client : CString
  /-- The number of the operation. -/
  opnum : ℕ
  /-- What it writes, or what it returns. -/
  effect : Effect Frame
  deriving DecidableEq

/-- The event with which the operation starts. -/
def Operation.invocation (object : CString) (op : Operation) : Event :=
  match op.effect with
  | .write payload => .writeInvoked op.client op.opnum object payload
  | .read _ => .readInvoked op.client op.opnum object

/-- The operation has returned. -/
def Operation.Returned (history : List Event) (object : CString) (op : Operation) : Prop :=
  match op.effect with
  | .write _ => ∃ tag, .writeCompleted op.client op.opnum object tag ∈ history
  | .read value => ∃ tag, .readCompleted op.client op.opnum object tag value ∈ history

/-- The first operation had returned when the second one started. -/
def Precedes (history : List Event) (object : CString) (first second : Operation) : Prop :=
  ∃ later earlier, history = later ++ second.invocation object :: earlier ∧
    first.Returned earlier object

/-- An order in which a single register, which holds a value first, could have done the operations
of a history on an object. -/
structure IsLinearization (initial : Frame) (object : CString) (history : List Event)
    (order : List Operation) : Prop where
  /-- A register could have done them in this order. -/
  legal : Legal initial (order.map Operation.effect)
  /-- No operation stands twice in the order. -/
  distinct : (order.map fun op ↦ (op.client, op.opnum)).Nodup
  /-- They were started. -/
  invoked : ∀ op ∈ order, op.invocation object ∈ history
  /-- All operations that have returned are among them. -/
  complete : ∀ op, op.invocation object ∈ history → op.Returned history object → op ∈ order
  /-- No operation stands before one that had returned when it started. -/
  realTime : order.Pairwise fun a b ↦ ¬ Precedes history object b a

/-- The history of the object is one of a single register. -/
def Linearizable (initial : Frame) (object : CString) (history : List Event) : Prop :=
  ∃ order, IsLinearization initial object history order

/-! ### The operations by their tags -/

/-- The operation that takes effect with the event, and its tag: a write when it has chosen its tag,
and a read when it returns. -/
def Event.effective (object : CString) : Event → Option (Operation × Tag)
  | .writeTagged client opnum object' tag payload =>
    if object' = object then some (⟨client, opnum, .write payload⟩, tag) else none
  | .readCompleted client opnum object' tag value =>
    if object' = object then some (⟨client, opnum, .read value⟩, tag) else none
  | _ => none

/-- The time at which the operation started: the number of events up to its invocation. -/
def startOf (history : List Event) (op : Operation) : ℕ :=
  (history.dropWhile fun e ↦ !e.invokes op.client op.opnum).length

/-- The operations of a history with their tags and starts. -/
def historyStamps (history : List Event) : Stamps (Operation × Tag) Tag Frame where
  effect := fun stamped ↦ stamped.1.effect
  tag := Prod.snd
  start := fun stamped ↦ startOf history stamped.1

section Effective

variable {history : List Event} {object : CString} {op : Operation} {tag : Tag}

/-- The event with which the operation takes effect under the tag. -/
def Operation.takesEffect (object : CString) (op : Operation) (tag : Tag) : Event :=
  match op.effect with
  | .write payload => .writeTagged op.client op.opnum object tag payload
  | .read value => .readCompleted op.client op.opnum object tag value

theorem effective_eq_some_iff {e : Event} :
    e.effective object = some (op, tag) ↔ e = op.takesEffect object tag := by
  obtain ⟨client, opnum, payload | value⟩ := op
  · cases e <;> simp [Event.effective, Operation.takesEffect]
    tauto
  · cases e <;> simp [Event.effective, Operation.takesEffect]
    tauto

theorem mem_effective : (op, tag) ∈ history.filterMap (Event.effective object) ↔
    op.takesEffect object tag ∈ history := by
  simp [List.mem_filterMap, effective_eq_some_iff]

/-- An operation that takes effect was invoked. -/
theorem Trace.invocation_mem {events : List Event} (h : Trace op.client op.opnum events)
    (heffect : op.takesEffect object tag ∈ events) : op.invocation object ∈ events := by
  obtain ⟨client, opnum, payload | value⟩ := op <;> cases h <;>
    simp_all [Operation.takesEffect, Operation.invocation]

/-- An operation that has returned has taken effect. -/
theorem Trace.exists_takesEffect {events : List Event} (h : Trace op.client op.opnum events)
    (hinvoked : op.invocation object ∈ events) (hreturned : op.Returned events object) :
    ∃ tag, op.takesEffect object tag ∈ events := by
  obtain ⟨client, opnum, payload | value⟩ := op
  · obtain ⟨tag, hcompleted⟩ := hreturned
    refine ⟨tag, ?_⟩
    cases h <;> simp_all [Operation.takesEffect, Operation.invocation]
  · exact hreturned

/-- An operation that has returned has done everything. -/
theorem Trace.length_eq_of_returned {events : List Event} (h : Trace op.client op.opnum events)
    (hreturned : op.Returned events object) : events.length = 3 := by
  obtain ⟨client, opnum, payload | value⟩ := op <;> obtain ⟨tag, hmem⟩ := hreturned <;>
    cases h <;> simp_all

/-- An operation returns with the tag with which it takes effect. -/
theorem Trace.completed {events earlier : List Event} (h : Trace op.client op.opnum events)
    (hsub : earlier ⊆ events) (hreturned : op.Returned earlier object)
    (heffect : op.takesEffect object tag ∈ events) : Completed earlier object tag := by
  obtain ⟨client, opnum, payload | value⟩ := op <;> obtain ⟨tag', hmem⟩ := hreturned
  · have hcompleted := hsub hmem
    obtain rfl : tag' = tag := by
      cases h <;> simp_all [Operation.takesEffect]
    exact Or.inl ⟨client, opnum, hmem⟩
  · have hcompleted := hsub hmem
    obtain rfl : tag' = tag := by
      cases h <;> simp_all [Operation.takesEffect]
    exact Or.inr ⟨client, opnum, value, hmem⟩

/-- An operation starts with its invocation. -/
theorem Trace.eq_nil_of_invocation {events : List Event} {client : CString} {opnum : ℕ}
    (h : Trace client opnum (op.invocation object :: events)) : events = [] := by
  obtain ⟨other, number, payload | value⟩ := op <;> cases h <;> rfl

/-- An operation takes effect once. -/
theorem Trace.takesEffect_unique {events : List Event} {client : CString} {opnum : ℕ}
    {e : Event} (h : Trace client opnum (e :: events)) (he : e = op.takesEffect object tag)
    (op' : Operation) (tag' : Tag) : op'.takesEffect object tag' ∉ events := by
  obtain ⟨other, number, payload | value⟩ := op <;>
    obtain ⟨other', number', payload' | value'⟩ := op' <;>
      cases h <;> simp_all [Operation.takesEffect]

end Effective

section Order

variable {history earlier later : List Event} {object : CString} {op op' : Operation} {tag : Tag}

theorem client_invocation (op : Operation) (object : CString) :
    (op.invocation object).client = op.client ∧ (op.invocation object).opnum = op.opnum := by
  obtain ⟨client, opnum, payload | value⟩ := op <;> exact ⟨rfl, rfl⟩

theorem client_takesEffect (op : Operation) (object : CString) (tag : Tag) :
    (op.takesEffect object tag).client = op.client ∧
      (op.takesEffect object tag).opnum = op.opnum := by
  obtain ⟨client, opnum, payload | value⟩ := op <;> exact ⟨rfl, rfl⟩

theorem invocation_mem_eventsOf :
    op.invocation object ∈ eventsOf history op.client op.opnum ↔
      op.invocation object ∈ history := by
  rw [mem_eventsOf, and_iff_left (client_invocation op object)]

theorem takesEffect_mem_eventsOf :
    op.takesEffect object tag ∈ eventsOf history op.client op.opnum ↔
      op.takesEffect object tag ∈ history := by
  rw [mem_eventsOf, and_iff_left (client_takesEffect op object tag)]

theorem returned_eventsOf :
    op.Returned (eventsOf history op.client op.opnum) object ↔ op.Returned history object := by
  obtain ⟨client, opnum, payload | value⟩ := op <;>
    simp [Operation.Returned, mem_eventsOf, Event.client, Event.opnum]

theorem Completed.mono {history' : List Event} (h : Completed history object tag)
    (hsub : history ⊆ history') : Completed history' object tag := by
  rcases h with ⟨client, opnum, h⟩ | ⟨client, opnum, value, h⟩
  · exact Or.inl ⟨client, opnum, hsub h⟩
  · exact Or.inr ⟨client, opnum, value, hsub h⟩

/-- An operation that had returned by some time had completed with its tag. -/
theorem Traced.completed (h : Traced history) (hsuffix : earlier <:+ history)
    (hreturned : op.Returned earlier object) (heffect : op.takesEffect object tag ∈ history) :
    Completed earlier object tag := by
  refine Completed.mono ((h.trace op.client op.opnum).completed ?_
    (returned_eventsOf.mpr hreturned) (takesEffect_mem_eventsOf.mpr heffect))
    fun e he ↦ (mem_eventsOf.mp he).1
  exact fun e he ↦ mem_eventsOf.mpr ⟨hsuffix.subset (mem_eventsOf.mp he).1, (mem_eventsOf.mp he).2⟩

/-- An operation takes effect after its invocation. -/
theorem Traced.takesEffect_later (h : Traced history)
    (hsplit : history = later ++ op.invocation object :: earlier)
    (heffect : op.takesEffect object tag ∈ history) : op.takesEffect object tag ∈ later := by
  have hstart := h (op.invocation object :: earlier) ⟨later, hsplit.symm⟩ op.client op.opnum
  rw [← (client_invocation op object).1, ← (client_invocation op object).2, eventsOf_cons_self,
    (client_invocation op object).1, (client_invocation op object).2] at hstart
  rw [hsplit] at heffect
  rcases List.mem_append.mp heffect with hlater | hrest
  · exact hlater
  · rcases List.mem_cons.mp hrest with heq | hearlier
    · obtain ⟨client, opnum, payload | value⟩ := op <;> exact absurd heq Event.noConfusion
    · have hmem := takesEffect_mem_eventsOf.mpr hearlier
      rw [hstart.eq_nil_of_invocation] at hmem
      exact absurd hmem List.not_mem_nil

theorem invokes_invocation (op : Operation) (object : CString) :
    (op.invocation object).invokes op.client op.opnum = true := by
  obtain ⟨client, opnum, payload | value⟩ := op <;> simp [Operation.invocation, Event.invokes]

theorem client_of_invokes {client : CString} {opnum : ℕ} {e : Event}
    (h : e.invokes client opnum = true) : e.client = client ∧ e.opnum = opnum := by
  cases e <;> simp_all [Event.invokes, Event.client, Event.opnum]

/-- An operation that had returned when another one started has started before it. -/
theorem Traced.startOf_lt (h : Traced history)
    (hsplit : history = later ++ op'.invocation object :: earlier)
    (hreturned : op.Returned earlier object) : startOf history op < startOf history op' := by
  have hown : history = (later ++ [op'.invocation object]) ++ earlier := by simp [hsplit]
  -- all events of the operation that has returned are earlier
  have hdone : (eventsOf earlier op.client op.opnum).length = 3 :=
    (h earlier ⟨_, hown.symm⟩ op.client op.opnum).length_eq_of_returned
      (returned_eventsOf.mpr hreturned)
  have hall := (h.trace op.client op.opnum).length_le
  rw [hown, eventsOf_append, List.length_append, hdone] at hall
  have hnone : eventsOf (later ++ [op'.invocation object]) op.client op.opnum = [] :=
    List.length_eq_zero_iff.mp (by omega)
  have hle : startOf history op ≤ earlier.length := by
    rw [startOf, hown, List.dropWhile_append_of_pos fun e he ↦ ?_]
    · exact (List.dropWhile_suffix _).length_le
    · rw [Bool.not_eq_true']
      refine Bool.eq_false_iff.mpr fun hinvokes ↦ ?_
      have hmem := mem_eventsOf.mpr ⟨he, client_of_invokes hinvokes⟩
      rw [hnone] at hmem
      exact absurd hmem List.not_mem_nil
  have hlt : earlier.length < startOf history op' := by
    rw [startOf, hsplit, List.dropWhile_append]
    have hstop : (op'.invocation object :: earlier).dropWhile
        (fun e ↦ !e.invokes op'.client op'.opnum) = op'.invocation object :: earlier := by
      rw [List.dropWhile_cons_of_neg (by simp [invokes_invocation])]
    split_ifs
    · rw [hstop, List.length_cons]
      exact Nat.lt_succ_self _
    · rw [List.length_append, List.length_cons]
      omega
  exact lt_of_le_of_lt hle hlt

/-- No operation takes effect twice. -/
theorem Traced.nodup_effective (h : Traced history) (object : CString) :
    ((history.filterMap (Event.effective object)).map fun stamped ↦
      (stamped.1.client, stamped.1.opnum)).Nodup := by
  induction history with
  | nil => exact List.nodup_nil
  | cons e history ih =>
    have hrest := ih (h.suffix (List.suffix_cons e history))
    rcases heffective : e.effective object with - | ⟨op, tag⟩
    · rwa [List.filterMap_cons_none heffective]
    · rw [List.filterMap_cons_some heffective, List.map_cons, List.nodup_cons]
      refine ⟨fun hmem ↦ ?_, hrest⟩
      obtain ⟨⟨op', tag'⟩, hother, hkey⟩ := List.mem_map.mp hmem
      obtain ⟨hclient, hopnum⟩ := Prod.mk.inj hkey
      have he := effective_eq_some_iff.mp heffective
      have htrace := h.trace e.client e.opnum
      rw [eventsOf_cons_self] at htrace
      refine htrace.takesEffect_unique he op' tag' ?_
      rw [he, (client_takesEffect op object tag).1, (client_takesEffect op object tag).2, ← hclient,
        ← hopnum]
      exact takesEffect_mem_eventsOf.mpr (mem_effective.mp hother)

/-- An operation that precedes another one has completed with its tag when the other starts, which
takes effect later. -/
theorem Precedes.completed (htraced : Traced history) {tag' : Tag}
    (h : Precedes history object op op') (heffect : op.takesEffect object tag ∈ history)
    (heffect' : op'.takesEffect object tag' ∈ history) :
    ∃ later earlier, history = later ++ op'.invocation object :: earlier ∧
      Completed earlier object tag ∧ op'.takesEffect object tag' ∈ later := by
  obtain ⟨later, earlier, hsplit, hreturned⟩ := h
  have hsuffix : earlier <:+ history := ⟨later ++ [op'.invocation object], by simp [hsplit]⟩
  exact ⟨later, earlier, hsplit, htraced.completed hsuffix hreturned heffect,
    htraced.takesEffect_later hsplit heffect'⟩

/-- What the protocols say of the tags of a history on an object. -/
structure TagsConsistent (initial : Frame) (object : CString) (history : List Event) : Prop where
  /-- The events of every operation come in their order. -/
  traced : Traced history
  /-- Reads do not go back. -/
  reads : ReadsInOrder Completed history
  /-- Writes increase the version number. -/
  writes : WritesIncrease Completed history
  /-- No two writes have the same tag. -/
  unique : TagsUnique history
  /-- Writes have tags above the initial one. -/
  above : ∀ client opnum tag payload,
    .writeTagged client opnum object tag payload ∈ history → initTag < tag
  /-- A read returns the initial value, or the payload of the write with its tag. -/
  source : ∀ client opnum tag value, .readCompleted client opnum object tag value ∈ history →
    (tag, value) = (initTag, initial) ∨
      ∃ writer number, .writeTagged writer number object tag value ∈ history

/-- The tags of a history are timestamps in the sense of the library. -/
theorem TagsConsistent.stamps {initial : Frame} (h : TagsConsistent initial object history) :
    (historyStamps history).Consistent (initTag, initial)
      (fun a b ↦ Precedes history object a.1 b.1)
      (history.filterMap (Event.effective object)) where
  above := fun ⟨⟨client, opnum, effect⟩, tag⟩ hmem payload heffect ↦ by
    obtain rfl : effect = .write payload := heffect
    exact h.above client opnum tag payload (mem_effective.mp hmem)
  unique := fun ⟨⟨client, opnum, effect⟩, tag⟩ hmem ⟨⟨client', opnum', effect'⟩, tag'⟩ hmem'
      payload payload' heffect heffect' htag ↦ by
    obtain rfl : effect = .write payload := heffect
    obtain rfl : effect' = .write payload' := heffect'
    obtain rfl : tag = tag' := htag
    obtain ⟨rfl, rfl, rfl⟩ :=
      h.unique _ _ _ _ _ _ _ _ (mem_effective.mp hmem) (mem_effective.mp hmem')
    rfl
  source := fun ⟨⟨client, opnum, effect⟩, tag⟩ hmem value heffect ↦ by
    obtain rfl : effect = .read value := heffect
    refine (h.source client opnum tag value (mem_effective.mp hmem)).imp_right ?_
    rintro ⟨writer, number, htagged⟩
    exact ⟨(⟨writer, number, .write value⟩, tag), mem_effective.mpr htagged, rfl, rfl⟩
  le := fun ⟨op, tag⟩ hmem ⟨⟨client, opnum, effect⟩, tag'⟩ hmem' hprecedes ↦ by
    obtain ⟨later, earlier, hsplit, hcompleted, hlater⟩ := hprecedes.completed h.traced
      (mem_effective.mp hmem) (mem_effective.mp hmem')
    rcases effect with payload | value
    · have hz := h.writes _ _ _ _ _ _ _ _ _ hsplit hcompleted hlater
      exact ((Tag.lt_iff tag tag').mpr (Or.inl hz)).le
    · exact h.reads _ _ _ _ _ _ _ hsplit hcompleted (Or.inr ⟨value, hlater⟩)
  lt := fun ⟨op, tag⟩ hmem ⟨⟨client, opnum, effect⟩, tag'⟩ hmem' hprecedes payload heffect ↦ by
    obtain rfl : effect = .write payload := heffect
    obtain ⟨later, earlier, hsplit, hcompleted, hlater⟩ := hprecedes.completed h.traced
      (mem_effective.mp hmem) (mem_effective.mp hmem')
    have hz := h.writes _ _ _ _ _ _ _ _ _ hsplit hcompleted hlater
    exact (Tag.lt_iff tag tag').mpr (Or.inl hz)
  start_lt := fun _ _ _ _ ⟨_, _, hsplit, hreturned⟩ ↦ h.traced.startOf_lt hsplit hreturned

/-- A history whose tags are consistent is linearizable: their order is a linearization. -/
theorem linearizable_of_tags {initial : Frame} (h : TagsConsistent initial object history) :
    Linearizable initial object history := by
  set operations := history.filterMap (Event.effective object)
  have hperm : (((historyStamps history).order operations).map Prod.fst).Perm
      (operations.map Prod.fst) := (Stamps.perm_order operations).map Prod.fst
  have hmem : ∀ op, op ∈ ((historyStamps history).order operations).map Prod.fst ↔
      ∃ tag, op.takesEffect object tag ∈ history := by
    intro op
    rw [hperm.mem_iff, List.mem_map]
    constructor
    · rintro ⟨⟨other, tag⟩, hother, rfl⟩
      exact ⟨tag, mem_effective.mp hother⟩
    · rintro ⟨tag, heffect⟩
      exact ⟨(op, tag), mem_effective.mpr heffect, rfl⟩
  refine ⟨((historyStamps history).order operations).map Prod.fst, ?_, ?_, ?_, ?_, ?_⟩
  · have hlegal := h.stamps.legal_order
    rwa [List.map_map]
  · rw [(hperm.map _).nodup_iff, List.map_map]
    exact h.traced.nodup_effective object
  · intro op hop
    obtain ⟨tag, heffect⟩ := (hmem op).mp hop
    have hinvoked := (h.traced.trace op.client op.opnum).invocation_mem
      (takesEffect_mem_eventsOf.mpr heffect)
    exact invocation_mem_eventsOf.mp hinvoked
  · intro op hinvoked hreturned
    obtain ⟨tag, heffect⟩ := (h.traced.trace op.client op.opnum).exists_takesEffect
      (invocation_mem_eventsOf.mpr hinvoked) (returned_eventsOf.mpr hreturned)
    exact (hmem op).mpr ⟨tag, takesEffect_mem_eventsOf.mp heffect⟩
  · exact List.pairwise_map.mpr h.stamps.pairwise_order

end Order

end Colas
