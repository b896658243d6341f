import Mathlib.Algebra.Order.Floor.Semiring
import Mathlib.Data.Rat.Floor
import Colas.Library.Network
import Colas.Library.Quorum
import Colas.Utilities.Tag

/-!
# Messages, majorities and operation histories of the clients

A client request and a server response are named by the client, the operation number and the
phase; the client compares the last two with its own and the transport routes by the first. The
other frames they carry are the object, the tag string and the payload (`Body`); a frame that a
phase does not carry is empty. The identity frame that the transport adds is the client id, because
`get_socket_servers` sets the identity of the socket to it.

`majority` is the number of responses a phase waits for, the `ceil(((float)num_servers+1)/2)` of
the clients, over exact numbers.

`Event` is what the outside of the system sees of the operations: when they are invoked, which tag
a write creates, and what they return. Histories list the newest event first. A client is
sequential, and `Invoked` says that it used an operation number. `Turn` is what a client does
between two messages, and `Awaiting` is the count of the responses to a multicast.
-/

set_option autoImplicit false
set_option relaxedAutoImplicit false

namespace Colas

/-- The name of a phase of an operation: the client, the operation number and the phase. -/
structure CallId (φ : Type) where
  /-- The client id, which is also the identity of its socket. -/
  client : CString
  /-- `OPNUM`. -/
  opnum : ℕ
  /-- `PHASE`. -/
  phase : φ
  deriving DecidableEq

/-- The frames of a request or a response beside its name. -/
structure Body where
  /-- `OBJECT`. -/
  object : CString
  /-- `TAG`. -/
  tag : CString
  /-- `PAYLOAD`. -/
  payload : Frame
  deriving DecidableEq

/-- The tag that the frame `TAG` renders. -/
def Body.tagValue (frames : Body) : Tag := (stringToTag frames.tag).getD initTag

@[simp] theorem Body.tagValue_tagToString (object : CString) (tag : Tag) (payload : Frame) :
    (⟨object, tagToString tag, payload⟩ : Body).tagValue = tag := by
  simp [Body.tagValue]

theorem Body.tagValue_of_parse {frames : Body} {tag : Tag}
    (h : stringToTag frames.tag = some tag) : frames.tagValue = tag := by
  simp [Body.tagValue, h]

/-- What one turn of a receive loop of a client does: wait for more, leave the loop with a result,
or end the process. -/
inductive Loop (σ ρ : Type)
  | again (state : σ)
  | leave (result : ρ)
  | exit

/-! ### Majorities -/

/-- The number of responses a phase waits for: `ceil(((float)num_servers+1)/2)`. -/
def majority (numServers : ℕ) : ℕ := ⌈((numServers : ℚ) + 1) / 2⌉₊

theorem majority_eq (numServers : ℕ) : majority numServers = numServers / 2 + 1 := by
  have hdiv : (numServers : ℚ) = 2 * (numServers / 2 : ℕ) + (numServers % 2 : ℕ) := by
    exact_mod_cast (Nat.div_add_mod numServers 2).symm
  have hmod : ((numServers % 2 : ℕ) : ℚ) ≤ 1 := by
    exact_mod_cast Nat.le_of_lt_succ (Nat.mod_lt _ (by norm_num))
  have hnonneg : (0 : ℚ) ≤ (numServers % 2 : ℕ) := Nat.cast_nonneg _
  rw [majority, Nat.ceil_eq_iff (by omega), Nat.add_sub_cancel]
  push_cast
  constructor <;> linarith

/-- A majority is more than half of the servers. -/
theorem lt_two_mul_majority (numServers : ℕ) : numServers < 2 * majority numServers := by
  rw [majority_eq]
  omega

theorem majority_pos (numServers : ℕ) : 0 < majority numServers := by
  rw [majority_eq]
  omega

/-! ### Histories -/

/-- What the outside sees of the operations. -/
inductive Event
  /-- A client starts a write of a payload to an object. -/
  | writeInvoked (client : CString) (opnum : ℕ) (object : CString) (payload : Frame)
  /-- A write has chosen the tag under which it stores its payload. -/
  | writeTagged (client : CString) (opnum : ℕ) (object : CString) (tag : Tag) (payload : Frame)
  /-- A write has returned. -/
  | writeCompleted (client : CString) (opnum : ℕ) (object : CString) (tag : Tag)
  /-- A client starts a read of an object. -/
  | readInvoked (client : CString) (opnum : ℕ) (object : CString)
  /-- A read has chosen the tag that it returns, and has the value for it unless it could not be
  decoded. -/
  | readTagged (client : CString) (opnum : ℕ) (object : CString) (tag : Tag)
    (value : Option Frame)
  /-- A read has returned a value with its tag. -/
  | readCompleted (client : CString) (opnum : ℕ) (object : CString) (tag : Tag) (value : Frame)
  deriving DecidableEq

/-- The object of an event. -/
def Event.object : Event → CString
  | .writeInvoked _ _ object _ => object
  | .writeTagged _ _ object _ _ => object
  | .writeCompleted _ _ object _ => object
  | .readInvoked _ _ object => object
  | .readTagged _ _ object _ _ => object
  | .readCompleted _ _ object _ _ => object

/-- The client has started an operation under this number. -/
def Invoked (history : List Event) (client : CString) (opnum : ℕ) : Prop :=
  (∃ object payload, Event.writeInvoked client opnum object payload ∈ history) ∨
    ∃ object, Event.readInvoked client opnum object ∈ history

/-- An operation on the object with the tag has returned. -/
def Completed (history : List Event) (object : CString) (tag : Tag) : Prop :=
  (∃ client opnum, Event.writeCompleted client opnum object tag ∈ history) ∨
    ∃ client opnum value, Event.readCompleted client opnum object tag value ∈ history

/-- An operation on the object with the tag has returned, or it is a read that has chosen the
tag. -/
def Decided (history : List Event) (object : CString) (tag : Tag) : Prop :=
  Completed history object tag ∨
    ∃ client opnum value, Event.readTagged client opnum object tag value ∈ history

/-- The event starts the operation of the client under the number. -/
def Event.invokes (client : CString) (opnum : ℕ) : Event → Bool
  | .writeInvoked client' opnum' _ _ => client' = client && opnum' = opnum
  | .readInvoked client' opnum' _ => client' = client && opnum' = opnum
  | _ => false

theorem invoked_iff (history : List Event) (client : CString) (opnum : ℕ) :
    Invoked history client opnum ↔ history.any (Event.invokes client opnum) = true := by
  rw [List.any_eq_true]
  constructor
  · rintro (⟨object, payload, hmem⟩ | ⟨object, hmem⟩)
    · exact ⟨_, hmem, by simp [Event.invokes]⟩
    · exact ⟨_, hmem, by simp [Event.invokes]⟩
  · rintro ⟨e, hmem, he⟩
    cases e with
    | writeInvoked client' opnum' object payload =>
      obtain ⟨rfl, rfl⟩ := by simpa [Event.invokes] using he
      exact Or.inl ⟨object, payload, hmem⟩
    | readInvoked client' opnum' object =>
      obtain ⟨rfl, rfl⟩ := by simpa [Event.invokes] using he
      exact Or.inr ⟨object, hmem⟩
    | _ => exact absurd he (by simp [Event.invokes])

instance (history : List Event) (client : CString) (opnum : ℕ) :
    Decidable (Invoked history client opnum) :=
  decidable_of_iff _ (invoked_iff history client opnum).symm

/-- If the event starts an operation of the client, it has a smaller number. -/
def Event.Below (client : CString) (opnum : ℕ) : Event → Prop
  | .writeInvoked client' opnum' _ _ => client' = client → opnum' < opnum
  | .readInvoked client' opnum' _ => client' = client → opnum' < opnum
  | _ => True

instance (client : CString) (opnum : ℕ) (e : Event) :
    Decidable (Event.Below client opnum e) := by
  cases e <;> unfold Event.Below <;> infer_instance

/-- The operations of a client so far have smaller numbers. -/
theorem lt_of_below {history : List Event} {client : CString} {opnum : ℕ}
    (hbelow : ∀ e ∈ history, Event.Below client opnum e) {opnum' : ℕ}
    (h : Invoked history client opnum') : opnum' < opnum := by
  rcases h with ⟨object, payload, hmem⟩ | ⟨object, hmem⟩
  · exact hbelow _ hmem rfl
  · exact hbelow _ hmem rfl

/-- Reads do not go back: a read that is invoked after an operation on the object has finished
chooses, and returns, a tag that is not smaller than the tag of the operation. -/
def ReadsInOrder (finished : List Event → CString → Tag → Prop) (history : List Event) : Prop :=
  ∀ later earlier client opnum object tag tag',
    history = later ++ .readInvoked client opnum object :: earlier →
      finished earlier object tag →
        ((∃ value, .readTagged client opnum object tag' value ∈ later) ∨
          ∃ value, .readCompleted client opnum object tag' value ∈ later) → tag ≤ tag'

/-- A write that is invoked after an operation on the object has finished chooses a greater version
number than that of the operation. -/
def WritesIncrease (finished : List Event → CString → Tag → Prop) (history : List Event) : Prop :=
  ∀ later earlier client opnum object payload tag tag' payload',
    history = later ++ .writeInvoked client opnum object payload :: earlier →
      finished earlier object tag →
        .writeTagged client opnum object tag' payload' ∈ later → tag.number < tag'.number

/-- No two writes of an object have the same tag. -/
def TagsUnique (history : List Event) : Prop :=
  ∀ client client' opnum opnum' object tag payload payload',
    .writeTagged client opnum object tag payload ∈ history →
      .writeTagged client' opnum' object tag payload' ∈ history →
        client = client' ∧ opnum = opnum' ∧ payload = payload'

theorem Invoked.mono {history history' : List Event} {client : CString} {opnum : ℕ}
    (h : Invoked history client opnum) (hsub : history ⊆ history') :
    Invoked history' client opnum := by
  rcases h with ⟨object, payload, h⟩ | ⟨object, h⟩
  · exact Or.inl ⟨object, payload, hsub h⟩
  · exact Or.inr ⟨object, hsub h⟩

/-! ### Turns of a client -/

/-- What a client does between two messages: its next state, the multicast that it starts under a
new name if it starts one, with the content for each server, and what the outside sees of it. -/
structure Turn (n : ℕ) (σ φ : Type) where
  /-- The state in which the client waits for the next message. -/
  client : σ
  /-- The multicast to all servers. -/
  multicast : Option (CallId φ × (Fin n → Body))
  /-- The event of the turn. -/
  event : Option Event

/-- What holds of the event of a turn and of all earlier ones holds of the history after it. -/
theorem forall_mem_history {event : Option Event} {history : List Event} {P : Event → Prop}
    (hevent : ∀ e, event = some e → P e) (hhistory : ∀ e ∈ history, P e) :
    ∀ e ∈ event.toList ++ history, P e := by
  intro e he
  rcases List.mem_append.mp he with hnew | hold
  · exact hevent e (Option.mem_toList.mp hnew)
  · exact hhistory e hold

/-- The calls after the multicast of a turn. -/
def Turn.sendOn {n : ℕ} {σ φ : Type} (turn : Turn n σ φ)
    (calls : Calls (Fin n) (CallId φ) Body Body) : Calls (Fin n) (CallId φ) Body Body :=
  turn.multicast.elim calls fun call ↦ calls.issue call.1 call.2

section SendOn

variable {n : ℕ} {σ φ : Type} (turn : Turn n σ φ) (calls : Calls (Fin n) (CallId φ) Body Body)

/-- The requests after a turn are those of its multicast and the earlier ones. -/
theorem Turn.mem_requests_sendOn {i : Fin n} {name : CallId φ} {frames : Body} :
    (i, name, frames) ∈ (turn.sendOn calls).requests.sent ↔
      (∃ content, turn.multicast = some (name, content) ∧ frames = content i) ∨
        (i, name, frames) ∈ calls.requests.sent := by
  rcases hmulticast : turn.multicast with - | ⟨other, content⟩
  · simp [Turn.sendOn, hmulticast]
  · simp only [Turn.sendOn, hmulticast, Option.elim_some, Calls.requests_issue, Network.sent_send,
      List.mem_append, Calls.mem_issueRequests, Option.some.injEq, Prod.mk.injEq]
    constructor
    · rintro (⟨rfl, rfl⟩ | hold)
      · exact Or.inl ⟨content, ⟨rfl, rfl⟩, rfl⟩
      · exact Or.inr hold
    · rintro (⟨_, ⟨rfl, rfl⟩, rfl⟩ | hold)
      · exact Or.inl ⟨rfl, rfl⟩
      · exact Or.inr hold

/-- A name that is issued after a turn is the one of its multicast or was issued before. -/
theorem Turn.issued_sendOn {name : CallId φ} (h : (turn.sendOn calls).Issued name) :
    (∃ content, turn.multicast = some (name, content)) ∨ calls.Issued name := by
  obtain ⟨i, frames, hmem⟩ := h
  rcases (turn.mem_requests_sendOn calls).mp hmem with ⟨content, hcall, -⟩ | hold
  · exact Or.inl ⟨content, hcall⟩
  · exact Or.inr ⟨i, frames, hold⟩

/-- A turn whose multicast has a new name keeps requests and responses matched. -/
theorem Turn.wellFormed_sendOn (hcalls : calls.WellFormed)
    (hnew : ∀ name content, turn.multicast = some (name, content) → ¬ calls.Issued name) :
    (turn.sendOn calls).WellFormed := by
  rcases hcall : turn.multicast with - | ⟨name, content⟩
  · simpa [Turn.sendOn, hcall] using hcalls
  · simpa [Turn.sendOn, hcall] using hcalls.issue (hnew name content hcall)

@[simp] theorem Turn.answers_sendOn : (turn.sendOn calls).answers = calls.answers := by
  rcases hmulticast : turn.multicast with - | call <;> simp [Turn.sendOn, hmulticast]

@[simp] theorem Turn.delivered_sendOn :
    (turn.sendOn calls).requests.delivered = calls.requests.delivered := by
  rcases hmulticast : turn.multicast with - | call <;> simp [Turn.sendOn, hmulticast]

@[simp] theorem Turn.readings_sendOn [DecidableEq φ] (name : CallId φ) :
    (turn.sendOn calls).readings name = calls.readings name := by
  simp [Calls.readings]

end SendOn

/-! ### Counting responses -/

section Counting

variable {n : ℕ} {φ : Type} [DecidableEq φ] {calls : Calls (Fin n) (CallId φ) Body Body}
  {name : CallId φ} {object : CString} {responses : ℕ}

/-- A client counts the responses to a multicast about an object. -/
structure Awaiting (calls : Calls (Fin n) (CallId φ) Body Body) (name : CallId φ)
    (object : CString) (responses : ℕ) : Prop where
  /-- The count is the number of responses received. -/
  count : (calls.readings name).length = responses
  /-- The requests are about the object. -/
  about : ∀ {i frames}, (i, name, frames) ∈ calls.requests.sent → frames.object = object

/-- A multicast under a new name starts with count zero. -/
theorem Awaiting.issue (hcalls : calls.WellFormed) (hnew : ¬ calls.Issued name)
    {content : Fin n → Body} (hobject : ∀ i, (content i).object = object) :
    Awaiting (calls.issue name content) name object 0 where
  count := by rw [Calls.readings_issue, hcalls.readings_eq_nil hnew, List.length_nil]
  about := fun {i frames} hmem ↦ by
    rw [Calls.requests_issue, Network.sent_send, List.mem_append, Calls.mem_issueRequests] at hmem
    rcases hmem with ⟨-, rfl⟩ | hold
    · exact hobject i
    · exact absurd ⟨i, frames, hold⟩ hnew

/-- A response to the multicast adds one to the count. -/
theorem Awaiting.collect (h : Awaiting calls name object responses) (i : Fin n) (frames : Body) :
    Awaiting (calls.collect (i, name, frames)) name object (responses + 1) where
  count := by rw [Calls.readings_collect_self, List.length_append, h.count, List.length_singleton]
  about := h.about

/-- The count depends only on the responses received and the requests sent under the name. -/
theorem Awaiting.frame (h : Awaiting calls name object responses)
    {calls' : Calls (Fin n) (CallId φ) Body Body}
    (hreadings : calls'.readings name = calls.readings name)
    (hrequests : ∀ {i frames}, (i, name, frames) ∈ calls'.requests.sent →
      (i, name, frames) ∈ calls.requests.sent) : Awaiting calls' name object responses where
  count := by rw [hreadings, h.count]
  about := fun hmem ↦ h.about (hrequests hmem)

/-- With a majority counted, a majority of servers has responded. -/
theorem Awaiting.reported (h : Awaiting calls name object responses) (hcalls : calls.WellFormed)
    (hmany : majority n ≤ responses) {P : Fin n → Body → Prop}
    (hP : ∀ r ∈ calls.readings name, P r.1 r.2) :
    Quorum.ReportedByMajority calls.answers.sent name P := by
  refine Quorum.ReportedByMajority.of_messages (hcalls.nodup_readings_server name) ?_
    fun r hr ↦ ⟨hcalls.collected _ (Calls.mem_readings.mp hr), hP r hr⟩
  have hmajority := lt_two_mul_majority n
  rw [h.count, Fintype.card_fin]
  omega

end Counting

end Colas
