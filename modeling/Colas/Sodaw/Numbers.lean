import Colas.Sodaw.System

/-!
# What SODAW clients have asked

When no client uses an operation number twice, the name of a request is used by one multicast:
every server is sent one request under it, and all of them are about the same object and carry the
same tag. `Numbered` says so of every state of such a run, whatever is delivered twice. It also says
what a waiting client has asked for, and that it has not yet used the names of its later phases.
-/

set_option autoImplicit false
set_option relaxedAutoImplicit false

namespace Colas.Sodaw

open TransitionSystem

variable {n : ℕ}

/-- The event that starts an operation. -/
def Operation.Started (history : List Event) (clientId : CString) (opNum : ℕ) (object : CString) :
    Operation → Prop
  | .write payload => .writeInvoked clientId opNum object payload ∈ history
  | .read => .readInvoked clientId opNum object ∈ history

theorem Operation.Started.invoked {history : List Event} {clientId : CString} {opNum : ℕ}
    {object : CString} {operation : Operation}
    (h : operation.Started history clientId opNum object) : Invoked history clientId opNum := by
  cases operation with
  | write payload => exact Or.inl ⟨object, payload, h⟩
  | read => exact Or.inr ⟨object, h⟩

theorem Operation.Started.mono {history history' : List Event} {clientId : CString} {opNum : ℕ}
    {object : CString} {operation : Operation}
    (h : operation.Started history clientId opNum object) (hsub : history ⊆ history') :
    operation.Started history' clientId opNum object := by
  cases operation with
  | write payload => exact hsub h
  | read => exact hsub h

/-- Every server was sent a request with the property under the name. -/
def Asked (calls : Calls (Fin n) (CallId Phase) Body Body) (name : CallId Phase)
    (P : Body → Prop) : Prop :=
  ∀ i, ∃ frames, (i, name, frames) ∈ calls.requests.sent ∧ P frames

/-- What a waiting client has asked for, and the names that it has not used. -/
def Numbering (calls : Calls (Fin n) (CallId Phase) Body Body) (history : List Event)
    (clientId : CString) : Client → Prop
  | .idle => True
  | .get opNum object operation _ _ =>
    operation.Started history clientId opNum object ∧
      Asked calls ⟨clientId, opNum, operation.getPhase⟩ (fun frames ↦ frames.object = object) ∧
      ∀ phase, phase ≠ operation.getPhase → ¬ calls.Issued ⟨clientId, opNum, phase⟩
  | .writePut opNum object tag _ =>
    (∃ payload, .writeTagged clientId opNum object tag payload ∈ history) ∧
      Asked calls ⟨clientId, opNum, .writePut⟩ fun frames ↦
        frames.object = object ∧ frames.tagValue = tag
  | .readValue opNum object readTag _ _ =>
    .readInvoked clientId opNum object ∈ history ∧
      Asked calls ⟨clientId, opNum, .readValue⟩ (fun frames ↦
        frames.object = object ∧ frames.tagValue = readTag) ∧
      ¬ calls.Issued ⟨clientId, opNum, .readComplete⟩
  | .exited => True

/-- The requests of a multicast are about one object and carry one tag. -/
def Uniform (content : Fin n → Body) : Prop :=
  ∀ i j, (content i).object = (content j).object ∧ (content i).tag = (content j).tag

/-- What holds in every run in which no client uses an operation number twice. -/
structure Numbered (s : State n) : Prop where
  /-- A name is used by the operation that it names. -/
  issued : ∀ {name}, s.calls.Issued name → Invoked s.history name.client name.opnum
  /-- A server is sent one request under a name. -/
  unique : ∀ {i name frames frames'}, (i, name, frames) ∈ s.calls.requests.sent →
    (i, name, frames') ∈ s.calls.requests.sent → frames = frames'
  /-- A name is used by a multicast. -/
  everywhere : ∀ {i name frames}, (i, name, frames) ∈ s.calls.requests.sent → ∀ j,
    ∃ frames', (j, name, frames') ∈ s.calls.requests.sent ∧ frames'.object = frames.object ∧
      frames'.tag = frames.tag
  /-- The waiting clients have asked. -/
  clients : ∀ clientId, Numbering s.calls s.history clientId (s.clients clientId)

section Steps

variable {config : Config n} {s t : State n} {calls calls' : Calls (Fin n) (CallId Phase) Body Body}
  {history history' : List Event} {clientId : CString} {client : Client}

theorem Asked.mono {name : CallId Phase} {P : Body → Prop} (h : Asked calls name P)
    (hsub : ∀ m ∈ calls.requests.sent, m ∈ calls'.requests.sent) : Asked calls' name P := by
  intro i
  obtain ⟨frames, hmem, hP⟩ := h i
  exact ⟨frames, hsub _ hmem, hP⟩

/-- All requests under the name have the property. -/
theorem Asked.of_mem {name : CallId Phase} {P : Body → Prop} (h : Asked s.calls name P)
    (hnumbered : Numbered s) {i : Fin n} {frames : Body}
    (hmem : (i, name, frames) ∈ s.calls.requests.sent) : P frames := by
  obtain ⟨frames', hmem', hP⟩ := h i
  rwa [hnumbered.unique hmem hmem']

/-- The multicast of a turn reaches every server. -/
theorem Turn.asked {turn : Turn n Client Phase} {name : CallId Phase} {content : Fin n → Body}
    (hcall : turn.multicast = some (name, content)) {P : Body → Prop} (hP : ∀ i, P (content i)) :
    Asked (turn.sendOn calls) name P :=
  fun i ↦ ⟨content i, (turn.mem_requests_sendOn calls).mpr (Or.inl ⟨content, hcall, rfl⟩), hP i⟩

/-- What a client has asked for depends on the requests and on its own names. -/
theorem Numbering.frame (h : Numbering calls history clientId client)
    (hsub : ∀ m ∈ calls.requests.sent, m ∈ calls'.requests.sent)
    (hissued : ∀ {opNum phase}, calls'.Issued ⟨clientId, opNum, phase⟩ →
      calls.Issued ⟨clientId, opNum, phase⟩)
    (hhistory : history ⊆ history') : Numbering calls' history' clientId client := by
  cases client with
  | idle => trivial
  | exited => trivial
  | get opNum object operation responses tagList =>
    obtain ⟨hstarted, hasked, hnot⟩ := h
    exact ⟨hstarted.mono hhistory, hasked.mono hsub, fun phase hphase hnew ↦
      hnot phase hphase (hissued hnew)⟩
  | writePut opNum object tag responses =>
    obtain ⟨⟨payload, htagged⟩, hasked⟩ := h
    exact ⟨⟨payload, hhistory htagged⟩, hasked.mono hsub⟩
  | readValue opNum object readTag recvDataset decodeableKey =>
    obtain ⟨hstarted, hasked, hnot⟩ := h
    exact ⟨hhistory hstarted, hasked.mono hsub, fun hnew ↦ hnot (hissued hnew)⟩

theorem numbered_initial : Numbered (State.initial : State n) where
  issued := fun ⟨_, _, hmem⟩ ↦ absurd hmem List.not_mem_nil
  unique := fun hmem ↦ absurd hmem List.not_mem_nil
  everywhere := fun hmem ↦ absurd hmem List.not_mem_nil
  clients := fun _ ↦ trivial

/-- A step of a server asks for nothing. -/
theorem Numbered.serverStep (h : Numbered s) {a : Action n} (hstep : ServerStep config s a t) :
    Numbered t := by
  obtain ⟨hclients, hhistory, hrequests, -, -⟩ := hstep.clients_eq
  have hissued : ∀ {name}, t.calls.Issued name → s.calls.Issued name := by
    rintro name ⟨i, frames, hmem⟩
    exact ⟨i, frames, hrequests ▸ hmem⟩
  refine
    { issued := fun hname ↦ hhistory ▸ h.issued (hissued hname)
      unique := fun hmem hmem' ↦ h.unique (hrequests ▸ hmem) (hrequests ▸ hmem')
      everywhere := fun hmem j ↦ ?_
      clients := fun clientId ↦ ?_ }
  · rw [hrequests] at hmem ⊢
    exact h.everywhere hmem j
  · rw [hclients, hhistory]
    exact (h.clients clientId).frame (fun m hm ↦ hrequests ▸ hm) hissued fun _ he ↦ he

/-- What makes a multicast new: the client has not used its name, but has started the operation. -/
structure Opens (calls : Calls (Fin n) (CallId Phase) Body Body) (history : List Event)
    (clientId : CString) (name : CallId Phase) (content : Fin n → Body) : Prop where
  client : name.client = clientId
  fresh : ¬ calls.Issued name
  invoked : Invoked history clientId name.opnum
  uniform : Uniform content

/-- A turn keeps the names apart if its multicast is new. -/
theorem Numbered.takeTurn (h : Numbered s) {turn : Turn n Client Phase}
    (hopens : ∀ name content, turn.multicast = some (name, content) →
      Opens s.calls (turn.event.toList ++ s.history) clientId name content)
    (hclient : Numbering (turn.sendOn s.calls) (turn.event.toList ++ s.history) clientId
      turn.client) : Numbered (s.takeTurn clientId turn) where
  issued := fun {name} hname ↦ by
    rcases turn.issued_sendOn s.calls hname with ⟨content, hcall⟩ | hold
    · have hnew := hopens name content hcall
      rw [hnew.client]
      exact hnew.invoked
    · exact (h.issued hold).mono (List.subset_append_right _ _)
  unique := fun {i name frames frames'} hmem hmem' ↦ by
    rcases (turn.mem_requests_sendOn s.calls).mp hmem with ⟨content, hcall, rfl⟩ | hold <;>
      rcases (turn.mem_requests_sendOn s.calls).mp hmem' with ⟨content', hcall', rfl⟩ | hold'
    · obtain ⟨-, rfl⟩ := Prod.mk.inj (Option.some.inj (hcall.symm.trans hcall'))
      rfl
    · exact absurd ⟨i, _, hold'⟩ (hopens name content hcall).fresh
    · exact absurd ⟨i, _, hold⟩ (hopens name content' hcall').fresh
    · exact h.unique hold hold'
  everywhere := fun {i name frames} hmem j ↦ by
    rcases (turn.mem_requests_sendOn s.calls).mp hmem with ⟨content, hcall, rfl⟩ | hold
    · exact ⟨content j, (turn.mem_requests_sendOn s.calls).mpr (Or.inl ⟨content, hcall, rfl⟩),
        (hopens name content hcall).uniform j i⟩
    · obtain ⟨frames', hmem', hsame⟩ := h.everywhere hold j
      exact ⟨frames', (turn.mem_requests_sendOn s.calls).mpr (Or.inr hmem'), hsame⟩
  clients := by
    refine (Function.forall_update_iff s.clients
      (Numbering (turn.sendOn s.calls) (turn.event.toList ++ s.history))).mpr
      ⟨hclient, fun other hother ↦ ?_⟩
    refine (h.clients other).frame (serversKept_takeTurn s clientId turn).requests
      (fun hname ↦ ?_) (List.subset_append_right _ _)
    rcases turn.issued_sendOn s.calls hname with ⟨content, hcall⟩ | hold
    · exact absurd (hopens _ content hcall).client hother
    · exact hold

/-- The first multicast of an operation under a new number. -/
theorem Numbered.opens_get (h : Numbered s) {opNum : ℕ} {object : CString} (operation : Operation)
    {event : Event} (hfresh : ¬ Invoked s.history clientId opNum)
    (hstarted : operation.Started (event :: s.history) clientId opNum object) :
    Opens s.calls (event :: s.history) clientId ⟨clientId, opNum, operation.getPhase⟩
      fun _ : Fin n ↦ ⟨object, [], []⟩ where
  client := rfl
  fresh := fun hissued ↦ hfresh (h.issued hissued)
  invoked := hstarted.invoked
  uniform := fun _ _ ↦ ⟨rfl, rfl⟩

/-- Starting an operation under a new number keeps the names apart. -/
theorem Numbered.invoke (h : Numbered s) {opNum : ℕ} {object : CString} (operation : Operation)
    {event : Event} (hfresh : ¬ Invoked s.history clientId opNum)
    (hstarted : operation.Started (event :: s.history) clientId opNum object) :
    Numbered (s.takeTurn clientId
      ⟨.get opNum object operation 0 [],
        some (⟨clientId, opNum, operation.getPhase⟩, fun _ ↦ ⟨object, [], []⟩), some event⟩) := by
  refine h.takeTurn ?_ ⟨hstarted, Turn.asked rfl fun _ ↦ rfl, fun phase hphase hissued ↦ ?_⟩
  · rintro name content ⟨⟩
    exact h.opens_get operation hfresh hstarted
  · rcases Turn.issued_sendOn _ _ hissued with ⟨content, hcall⟩ | hold
    · obtain ⟨hname, -⟩ := Prod.mk.inj (Option.some.inj hcall)
      exact hphase (CallId.mk.inj hname).2.2.symm
    · exact hfresh (h.issued hold)

/-- A turn on a message has no multicast. -/
theorem Receives.multicast_eq {opNum : ℕ} {phase : Phase} {frames : Body}
    {turn : Turn n Client Phase} (hturn : Receives clientId opNum frames phase client turn) :
    turn.multicast = none := by
  cases hturn <;> rfl

/-- A turn on a message asks for nothing. -/
theorem Receives.numbering {opNum : ℕ} {phase : Phase} {frames : Body}
    {turn : Turn n Client Phase} (hturn : Receives clientId opNum frames phase client turn)
    (hown : Numbering calls history clientId client) :
    Numbering calls (turn.event.toList ++ history) clientId turn.client := by
  cases hturn with
  | stale => exact hown
  | countTag => exact hown
  | countAck => exact hown
  | complete => trivial
  | collect => exact hown
  | decide =>
    obtain ⟨hstarted, hasked, hnot⟩ := hown
    exact ⟨List.mem_cons_of_mem _ hstarted, hasked, hnot⟩

/-- The multicast at the end of a loop is new. -/
theorem TimesOut.opens {turn : Turn n Client Phase} (hturn : TimesOut config clientId client turn)
    (hown : Numbering calls history clientId client) {name : CallId Phase}
    {content : Fin n → Body} (hcall : turn.multicast = some (name, content)) :
    Opens calls (turn.event.toList ++ history) clientId name content := by
  cases hturn with
  | startWrite =>
    obtain ⟨hstarted, -, hnot⟩ := hown
    cases hcall
    exact ⟨rfl, hnot .writePut (by simp [Operation.getPhase]),
      hstarted.invoked.mono (List.subset_append_right _ _), fun _ _ ↦ ⟨rfl, rfl⟩⟩
  | startRead =>
    obtain ⟨hstarted, -, hnot⟩ := hown
    cases hcall
    exact ⟨rfl, hnot .readValue (by simp [Operation.getPhase]),
      hstarted.invoked.mono (List.subset_append_right _ _), fun _ _ ↦ ⟨rfl, rfl⟩⟩
  | @decoded opNum object =>
    obtain ⟨hstarted, -, hnot⟩ := hown
    cases hcall
    exact ⟨rfl, hnot, Or.inr ⟨object, List.mem_append_right _ hstarted⟩, fun _ _ ↦ ⟨rfl, rfl⟩⟩
  | failed => cases hcall

/-- What a client asks for at the end of a loop. -/
theorem TimesOut.numbering {turn : Turn n Client Phase}
    (hturn : TimesOut config clientId client turn)
    (hown : Numbering calls history clientId client) :
    Numbering (turn.sendOn calls) (turn.event.toList ++ history) clientId turn.client := by
  cases hturn with
  | @startWrite opNum object payload =>
    exact ⟨⟨payload, List.mem_cons_self⟩, Turn.asked rfl fun _ ↦
      ⟨rfl, Body.tagValue_tagToString _ _ _⟩⟩
  | startRead =>
    obtain ⟨hstarted, -, hnot⟩ := hown
    refine ⟨hstarted, Turn.asked rfl fun _ ↦ ⟨rfl, Body.tagValue_tagToString _ _ _⟩,
      fun hissued ↦ ?_⟩
    rcases Turn.issued_sendOn _ _ hissued with ⟨content, ⟨⟩⟩ | hold
    exact hnot .readComplete (by simp [Operation.getPhase]) hold
  | decoded => trivial
  | failed => trivial

/-- A step of a client keeps the names apart. -/
theorem Numbered.clientStep (h : Numbered s) {a : Action n} (hfresh : FreshNumbers s a)
    (hstep : ClientStep config s a t) : Numbered t := by
  have hreceives : ∀ {clientId opNum phase frames} {turn : Turn n Client Phase} {u : State n},
      Numbered u → Receives clientId opNum frames phase (u.clients clientId) turn →
        Numbered (u.takeTurn clientId turn) := by
    intro clientId opNum phase frames turn u hu hturn
    refine hu.takeTurn (by simp [hturn.multicast_eq]) ?_
    simpa [Turn.sendOn, hturn.multicast_eq] using hturn.numbering (hu.clients clientId)
  cases hstep with
  | write clientId opNum object payload hidle =>
    exact h.invoke (.write payload) hfresh List.mem_cons_self
  | read clientId opNum object hidle => exact h.invoke .read hfresh List.mem_cons_self
  | receive i name frames turn hsent hturn =>
    exact hreceives (u := { s with calls := s.calls.collect (i, name, frames) }) { h with } hturn
  | receiveElement i name frames turn hsent hturn =>
    exact hreceives (u := { s with elements := s.elements.deliver (i, name, frames) }) { h with }
      hturn
  | timeout clientId turn hturn =>
    exact h.takeTurn (fun _ _ hcall ↦ hturn.opens (h.clients clientId) hcall)
      (hturn.numbering (h.clients clientId))

/-- Every state of every run with fresh numbers is numbered. -/
theorem Numbered.of_run {guard : State n → Action n → Prop}
    (hguard : ∀ s a, guard s a → FreshNumbers s a)
    (run : Run (step config) guard State.initial s) : Numbered s :=
  run.invariant numbered_initial fun _ _ _ h hsa hstep ↦
    (step_cases hstep).elim (h.clientStep (hguard _ _ hsa)) h.serverStep

end Steps

end Colas.Sodaw
