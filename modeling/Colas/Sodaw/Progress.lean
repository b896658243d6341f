import Colas.Sodaw.Atomicity
import Colas.Sodaw.Delivery
import Colas.Sodaw.Registration

/-!
# No SODAW client waits forever

`settled_of_quiescent` is about the states in which nothing is in flight: every request to a server
that runs has been handled, and every response and element to a waiting client has been received. If
a majority of servers runs, no client is still waiting for messages.

In the first phase and in `WRITE_PUT` this is because servers answer every request. For a reader
either some server is done with it, and then enough servers have sent it elements with one tag; or
all that run have it registered. Those store the same version: every tag that is stored anywhere
comes from a `WRITE_PUT` that went to all of them, and a server that has handled it stores the tag
or a greater one. So each of them has sent the reader an element with that tag.

A client counts its operations up (`CountsUp`). A server that knows of a later operation of a reader
ignores a `READ_VALUE` for an earlier one, so numbers that are only different from each other are
not enough (`ignored_reader`).
-/

set_option autoImplicit false
set_option relaxedAutoImplicit false

namespace Colas.Sodaw

open TransitionSystem Quorum

variable {n : ℕ} {config : Config n} {object : CString} {s t : State n}

/-! ### The last operation of a client -/

/-- The number of the operation that a client runs. -/
def Client.opNum : Client → Option ℕ
  | .get opNum _ _ _ _ => some opNum
  | .writePut opNum _ _ _ => some opNum
  | .readValue opNum _ _ _ _ => some opNum
  | _ => none

/-- A client has not started a later operation than the one it runs. -/
def Latest (s : State n) : Prop :=
  ∀ clientId opNum, (s.clients clientId).opNum = some opNum →
    ∀ opNum', Invoked s.history clientId opNum' → opNum' ≤ opNum

theorem Receives.opNum_eq {clientId : CString} {round : ℕ} {phase : Phase} {frames : Body}
    {client : Client} {turn : Turn n Client Phase}
    (h : Receives clientId round frames phase client turn) {opNum : ℕ}
    (hturn : turn.client.opNum = some opNum) : client.opNum = some opNum := by
  cases h with
  | complete => cases hturn
  | _ => exact hturn

theorem TimesOut.opNum_eq {clientId : CString} {client : Client} {turn : Turn n Client Phase}
    (h : TimesOut config clientId client turn) {opNum : ℕ}
    (hturn : turn.client.opNum = some opNum) : client.opNum = some opNum := by
  cases h with
  | decoded => cases hturn
  | failed => cases hturn
  | _ => exact hturn

/-- An operation was started before a turn if the turn does not start it. -/
theorem invoked_of_turn {history : List Event} {event : Option Event} {clientId : CString}
    {opNum : ℕ} (hstarts : ∀ e, event = some e → ∀ object, ¬ Starts clientId opNum object e)
    (h : Invoked (event.toList ++ history) clientId opNum) : Invoked history clientId opNum := by
  rcases h with ⟨object, payload, hmem⟩ | ⟨object, hmem⟩
  · rcases List.mem_append.mp hmem with hnew | hold
    · exact absurd (Or.inl ⟨payload, rfl⟩) (hstarts _ (Option.mem_toList.mp hnew) object)
    · exact Or.inl ⟨object, payload, hold⟩
  · rcases List.mem_append.mp hmem with hnew | hold
    · exact absurd (Or.inr rfl) (hstarts _ (Option.mem_toList.mp hnew) object)
    · exact Or.inr ⟨object, hold⟩

/-- A turn keeps the operations the last ones if it starts none, or one with a greater number. -/
theorem Latest.takeTurn (h : Latest s) {clientId : CString} {turn : Turn n Client Phase}
    (hown : ∀ opNum, turn.client.opNum = some opNum → (s.clients clientId).opNum = some opNum ∨
      ∀ e ∈ s.history, Event.Below clientId opNum e)
    (hstarts : ∀ e, turn.event = some e → ∀ other opNum object, Starts other opNum object e →
      other = clientId ∧ turn.client.opNum = some opNum) :
    Latest (s.takeTurn clientId turn) := by
  refine (Function.forall_update_iff s.clients fun other client ↦
    ∀ opNum, client.opNum = some opNum → ∀ opNum',
      Invoked (turn.event.toList ++ s.history) other opNum' → opNum' ≤ opNum).mpr
    ⟨fun opNum hturn opNum' hinvoked ↦ ?_, fun other hother opNum hrunning opNum' hinvoked ↦ ?_⟩
  · by_cases hsame : opNum' = opNum
    · exact hsame.le
    · have hold : Invoked s.history clientId opNum' :=
        invoked_of_turn (fun e he object hstart ↦ hsame <| Option.some.inj <|
          (hstarts e he _ _ object hstart).2.symm.trans hturn) hinvoked
      rcases hown opNum hturn with hbefore | hbelow
      · exact h clientId opNum hbefore opNum' hold
      · exact (lt_of_below hbelow hold).le
  · refine h other opNum hrunning opNum' (invoked_of_turn (fun e he object hstart ↦ ?_) hinvoked)
    exact hother (hstarts e he _ _ object hstart).1

/-- In every run in which clients count up, the operation that a client runs is its last one. -/
theorem Latest.of_run {guard : State n → Action n → Prop} (hguard : ∀ s a, guard s a → CountsUp s a)
    (run : Run (step config) guard State.initial s) : Latest s := by
  have hinitial : Latest (State.initial : State n) := fun clientId opNum hnone ↦ by cases hnone
  refine run.invariant hinitial fun s a t h hsa hstep ↦ ?_
  have hup := hguard s a hsa
  rcases step_cases hstep with hclient | hserver
  · cases hclient with
    | write clientId opNum object payload hidle =>
      refine h.takeTurn ?_ ?_
      · rintro _ ⟨⟩
        exact Or.inr hup
      · rintro e ⟨⟩ other opNum' object' hstart
        obtain ⟨rfl, rfl⟩ : clientId = other ∧ opNum = opNum' := by
          obtain ⟨_, heq⟩ | heq := hstart <;> cases heq
          exact ⟨rfl, rfl⟩
        exact ⟨rfl, rfl⟩
    | read clientId opNum object hidle =>
      refine h.takeTurn ?_ ?_
      · rintro _ ⟨⟩
        exact Or.inr hup
      · rintro e ⟨⟩ other opNum' object' hstart
        obtain ⟨rfl, rfl⟩ : clientId = other ∧ opNum = opNum' := by
          obtain ⟨_, heq⟩ | heq := hstart <;> cases heq
          exact ⟨rfl, rfl⟩
        exact ⟨rfl, rfl⟩
    | receive i name frames turn hsent hturn =>
      exact Latest.takeTurn (s := { s with calls := s.calls.collect (i, name, frames) }) h
        (fun _ hrunning ↦ Or.inl (hturn.opNum_eq hrunning))
        fun e he _ _ _ hstart ↦ absurd hstart (hturn.not_starts he)
    | receiveElement i name frames turn hsent hturn =>
      exact Latest.takeTurn (s := { s with elements := s.elements.deliver (i, name, frames) }) h
        (fun _ hrunning ↦ Or.inl (hturn.opNum_eq hrunning))
        fun e he _ _ _ hstart ↦ absurd hstart (hturn.not_starts he)
    | timeout clientId turn hturn =>
      exact h.takeTurn (fun _ hrunning ↦ Or.inl (hturn.opNum_eq hrunning))
        fun e he _ _ _ hstart ↦ absurd hstart (hturn.not_starts he)
  · intro clientId opNum
    rw [hserver.clients_eq.1, hserver.clients_eq.2.1]
    exact h clientId opNum

/-! ### States in which nothing is in flight -/

/-- The client does not wait for messages: it has a majority of responses, or as many elements with
one tag. A writer with a majority of acknowledgements has left its loop. -/
def Client.Settled (n : ℕ) : Client → Prop
  | .get _ _ _ responses _ => majority n ≤ responses
  | .writePut _ _ _ _ => False
  | .readValue _ _ _ _ none => False
  | .readValue _ _ _ recvDataset (some decodeableKey) =>
    initializeSODAW n ≤ (dataList recvDataset decodeableKey).length
  | _ => True

instance (client : Client) : Decidable (client.Settled n) := by
  unfold Client.Settled
  split <;> infer_instance

/-- In every run servers store at least the initial tag. -/
theorem initTag_le_storedTag {guard : State n → Action n → Prop}
    (run : Run (step config) guard State.initial s) (object : CString) (i : Fin n) :
    initTag ≤ s.storedTag config object i := by
  refine run.invariant_reach (P := fun u ↦ initTag ≤ u.storedTag config object i) ?_ ?_
  · have hinitial : (State.initial : State n).storedTag config object i = initTag := by
      simp [State.storedTag, State.initial, Server.version, Server.initial, contents]
    rw [hinitial]
  · intro u a v hrun h _ hstep
    exact h.trans (storedTag_le (Shape.of_run hrun) hstep object i)

/-- What is known of every run on one object in which clients count up. -/
structure Attended (config : Config n) (object : CString) (s : State n) : Prop where
  shape : Shape config s
  sourced : Sourced config s
  numbered : Numbered s
  about : About object s
  latest : Latest s
  acknowledged : AcknowledgedStored config s
  initial : ∀ i, initTag ≤ s.storedTag config object i
  answering : Answering config s
  tallying : Tallying s
  tended : Tended config object s

theorem Attended.of_run
    (run : Run (step config) (fun s a ↦ CountsUp s a ∧ OneObject object a) State.initial s) :
    Attended config object s where
  shape := Shape.of_run run
  sourced := Sourced.of_run run
  numbered := Numbered.of_run (fun _ _ h ↦ h.1.freshNumbers) run
  about := About.of_run (fun _ _ h ↦ h.2) run
  latest := Latest.of_run (fun _ _ h ↦ h.1) run
  acknowledged := AcknowledgedStored.of_run run
  initial := initTag_le_storedTag run object
  answering := Answering.of_run run
  tallying := Tallying.of_run (fun _ _ h ↦ h.1.freshNumbers) run
  tended := Tended.of_run (fun _ _ h ↦ h.2) run

section Attended

variable {clientId : CString}

/-- At a quiescent state the servers that run have handled what they were asked. -/
theorem Quiescent.served (hquiet : Quiescent s) {name : CallId Phase} {P : Body → Prop}
    (hasked : Asked s.calls name P) {i : Fin n} (hi : i ∈ s.running) :
    ∃ request, (i, name, request) ∈ s.calls.requests.delivered ∧ P request := by
  obtain ⟨request, hmem, hP⟩ := hasked i
  exact ⟨request, hquiet.requests _ hmem (State.mem_running.mp hi), hP⟩

/-- What a client has asked for in the first phase or in `WRITE_PUT` has been answered to it by all
servers that run. -/
theorem Attended.card_running_le (h : Attended config object s) (hquiet : Quiescent s)
    {opNum : ℕ} {phase : Phase} (hawaits : (s.clients clientId).awaits = some (opNum, phase))
    (hvalue : phase ≠ .readValue) (hcomplete : phase ≠ .readComplete) {P : Body → Prop}
    (hasked : Asked s.calls ⟨clientId, opNum, phase⟩ P) :
    s.running.card ≤ (s.calls.readings ⟨clientId, opNum, phase⟩).length := by
  have hwaits : (s.clients clientId).awaits ≠ none := by simp [hawaits]
  refine card_le_of_sources fun i hi ↦ ?_
  obtain ⟨request, hmem, -⟩ := hquiet.served hasked hi
  obtain ⟨reply, hreply⟩ := h.answering.answered hmem hvalue hcomplete
  exact ⟨reply, Calls.mem_readings.mpr (hquiet.answers _ hreply hwaits)⟩

/-- The elements with one tag that servers have sent to a waiting reader have been received. -/
theorem Quiescent.card_le_received (hquiet : Quiescent s) {opNum : ℕ}
    (hawaits : (s.clients clientId).awaits = some (opNum, .readValue)) {senders : Finset (Fin n)}
    {tagStr : CString} (hsent : ∀ i ∈ senders, SentElement s i clientId opNum tagStr) :
    senders.card ≤ (received s.elements clientId opNum tagStr).length := by
  have hwaits : (s.clients clientId).awaits ≠ none := by simp [hawaits]
  refine card_le_of_sources fun i hi ↦ ?_
  obtain ⟨frames, hmem, htag⟩ := hsent i hi
  exact ⟨frames, mem_received.mpr ⟨hquiet.elements _ hmem hwaits, htag⟩⟩

/-- A server that has handled a `WRITE_PUT` stores its tag or a greater one. -/
theorem Attended.le_storedTag (h : Attended config object s) {i : Fin n} {name : CallId Phase}
    {request : Body} (hphase : name.phase = .writePut)
    (hmem : (i, name, request) ∈ s.calls.requests.delivered) :
    request.tagValue ≤ s.storedTag config object i := by
  obtain ⟨reply, hreply⟩ :=
    h.answering.answered hmem (by simp [hphase]) (by simp [hphase])
  obtain ⟨-, -, -, request', hmem', hobject, htag⟩ := h.shape.answered hreply
  obtain rfl := h.numbered.unique (h.shape.served _ hmem) (h.shape.served _ hmem')
  have hstored := h.acknowledged i name reply hreply hphase
  rwa [Body.tagValue, htag hphase, ← Body.tagValue, hobject,
    h.about.requested (h.shape.served _ hmem)] at hstored

/-- At a quiescent state a server that runs stores a tag that is at least every known one. -/
theorem Attended.le_of_known (h : Attended config object s) (hquiet : Quiescent s) {tag : Tag}
    (hknown : Known s.calls.requests.sent tag) {i : Fin n} (hi : i ∈ s.running) :
    tag ≤ s.storedTag config object i := by
  rcases hknown with rfl | ⟨j, name, request, hphase, hmem, rfl⟩
  · exact h.initial i
  · obtain ⟨request', hmem', -, htag⟩ := h.numbered.everywhere hmem i
    have hdelivered := hquiet.requests _ hmem' (State.mem_running.mp hi)
    have hstored := h.le_storedTag hphase hdelivered
    rwa [Body.tagValue, htag, ← Body.tagValue] at hstored

/-- At a quiescent state all servers that run store the same tag. -/
theorem Attended.storedTag_eq (h : Attended config object s) (hquiet : Quiescent s) {i j : Fin n}
    (hi : i ∈ s.running) (hj : j ∈ s.running) :
    s.storedTag config object i = s.storedTag config object j :=
  le_antisymm (h.le_of_known hquiet (h.answering.stored object i) hj)
    (h.le_of_known hquiet (h.answering.stored object j) hi)

/-- Servers know only operations that clients have started. -/
theorem Attended.le_of_element (h : Attended config object s) {opNum opNum' : ℕ}
    (hrunning : (s.clients clientId).opNum = some opNum) {i : Fin n} {tagStr : CString}
    (hsent : SentElement s i clientId opNum' tagStr) : opNum' ≤ opNum := by
  obtain ⟨frames, hmem, -⟩ := hsent
  obtain ⟨-, ⟨request, hrequest, -⟩, -⟩ := h.sourced.element hmem
  exact h.latest clientId opNum hrunning opNum'
    (h.numbered.issued ⟨i, request, h.shape.served _ hrequest⟩)

section Reader

variable {opNum : ℕ} {object' : CString} {readTag : Tag} {recvDataset : ZHash (List Frame)}

/-- A server that is done with the operation of a waiting reader has seen that enough servers have
sent it elements with one tag. -/
theorem Attended.released (h : Attended config object s) {decodeableKey : Option CString}
    (hclient : s.clients clientId = .readValue opNum object' readTag recvDataset decodeableKey)
    {i : Fin n} {readed : RegReader}
    (hreaded : (s.servers i).tables.readedTable.lookup clientId = some readed)
    (hle : opNum ≤ readed.opnum) : Released s clientId opNum := by
  have hrunning : (s.clients clientId).opNum = some opNum := by rw [hclient]; rfl
  rcases h.tended.readed hreaded with ⟨senders, hcard, tagStr, hsent⟩ | ⟨request, hmem⟩
  · obtain ⟨k, hk⟩ : senders.Nonempty := Finset.card_pos.mp ((majority_pos n).trans_le hcard)
    obtain rfl := le_antisymm hle (h.le_of_element hrunning (hsent k hk))
    exact ⟨senders, hcard, tagStr, hsent⟩
  · have hissued : s.calls.Issued ⟨clientId, readed.opnum, .readComplete⟩ :=
      ⟨i, request, h.shape.served _ hmem⟩
    obtain rfl := le_antisymm hle (h.latest clientId opNum hrunning _ (h.numbered.issued hissued))
    have hasked := h.numbered.clients clientId
    rw [hclient] at hasked
    exact absurd hissued hasked.2.2

/-- At a quiescent state in which enough servers run, enough servers have sent a reader that has not
decided elements with one tag. -/
theorem Attended.exists_senders (h : Attended config object s) (hquiet : Quiescent s)
    (hmany : initializeSODAW n ≤ s.running.card)
    (hclient : s.clients clientId = .readValue opNum object' readTag recvDataset none) :
    Released s clientId opNum := by
  have hrunning : (s.clients clientId).opNum = some opNum := by rw [hclient]; rfl
  have hasked := h.numbered.clients clientId
  have htold := h.answering.clients clientId
  rw [hclient] at hasked htold
  obtain ⟨-, hasked, -⟩ := hasked
  by_contra hreleased
  -- every server that runs has the reader registered, and has sent it what it stores
  have hsent : ∀ i ∈ s.running,
      SentElement s i clientId opNum (tagToString (s.storedTag config object i)) := by
    intro i hi
    obtain ⟨request, hmem, -⟩ := hquiet.served hasked hi
    rcases h.tended.reached hmem rfl with ⟨readed, hreaded, hle⟩ | ⟨reading, hreading, hle⟩
    · exact absurd (h.released hclient hreaded hle) hreleased
    · obtain ⟨-, request', hmem', htag⟩ := h.sourced.registered hreading
      have hsent' := h.shape.served _ hmem'
      have hopNum : reading.opnum = opNum := le_antisymm
        (h.latest clientId opNum hrunning _ (h.numbered.issued ⟨i, request', hsent'⟩)) hle
      rw [hopNum] at hsent'
      rw [(hasked.of_mem h.numbered hsent').2] at htag
      have hcurrent := h.tended.current hreading (htag ▸ h.le_of_known hquiet htold hi)
      rwa [hopNum] at hcurrent
  obtain ⟨j, hj⟩ : s.running.Nonempty := Finset.card_pos.mp ((majority_pos n).trans_le hmany)
  refine hreleased ⟨s.running, hmany, tagToString (s.storedTag config object j), fun i hi ↦ ?_⟩
  rw [h.storedTag_eq hquiet hj hi]
  exact hsent i hi

end Reader

/-- At a quiescent state in which enough servers run, no client waits. -/
theorem Attended.settled (h : Attended config object s) (hquiet : Quiescent s)
    (hmany : initializeSODAW n ≤ s.running.card) (clientId : CString) :
    (s.clients clientId).Settled n := by
  have hasked := h.numbered.clients clientId
  have htally := h.tallying.clients clientId
  rcases hclient : s.clients clientId with - | ⟨opNum, object', operation, responses, tagList⟩ |
    ⟨opNum, object', tag, responses⟩ | ⟨opNum, object', readTag, recvDataset, decodeableKey⟩ | -
  · trivial
  · rw [hclient] at hasked htally
    have hcard := h.card_running_le hquiet (by rw [hclient]; rfl)
      (by cases operation <;> simp [Operation.getPhase])
      (by cases operation <;> simp [Operation.getPhase]) hasked.2.1
    exact hmany.trans (hcard.trans htally)
  · rw [hclient] at hasked htally
    have hcard := h.card_running_le hquiet (by rw [hclient]; rfl) (by simp) (by simp) hasked.2
    exact absurd (hmany.trans (hcard.trans htally.1)) (not_le.mpr htally.2)
  · rw [hclient] at htally
    rcases decodeableKey with - | tagStr
    · obtain ⟨senders, hsenders, tagStr, hsent⟩ := h.exists_senders hquiet hmany hclient
      have hcard := hquiet.card_le_received (by rw [hclient]; rfl) hsent
      obtain ⟨hlist, hfew⟩ := htally tagStr
      exact absurd (hsenders.trans (hcard.trans hlist)) (not_le.mpr hfew)
    · exact htally
  · trivial

end Attended

/-! ### Runs -/

/-- No server is done with the operation of a waiting reader before enough servers have sent the
reader elements with one tag. -/
def KeepsReaders (s : State n) : Prop :=
  ∀ i clientId opNum object readTag recvDataset decodeableKey readed,
    s.clients clientId = .readValue opNum object readTag recvDataset decodeableKey →
      (s.servers i).tables.readedTable.lookup clientId = some readed → opNum ≤ readed.opnum →
        Released s clientId opNum

/-- In every run on one object in which clients count up, no server drops a reader before the reader
can finish, and if nothing is in flight and no more servers have stopped than a majority allows, no
client waits. -/
theorem settled_of_quiescent (run : Run (step config)
      (fun s a ↦ CountsUp s a ∧ OneObject object a) State.initial s) :
    KeepsReaders s ∧ (s.stopped.card + initializeSODAW n ≤ n → Quiescent s →
      ∀ clientId, (s.clients clientId).Settled n) := by
  have hattended := Attended.of_run run
  refine ⟨fun i clientId opNum object' readTag recvDataset decodeableKey readed hclient hreaded ↦
    hattended.released hclient hreaded, fun hstopped hquiet ↦ hattended.settled hquiet ?_⟩
  have hcard := s.card_running
  omega

/-- In the run on three servers, of which the last has stopped, the reader has decided once nothing
is in flight. -/
theorem settled_of_quiescent_sample : ∃ s : State 3,
    s.stopped.card = 1 ∧ Quiescent s ∧ KeepsReaders s ∧
      ∀ clientId, (s.clients clientId).Settled 3 := by
  have hview : (execute (step (sampleConfig 3))
      (fun s a ↦ CountsUp s a ∧ OneObject (ascii ['o']) a) State.initial
      (sampleWrite [1, 2, 3, 4] ++ sampleRead [1, 2, 3, 4] ++
        [.serve (0, ⟨ascii ['r'], 1, .readGet⟩, ⟨ascii ['o'], [], []⟩), .stop 2])).map
          (fun s ↦ decide (s.stopped.card = 1 ∧ Quiescent s)) = some true := by
    decide +kernel
  obtain ⟨s, hexecute, hs⟩ := Option.map_eq_some_iff.mp hview
  obtain ⟨hstopped, hquiet⟩ := of_decide_eq_true hs
  obtain ⟨hkeeps, hsettled⟩ := settled_of_quiescent (run_of_execute hexecute)
  have hfew : s.stopped.card + initializeSODAW 3 ≤ 3 := by
    rw [hstopped]
    decide +kernel
  exact ⟨s, hstopped, hquiet, hkeeps, hsettled hfew hquiet⟩

/-- After `sampleRead` the reader starts operation 0, and the first two servers ignore its
`READ_VALUE` because they are done with operation 1. -/
def sampleLateRead (first second third : Fin 3) : List (Action 3) :=
  let object := ascii ['o']
  let reader := ascii ['r']
  let tagStr := tagToString ⟨1, ascii ['w']⟩
  [ .serve (first, ⟨reader, 1, .readGet⟩, ⟨object, [], []⟩),
    .stop third,
    .timeout reader,
    .serve (first, ⟨reader, 1, .readComplete⟩, ⟨object, tagStr, []⟩),
    .serve (second, ⟨reader, 1, .readComplete⟩, ⟨object, tagStr, []⟩),
    .invokeRead reader 0 object,
    .receive (first, ⟨reader, 1, .readGet⟩, ⟨object, tagStr, []⟩),
    .serve (first, ⟨reader, 0, .readGet⟩, ⟨object, [], []⟩),
    .serve (second, ⟨reader, 0, .readGet⟩, ⟨object, [], []⟩),
    .receive (first, ⟨reader, 0, .readGet⟩, ⟨object, tagStr, []⟩),
    .receive (second, ⟨reader, 0, .readGet⟩, ⟨object, tagStr, []⟩),
    .timeout reader,
    .serve (first, ⟨reader, 0, .readValue⟩, ⟨object, tagStr, []⟩),
    .serve (second, ⟨reader, 0, .readValue⟩, ⟨object, tagStr, []⟩) ]

/-- If operation numbers are fresh but not counted up, a reader can wait with nothing in flight. -/
theorem ignored_reader : ∃ s : State 3,
    Run (step (sampleConfig 3)) (OnObject (ascii ['o'])) State.initial s ∧
      s.stopped.card + initializeSODAW 3 ≤ 3 ∧ Quiescent s ∧
        ¬ (s.clients (ascii ['r'])).Settled 3 := by
  have hview : (execute (step (sampleConfig 3)) (OnObject (ascii ['o'])) State.initial
      (sampleWrite [1, 2, 3, 4] ++ sampleRead [1, 2, 3, 4] ++ sampleLateRead 0 1 2)).map
        (fun s ↦ decide (s.stopped.card + initializeSODAW 3 ≤ 3 ∧ Quiescent s ∧
          ¬ (s.clients (ascii ['r'])).Settled 3)) = some true := by
    decide +kernel
  obtain ⟨s, hexecute, hs⟩ := Option.map_eq_some_iff.mp hview
  exact ⟨s, run_of_execute hexecute, of_decide_eq_true hs⟩

end Colas.Sodaw
