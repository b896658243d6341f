import Colas.Abd.Quorums
import Colas.BaseProcess.Writers

/-!
# Atomicity of the ABD register

A completed operation had its tag acknowledged by a majority, and an operation that starts later
samples a majority; the two meet. What the argument needs of the servers is that an acknowledged tag
is not above the stored one. A server acknowledges also the tags that it does not adopt, so this
depends on how tags are compared. On version numbers it holds in every run, because a server adopts
every tag with a greater version number (`AcknowledgedStored.of_run` at `Tag.number`): a write that
starts after an operation has returned chooses a greater version number, and no two writes have the
same tag. On whole tags it holds in the runs in which `compare_tags` of a stored tag and a greater
one is `-1` (`AcknowledgedStored.of_run` at `id`), and these are the runs in which reads return tags
in order. Both arguments are one, over a monotone rank of tags.

`strcmp` may return another negative number, and then a read can return an older tag than an earlier
one: `stale_read` is such a run on one server.
-/

set_option autoImplicit false
set_option relaxedAutoImplicit false

namespace Colas.Abd

open TransitionSystem Quorum

variable {n : ℕ}

section Ranked

variable {L : Type} [Preorder L] {rank : Tag → L} {strcmp : Strcmp} {initData : Frame}
  {s t : State n}

/-- A response about the object reports the rank of its tag. -/
def Reports (rank : Tag → L) (object : CString) (frames : Body) (level : L) : Prop :=
  frames.object = object ∧ level = rank frames.tagValue

/-- The rank of the tag that a server stores. -/
def level (rank : Tag → L) (initData : Frame) (s : State n) (object : CString) (i : Fin n) : L :=
  rank (s.storedTag initData object i)

/-- No server has acknowledged a tag of greater rank than the one it stores. -/
def AcknowledgedStored (rank : Tag → L) (initData : Frame) (s : State n) : Prop :=
  ∀ i name frames, (i, name, frames) ∈ s.calls.answers.sent → name.phase = .writeValue →
    rank frames.tagValue ≤ level rank initData s frames.object i

/-- A tag that is not adopted has at most the rank of the stored one. -/
def RefusesOnlySmaller (rank : Tag → L) (strcmp : Strcmp) (initData : Frame) (s : State n) :
    Action n → Prop
  | .serve (i, name, frames) => name.phase = .writeValue →
    compareTags strcmp (s.storedTag initData frames.object i) frames.tagValue ≠ -1 →
      rank frames.tagValue ≤ level rank initData s frames.object i
  | _ => True

omit [Preorder L] in
/-- A step of a server under the name of another phase answers with a rank that is at least the
rank it stores. -/
theorem level_le_of_new_answer (hshape : Shape initData s) {a : Action n}
    (hstep : step strcmp initData s a = some t) {i : Fin n} {name : CallId Phase} {frames : Body}
    (hnew : (i, name, frames) ∈ t.calls.answers.sent)
    (hold : (i, name, frames) ∉ s.calls.answers.sent) (hphase : name.phase ≠ .writeValue) :
    level rank initData s frames.object i = rank frames.tagValue := by
  rcases step_cases hstep with hclient | hserver
  · refine absurd ?_ hold
    cases hclient with
    | write => simpa using hnew
    | read => simpa using hnew
    | receive => simpa using hnew
  · obtain ⟨j, other, request, server, rfl, -, rfl, -, -⟩ := hserver.eq hshape
    rcases List.mem_cons.mp hnew with heq | hmem
    · obtain ⟨rfl, rfl, rfl⟩ := by simpa using heq
      cases hcase : name.phase with
      | getTag => simp [level, State.storedTag, response]
      | getTagValue => simp [level, State.storedTag, response]
      | writeValue => exact absurd hcase hphase
    · exact absurd hmem hold

/-- A fenced rank stays fenced in every step. -/
theorem fenced_step (hrank : Monotone rank) (hshape : Shape initData s) {a : Action n}
    (hstep : step strcmp initData s a = some t) {name : CallId Phase}
    (hphase : name.phase ≠ .writeValue) {object : CString} {l : L}
    (h : Fenced s.calls.answers.sent name (Reports rank object) (level rank initData s object) l) :
    Fenced t.calls.answers.sent name (Reports rank object) (level rank initData t object) l := by
  refine h.step (fun i ↦ hrank (storedTag_le hshape hstep object i)) ?_
  rintro i frames hnew hold l' ⟨rfl, rfl⟩
  exact (level_le_of_new_answer hshape hstep hnew hold hphase).le

/-- A fenced rank stays fenced in every run. -/
theorem fenced_run (hrank : Monotone rank) {guard : State n → Action n → Prop}
    (hshape : Shape initData s) (run : Run (step strcmp initData) guard s t) {name : CallId Phase}
    (hphase : name.phase ≠ .writeValue) {object : CString} {l : L}
    (h : Fenced s.calls.answers.sent name (Reports rank object) (level rank initData s object) l) :
    Fenced t.calls.answers.sent name (Reports rank object) (level rank initData t object) l := by
  refine (run.invariant (P := fun u ↦ Shape initData u ∧ Fenced u.calls.answers.sent name
    (Reports rank object) (level rank initData u object) l) ⟨hshape, h⟩ ?_).2
  rintro u a v ⟨hu, hfence⟩ - hstep
  exact ⟨(step_cases hstep).elim hu.clientStep hu.serverStep,
    fenced_step hrank hu hstep hphase hfence⟩

/-- In runs whose servers refuse only smaller tags, acknowledged tags are not above the stored
ones. -/
theorem AcknowledgedStored.of_run (hrank : Monotone rank) {guard : State n → Action n → Prop}
    (hguard : ∀ s a, guard s a → RefusesOnlySmaller rank strcmp initData s a)
    (run : Run (step strcmp initData) guard State.initial s) :
    AcknowledgedStored rank initData s := by
  refine run.invariant_reach (fun _ _ _ hmem ↦ absurd hmem List.not_mem_nil)
    fun s a t hrun h hsa hstep i name frames hmem hphase ↦ ?_
  have hshape := Shape.of_run hrun
  have hgrow := hrank (storedTag_le hshape hstep frames.object i)
  by_cases hold : (i, name, frames) ∈ s.calls.answers.sent
  · exact (h i name frames hold hphase).trans hgrow
  · rcases step_cases hstep with hclient | hserver
    · refine absurd ?_ hold
      cases hclient with
      | write => simpa using hmem
      | read => simpa using hmem
      | receive => simpa using hmem
    · obtain ⟨j, other, request, server, rfl, hsent, rfl, -, hversion⟩ := hserver.eq hshape
      obtain ⟨rfl, rfl, rfl⟩ : i = j ∧ name = other ∧
          frames = response ((s.servers j).version initData) other.phase request := by
        rcases List.mem_cons.mp hmem with heq | hmem
        · simpa using heq
        · exact absurd hmem hold
      -- the acknowledgement repeats the object and the tag of the request
      have hreply : response ((s.servers i).version initData) name.phase request =
          ⟨request.object, request.tag, []⟩ := by rw [hphase]; rfl
      rw [hreply] at hgrow ⊢
      by_cases hadopts : compareTags strcmp (s.storedTag initData request.object i)
          request.tagValue = -1
      · have hstored : (s.handle (i, name, request) server
            ⟨request.object, request.tag, []⟩).storedTag initData request.object i =
              request.tagValue := by
          rw [State.storedTag, version_handle, if_pos rfl, hversion, if_pos ⟨hphase, hadopts⟩,
            Function.update_self]
        rw [level, hstored]
        exact le_rfl
      · exact (hguard s _ hsa hphase hadopts).trans hgrow

/-- What a majority has acknowledged a majority stores. -/
theorem heldByMajority_of_completed (hcounting : Counting s)
    (h : AcknowledgedStored rank initData s) {object : CString} {tag : Tag}
    (hcompleted : Completed s.history object tag) :
    HeldByMajority (level rank initData s object) (rank tag) := by
  have hstored : ∀ {clientId opNum}, Acknowledged s.calls.answers.sent clientId opNum object tag →
      HeldByMajority (level rank initData s object) (rank tag) := fun hacknowledged ↦ by
    refine hacknowledged.held ?_
    rintro i frames hmem ⟨rfl, rfl⟩
    exact h i _ frames hmem rfl
  rcases hcompleted with ⟨clientId, opNum, hmem⟩ | ⟨clientId, opNum, value, hmem⟩
  · exact hstored (hcounting.events _ hmem).1
  · exact hstored (hcounting.events _ hmem).1

/-- An operation that starts after another one has returned samples a majority above the tag of the
other. -/
theorem rank_le_of_completed (hrank : Monotone rank) {guard : State n → Action n → Prop}
    (hstart : Counting s) (hshape : Shape initData s) (h : AcknowledgedStored rank initData s)
    {object : CString} {tag : Tag} (hcompleted : Completed s.history object tag)
    {clientId : CString} {opNum : ℕ} (hnew : ¬ Invoked s.history clientId opNum)
    (run : Run (step strcmp initData) guard s t) {phase : Phase} (hphase : phase ≠ .writeValue)
    {bound : L} (hreported : ReportedByMajority t.calls.answers.sent ⟨clientId, opNum, phase⟩
      fun _ frames ↦ frames.object = object ∧ rank frames.tagValue ≤ bound) : rank tag ≤ bound := by
  have hfenced : Fenced s.calls.answers.sent ⟨clientId, opNum, phase⟩ (Reports rank object)
      (level rank initData s object) (rank tag) :=
    (heldByMajority_of_completed hstart h hcompleted).fenced fun i frames hmem ↦
      hnew (hstart.issued (hstart.calls.issued_of_answer hmem))
  refine (fenced_run hrank hshape run hphase hfenced).le_of_reported ?_
  exact hreported.mono (fun _ hm ↦ hm) fun i frames _ hP ↦
    ⟨rank frames.tagValue, ⟨hP.1, rfl⟩, hP.2⟩

end Ranked

section Runs

variable {strcmp : Strcmp} {initData : Frame} {s t : State n}

/-- A step adds at most one event. -/
theorem exists_event {a : Action n} (hstep : step strcmp initData s a = some t) :
    ∃ e : Option Event, t.history = e.toList ++ s.history := by
  rcases step_cases hstep with hclient | hserver
  · cases hclient with
    | write => exact ⟨_, rfl⟩
    | read => exact ⟨_, rfl⟩
    | receive => exact ⟨_, rfl⟩
  · cases hserver
    exact ⟨none, rfl⟩

/-- No operation starts on a response. -/
theorem Receives.event_ne {clientId : CString} {heap : Heap} {round : ℕ}
    {phase : Phase} {frames : Body} {client : Client} {turn : Turn n Client Phase}
    (h : Receives strcmp clientId heap round frames phase client turn) (other : CString)
    (opNum : ℕ) (object : CString) (payload : Frame) :
    turn.event ≠ some (.writeInvoked other opNum object payload) ∧
      turn.event ≠ some (.readInvoked other opNum object) := by
  cases h with
  | @complete object tag operation => cases operation <;> simp [finish, Operation.completed]
  | _ => simp [waiting, startWrite, startWriteBack]

/-- Under `Guard`, the number of an operation is new when the operation is invoked. -/
theorem not_invoked_of_event {a : Action n} (hguard : Guard s a)
    (hstep : step strcmp initData s a = some t) {e : Event} (he : t.history = e :: s.history)
    {clientId : CString} {opNum : ℕ} {object : CString}
    (hinvokes : (∃ payload, e = .writeInvoked clientId opNum object payload) ∨
      e = .readInvoked clientId opNum object) : ¬ Invoked s.history clientId opNum := by
  rcases step_cases hstep with hclient | hserver
  · cases hclient with
    | write clientId' opNum' object' payload' =>
      obtain rfl : .writeInvoked clientId' opNum' object' payload' = e := by
        simpa [abdWrite] using he
      obtain ⟨payload, heq⟩ | heq := hinvokes
      · obtain ⟨rfl, rfl, -, -⟩ := Event.writeInvoked.inj heq
        exact hguard
      · exact absurd heq Event.noConfusion
    | read clientId' opNum' object' =>
      obtain rfl : .readInvoked clientId' opNum' object' = e := by simpa [abdRead] using he
      obtain ⟨payload, heq⟩ | heq := hinvokes
      · exact absurd heq Event.noConfusion
      · obtain ⟨rfl, rfl, -⟩ := Event.readInvoked.inj heq
        exact hguard
    | receive i name frames heap turn hsent hturn =>
      have hevent : turn.event = some e := by
        rcases hcase : turn.event with - | e'
        · simp [hcase] at he
        · simpa [hcase] using he
      rcases hinvokes with ⟨payload, rfl⟩ | rfl
      · exact absurd hevent (hturn.event_ne clientId opNum object payload).1
      · exact absurd hevent (hturn.event_ne clientId opNum object []).2
  · cases hserver
    simp [State.handle] at he

/-- An operation that is invoked after another one has returned samples a majority above the tag of
the other. -/
theorem rank_le_of_invoked {L : Type} [Preorder L] {rank : Tag → L} (hrank : Monotone rank)
    {guard : State n → Action n → Prop} (hguard : ∀ s a, guard s a → Guard s a)
    (hkeeps : ∀ s a, guard s a → RefusesOnlySmaller rank strcmp initData s a)
    (run : Run (step strcmp initData) guard State.initial s) {later earlier : List Event}
    {e : Event} (hsplit : s.history = later ++ e :: earlier) {object : CString} {tag : Tag}
    (hcompleted : Completed earlier object tag) {clientId : CString} {opNum : ℕ}
    (hinvokes : (∃ payload, e = .writeInvoked clientId opNum object payload) ∨
      e = .readInvoked clientId opNum object) {phase : Phase} (hphase : phase ≠ .writeValue)
    {bound : L} (hreported : ReportedByMajority s.calls.answers.sent ⟨clientId, opNum, phase⟩
      fun _ frames ↦ frames.object = object ∧ rank frames.tagValue ≤ bound) : rank tag ≤ bound := by
  obtain ⟨before, a, after, hbefore, rfl, ha, hstep, hafter, hrest⟩ :=
    Run.split_history State.history (fun _ _ _ ↦ exists_event) run rfl hsplit
  have hnew := not_invoked_of_event (hguard _ _ ha) hstep hafter hinvokes
  exact rank_le_of_completed hrank (Counting.of_run (hbefore.weaken hguard)) (Shape.of_run hbefore)
    (AcknowledgedStored.of_run hrank hkeeps hbefore) hcompleted hnew
    ((Run.single ha hstep).trans hrest) hphase hreported

/-- Every negative result of `compare_tags` of the stored tag and the tag of a `WRITE_VALUE` is
`-1`. -/
def ComparesToMinusOne (strcmp : Strcmp) (initData : Frame) (s : State n) : Action n → Prop
  | .serve (i, name, frames) => name.phase = .writeValue →
    compareTags strcmp (s.storedTag initData frames.object i) frames.tagValue < 0 →
      compareTags strcmp (s.storedTag initData frames.object i) frames.tagValue = -1
  | _ => True

/-- In every run in which the negative results of `compare_tags` are `-1`, reads do not go back. -/
theorem readsInOrder (run : Run (step strcmp initData)
      (fun s a ↦ Guard s a ∧ ComparesToMinusOne strcmp initData s a) State.initial s) :
    ReadsInOrder Completed s.history := by
  intro later earlier clientId opNum object tag tag' hsplit hcompleted hreturned
  have hcounting := Counting.of_run (run.weaken fun _ _ h ↦ h.1)
  have hsub : later ⊆ s.history := hsplit ▸ List.subset_append_left _ _
  have hreported : ReportedByMajority s.calls.answers.sent ⟨clientId, opNum, .getTagValue⟩
      fun _ frames ↦ frames.object = object ∧ frames.tagValue ≤ tag' := by
    rcases hreturned with ⟨value, hmem⟩ | ⟨value, hmem⟩
    · exact hcounting.events _ (hsub hmem)
    · exact hcounting.events _ (hcounting.events _ (hsub hmem)).2
  refine rank_le_of_invoked monotone_id (fun _ _ h ↦ h.1) ?_ run hsplit hcompleted
    (Or.inr rfl) (by decide) hreported
  rintro u a ⟨-, ha⟩
  cases a with
  | serve request =>
    intro hphase hne
    exact not_lt.mp fun hlt ↦ hne (ha hphase ((compareTags_neg_iff strcmp _ _).mpr hlt))
  | _ => trivial

instance (s : State n) (a : Action n) : Decidable (ComparesToMinusOne strcmp initData s a) := by
  cases a <;> unfold ComparesToMinusOne <;> infer_instance

/-- These servers handle the request of a client. -/
def servedBy (servers : List (Fin n)) (clientId : CString) (phase : Phase) (request : Body) :
    List (Action n) :=
  servers.map fun i ↦ .serve (i, ⟨clientId, 1, phase⟩, request)

/-- The client receives the response from these servers. -/
def receivedFrom (servers : List (Fin n)) (clientId : CString) (phase : Phase) (response : Body) :
    List (Action n) :=
  servers.map fun i ↦ .receive (i, ⟨clientId, 1, phase⟩, response) .adjacent

/-- Two writers of one object at three servers, which both choose version number `1` and store their
payloads with the first two, and a read that starts after the write of `w3` has returned. It gets
`tag` and `payload` from the second server and the initial version from the third one, and writes
the value back to the first two. -/
def raceSchedule (first second third : Fin 3) (initData payload₁ payload₃ : Frame) (tag : Tag)
    (payload : Frame) : List (Action 3) :=
  let object := ascii ['o']
  let writer₁ := ascii ['w', '1']
  let writer₃ := ascii ['w', '3']
  let reader := ascii ['r']
  let ask : Body := ⟨object, [], []⟩
  [.invokeWrite writer₁ 1 object payload₁, .invokeWrite writer₃ 1 object payload₃] ++
    servedBy [first, second] writer₁ .getTag ask ++
    servedBy [first, second] writer₃ .getTag ask ++
    receivedFrom [first, second] writer₁ .getTag ⟨object, tagToString initTag, []⟩ ++
    receivedFrom [first, second] writer₃ .getTag ⟨object, tagToString initTag, []⟩ ++
    servedBy [first, second] writer₁ .writeValue ⟨object, tagToString ⟨1, writer₁⟩, payload₁⟩ ++
    servedBy [first, second] writer₃ .writeValue ⟨object, tagToString ⟨1, writer₃⟩, payload₃⟩ ++
    receivedFrom [first, second] writer₃ .writeValue ⟨object, tagToString ⟨1, writer₃⟩, []⟩ ++
    [.invokeRead reader 1 object] ++
    servedBy [second, third] reader .getTagValue ask ++
    receivedFrom [second] reader .getTagValue ⟨object, tagToString tag, payload⟩ ++
    receivedFrom [third] reader .getTagValue ⟨object, tagToString initTag, initData⟩ ++
    servedBy [first, second] reader .writeValue
      ⟨object, tagToString tag, (DupFrame.adjacent payload).writeBackPayload⟩ ++
    receivedFrom [first, second] reader .writeValue ⟨object, tagToString tag, []⟩

/-- The history of `raceSchedule`. -/
def raceHistory (payload₁ payload₃ : Frame) (tag : Tag) (payload : Frame) : List Event :=
  let object := ascii ['o']
  let writer₁ := ascii ['w', '1']
  let writer₃ := ascii ['w', '3']
  let reader := ascii ['r']
  [ .readCompleted reader 1 object tag payload,
    .readTagged reader 1 object tag (some payload),
    .readInvoked reader 1 object,
    .writeCompleted writer₃ 1 object ⟨1, writer₃⟩,
    .writeTagged writer₃ 1 object ⟨1, writer₃⟩ payload₃,
    .writeTagged writer₁ 1 object ⟨1, writer₁⟩ payload₁,
    .writeInvoked writer₃ 1 object payload₃,
    .writeInvoked writer₁ 1 object payload₁ ]

/-- A payload of the least length that a reader accepts. -/
def hundredBytes (b : Byte) : Frame := List.replicate 100 b

/-- The servers refuse the greater tag of the writer `w3`, because `strcmp` returns `-2`, and
acknowledge it; the read that starts afterwards returns the tag of `w1`. -/
theorem stale_read : ∃ s : State 3,
    Run (step Strcmp.difference (hundredBytes 0)) Guard State.initial s ∧
      ¬ ReadsInOrder Completed s.history := by
  have hhistory : (execute (step Strcmp.difference (hundredBytes 0)) Guard State.initial
      (raceSchedule 0 1 2 (hundredBytes 0) (hundredBytes 1) (hundredBytes 3)
        ⟨1, ascii ['w', '1']⟩ (hundredBytes 1))).map State.history =
      some (raceHistory (hundredBytes 1) (hundredBytes 3) ⟨1, ascii ['w', '1']⟩
        (hundredBytes 1)) := by
    decide +kernel
  obtain ⟨s, hexecute, hs⟩ := Option.map_eq_some_iff.mp hhistory
  refine ⟨s, run_of_execute hexecute, fun horder ↦ ?_⟩
  rw [hs] at horder
  have hle := horder [_, _] (List.drop 3 (raceHistory (hundredBytes 1) (hundredBytes 3)
    ⟨1, ascii ['w', '1']⟩ (hundredBytes 1))) (ascii ['r']) 1 (ascii ['o'])
    ⟨1, ascii ['w', '3']⟩ ⟨1, ascii ['w', '1']⟩ rfl (Or.inl ⟨_, _, List.mem_cons_self⟩)
    (Or.inr ⟨_, List.mem_cons_self⟩)
  exact absurd hle (not_le.mpr ((Tag.lt_iff _ _).mpr (Or.inr ⟨rfl, by decide⟩)))

/-- With a `strcmp` that returns `-1` the servers adopt the tag of `w3`, and the read returns it. -/
theorem readsInOrder_race : ∃ s : State 3,
    s.history = raceHistory (hundredBytes 1) (hundredBytes 3) ⟨1, ascii ['w', '3']⟩
      (hundredBytes 3) ∧ ReadsInOrder Completed s.history := by
  have hhistory : (execute (step Strcmp.sign (hundredBytes 0))
      (fun s a ↦ Guard s a ∧ ComparesToMinusOne Strcmp.sign (hundredBytes 0) s a) State.initial
      (raceSchedule 0 1 2 (hundredBytes 0) (hundredBytes 1) (hundredBytes 3)
        ⟨1, ascii ['w', '3']⟩ (hundredBytes 3))).map State.history =
      some (raceHistory (hundredBytes 1) (hundredBytes 3) ⟨1, ascii ['w', '3']⟩
        (hundredBytes 3)) := by
    decide +kernel
  obtain ⟨s, hexecute, hs⟩ := Option.map_eq_some_iff.mp hhistory
  exact ⟨s, hs, readsInOrder (run_of_execute hexecute)⟩

/-- A server adopts every tag with a greater version number. -/
theorem refusesOnlySmaller_z (s : State n) (a : Action n) :
    RefusesOnlySmaller Tag.number strcmp initData s a := by
  cases a with
  | serve request => exact fun _ hne ↦ number_le_of_compareTags_ne_neg_one strcmp _ _ hne
  | _ => trivial

/-- In every run writes increase the version number. -/
theorem writesIncrease (run : Run (step strcmp initData) Guard State.initial s) :
    WritesIncrease Completed s.history := by
  intro later earlier clientId opNum object payload tag tag' payload' hsplit hcompleted htagged
  have hcounting := Counting.of_run run
  have hsub : later ⊆ s.history := hsplit ▸ List.subset_append_left _ _
  have hreported : ReportedByMajority s.calls.answers.sent ⟨clientId, opNum, .getTag⟩
      fun _ frames ↦ frames.object = object ∧ frames.tagValue.number ≤ tag'.number - 1 :=
    ReportedByMajority.mono (hcounting.events _ (hsub htagged)) (fun _ hm ↦ hm)
      fun i frames _ hP ↦ ⟨hP.1, by have := hP.2; omega⟩
  have hle := rank_le_of_invoked Tag.monotone_number (fun _ _ h ↦ h)
    (fun u a _ ↦ refusesOnlySmaller_z u a) run hsplit hcompleted (Or.inl ⟨payload, rfl⟩)
    (by decide) hreported
  omega

/-! ### No two writes have the same tag -/

/-- Where a client is with its writes. -/
def Client.stage : Client → Stage
  | .idle => .resting
  | .getMaxTag opNum object _ _ _ => .choosing opNum object
  | .getMaxTagValue _ _ _ _ _ => .resting
  | .writeValue opNum object tag .write _ => .storing opNum object tag
  | .writeValue _ _ _ (.read _) _ => .resting
  | .exited => .ended

/-- A version number is fenced for an operation when a majority stores it and has reported nothing
below it to the operation. -/
def FencedNumber (initData : Frame) (s : State n) (clientId : CString) (opNum : ℕ)
    (object : CString) (z : ℤ) : Prop :=
  Fenced s.calls.answers.sent ⟨clientId, opNum, .getTag⟩ (Reports Tag.number object)
    (level Tag.number initData s object) z

/-- A step of a client is a move of that client. -/
theorem ClientStep.move (hcounting : Counting s) (hcounting' : Counting t)
    (hstored : AcknowledgedStored Tag.number initData s) {a : Action n} (hguard : Guard s a)
    (hstep : ClientStep strcmp s a t) :
    ∃ clientId event client, t.history = event.toList ++ s.history ∧
      t.clients = Function.update s.clients clientId client ∧
      Move s.history (FencedNumber initData s) (FencedNumber initData t) clientId
        (s.clients clientId).stage event client.stage := by
  cases hstep with
  | write clientId opNum object payload hidle =>
    refine ⟨clientId, _, _, rfl, rfl, ?_⟩
    rw [hidle]
    refine Move.invoke opNum object payload hguard fun opNum' tag hmem ↦ ?_
    have hheld := heldByMajority_of_completed hcounting hstored (Or.inl ⟨clientId, opNum', hmem⟩)
    refine hheld.fenced fun i frames hanswer ↦ hguard ?_
    rw [calls_takeTurn, Turn.answers_sendOn] at hanswer
    exact hcounting.issued (hcounting.calls.issued_of_answer hanswer)
  | read clientId opNum object hidle =>
    refine ⟨clientId, _, _, rfl, rfl, ?_⟩
    rw [hidle]
    exact Move.readInvoked opNum object
  | receive i name frames heap turn hsent hturn =>
    refine ⟨name.client, turn.event, turn.client, rfl, rfl, ?_⟩
    have hown := hcounting.clients name.client
    have hevents := hcounting'.events
    obtain ⟨clientId, opNum, phase⟩ := name
    generalize s.clients clientId = client at hturn hown
    cases hturn with
    | stale => exact Move.stay _
    | ended => exact Move.leave _
    | countTag => exact Move.stay _
    | @chooseTag object rawData responses tagList newTag hmany hnext =>
      obtain ⟨hnumber, hid⟩ := Tag.next_eq_some_iff.mp hnext
      refine Move.choose opNum object _ rawData hid (Or.inl ⟨object, rawData, hown.2.2.1⟩) ?_
      intro z hfenced
      have hreported := hevents _ List.mem_cons_self
      have hle : z ≤ newTag.number - 1 := hfenced.le_of_reported
        (ReportedByMajority.mono hreported (fun m hm ↦ by simpa using hm)
          fun j answer _ hP ↦ ⟨answer.tagValue.number, ⟨hP.1, rfl⟩, Int.le_sub_one_of_lt hP.2⟩)
      exact Int.lt_of_le_sub_one hle
    | countValue => exact Move.stay _
    | chooseValue => exact Move.readTagged _ _ _ _
    | @countAck object tag operation =>
      cases operation with
      | write => exact Move.stay _
      | read data => exact Move.stay _
    | @complete object tag operation =>
      cases operation with
      | write => exact Move.complete _ _ _
      | read data => exact Move.readCompleted _ _ _ _

/-- The writes of every run are sequential. -/
theorem sequentialWriters_of_run (run : Run (step strcmp initData) Guard State.initial s) :
    SequentialWriters s.history (fun clientId ↦ (s.clients clientId).stage)
      (FencedNumber initData s) := by
  refine run.invariant_reach (P := fun s ↦ SequentialWriters s.history
    (fun clientId ↦ (s.clients clientId).stage) (FencedNumber initData s))
    (sequentialWriters_nil fun _ ↦ rfl) fun s a t hrun h hguard hstep ↦ ?_
  have hshape := Shape.of_run hrun
  have hfenced : ∀ clientId opNum object z, FencedNumber initData s clientId opNum object z →
      FencedNumber initData t clientId opNum object z := fun clientId opNum object z ↦
    fenced_step Tag.monotone_number hshape hstep Phase.noConfusion
  rcases step_cases hstep with hclient | hserver
  · have hstored := AcknowledgedStored.of_run Tag.monotone_number
      (fun u b _ ↦ refusesOnlySmaller_z u b) hrun
    obtain ⟨clientId, event, client, hhistory, hclients, hmove⟩ := hclient.move
      (Counting.of_run hrun) (Counting.of_run (hrun.tail hguard hstep)) hstored hguard
    have hstage : (fun other ↦ (t.clients other).stage) =
        Function.update (fun other ↦ (s.clients other).stage) clientId client.stage := by
      funext other
      rw [hclients]
      exact Function.apply_update (fun _ ↦ Client.stage) s.clients clientId client other
    rw [hhistory, hstage]
    exact h.move hfenced hmove
  · cases hserver
    exact h.mono hfenced

/-- In every run no two writes have the same tag. -/
theorem tagsUnique (run : Run (step strcmp initData) Guard State.initial s) :
    TagsUnique s.history :=
  fun _ _ _ _ _ _ _ _ h h' ↦ (sequentialWriters_of_run run).unique h h'

end Runs

end Colas.Abd
