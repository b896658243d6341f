import Colas.Daemons.Daemon
import Colas.Sodaw.Tables

/-!
# The operation numbers of a reader process

A response says to which request it belongs by its phase and its number only, and a SODAW server
refuses a reader that asks with a number that is over. `OpnumsFresh` is what the clients rely on:
no two requests of the process have the same phase and number, so that a response that counts for
the current request is one to it, and no server is done with a read that has not asked yet.

`reader_daemon` sets its counter back when it handles a signal, and `write_initial_data` has the
number `1` like the first read. `opnumsFresh` says when this does no harm: if no signal is handled
with servers registered once the process has sent a request, and the first read is not one of ABD
after a write of ABD, with which it shares the phase `WRITE_VALUE`.

The servers get the requests of the process that have been sent, any requests of other clients, and
the notices that servers have sent, in any order and any number of times.
-/

set_option autoImplicit false
set_option relaxedAutoImplicit false

namespace Colas.Daemons

open TransitionSystem

/-! ### The process and the servers -/

/-- A process, the SODAW servers, and the notices that they have sent. -/
structure System (ι : Type) where
  /-- The process. -/
  daemon : Daemon
  /-- The servers. -/
  servers : ι → Sodaw.Server
  /-- The notices. -/
  notices : List Sodaw.Disperse

/-- A step of the system. -/
inductive Action (ι : Type)
  /-- Something happens to the process. -/
  | daemon (event : Event)
  /-- A server gets a message. -/
  | deliver (server : ι) (message : Sodaw.Message)

section System

variable {ι : Type}

/-- The message can reach a server: what comes in the name of the process has been sent by it, and
notices have been sent by servers. -/
def System.Sent (σ : System ι) : Sodaw.Message → Prop
  | .request name _ => name.client = σ.daemon.clientId →
    (⟨name.client, name.opnum, .sodaw name.phase⟩ : CallId Phase) ∈ σ.daemon.sent
  | .disperse notice => notice ∈ σ.notices
  | .other _ => True

instance (σ : System ι) (message : Sodaw.Message) : Decidable (σ.Sent message) := by
  cases message <;> unfold System.Sent <;> infer_instance

/-- One step of the process or of a server. -/
def System.step [DecidableEq ι] (strcmp : Strcmp) (args : ι → Sodaw.ServerArgs) (σ : System ι) :
    Action ι → Option (System ι)
  | .daemon event => do
    let daemon ← σ.daemon.step event
    some { σ with daemon := daemon }
  | .deliver i message =>
    if σ.Sent message then do
      let (server, output) ← (σ.servers i).handle strcmp (args i) message
      some { σ with
        servers := Function.update σ.servers i server
        notices := output.disperses ++ σ.notices }
    else none

/-- The system when the process starts. -/
def System.start (daemon : Daemon) : System ι := ⟨daemon, fun _ ↦ Sodaw.Server.initial, []⟩

/-- A response to a request is counted as one to another request: their phases and numbers are the
same. -/
def Counts (current sent : CallId Phase) : Prop :=
  sent.phase.text = current.phase.text ∧ sent.opnum = current.opnum

/-- The operation numbers of the process are fresh. -/
structure OpnumsFresh (σ : System ι) : Prop where
  /-- No two requests have the same phase name and number. -/
  distinct : (σ.daemon.sent.map fun request ↦ (request.phase.text, request.opnum)).Nodup
  /-- A response that is counted for the newest request is not one to an earlier request. -/
  counted : ∀ current earlier, σ.daemon.sent = current :: earlier →
    ∀ request ∈ earlier, ¬ Counts current request
  /-- No server is done with a read for which the process is about to send `READ_VALUE`. -/
  accepted : ∀ {numServers opnum requests testsSodaw},
    σ.daemon.operation = some ⟨numServers, ⟨σ.daemon.clientId, opnum, .sodaw .readValue⟩ ::
      requests, testsSodaw⟩ →
    ∀ i readed, (σ.servers i).tables.readedTable.lookup σ.daemon.clientId = some readed →
      readed.opnum < opnum
  /-- A server that refuses the last `READ_VALUE` as finished has finished this very read. -/
  finished : ∀ {request later earlier}, σ.daemon.sent = later ++ request :: earlier →
    request.phase = .sodaw .readValue → (∀ other ∈ later, other.phase ≠ .sodaw .readValue) →
    ∀ i readed, (σ.servers i).tables.readedTable.lookup σ.daemon.clientId = some readed →
      request.opnum ≤ readed.opnum → readed.opnum = request.opnum

/-- No signal is handled with servers registered when the process has sent a request, and the first
read is not one of ABD after a write of ABD. -/
def Daemon.CountsOnce (d : Daemon) : Event → Prop
  | .signal _ _ => d.servers ≠ ∅ → d.sent = []
  | .tick => d.active = true → d.servers ≠ ∅ → d.opnum = 0 → d.algorithm = Text.abd →
    ∀ request ∈ d.sent, request.phase ≠ .abd .writeValue
  | _ => True

instance (d : Daemon) : DecidablePred d.CountsOnce
  | .signal _ _ => inferInstanceAs (Decidable (d.servers ≠ ∅ → d.sent = []))
  | .tick => inferInstanceAs (Decidable (d.active = true → d.servers ≠ ∅ → d.opnum = 0 →
      d.algorithm = Text.abd → ∀ request ∈ d.sent, request.phase ≠ .abd .writeValue))
  | .setServers _ => inferInstanceAs (Decidable True)
  | .setAlgorithm _ => inferInstanceAs (Decidable True)
  | .reset _ => inferInstanceAs (Decidable True)
  | .send => inferInstanceAs (Decidable True)
  | .finish => inferInstanceAs (Decidable True)

/-- The condition for the steps of the system. -/
def System.CountsOnce (σ : System ι) : Action ι → Prop
  | .daemon event => σ.daemon.CountsOnce event
  | .deliver _ _ => True

instance (σ : System ι) (action : Action ι) : Decidable (σ.CountsOnce action) := by
  cases action <;> unfold System.CountsOnce <;> infer_instance

end System

/-! ### The numbers of a process -/

/-- The phases of a write. -/
def Phase.Writes (phase : Phase) : Prop :=
  phase ∈ ([.abd .getTag, .abd .writeValue, .sodaw .writeGet, .sodaw .writePut] : List Phase)

/-- The phases of a read of SODAW. -/
def Phase.ReadsSodaw (phase : Phase) : Prop :=
  phase ∈ ([.sodaw .readGet, .sodaw .readValue, .sodaw .readComplete] : List Phase)

instance (phase : Phase) : Decidable phase.Writes := by
  unfold Phase.Writes
  infer_instance

instance (phase : Phase) : Decidable phase.ReadsSodaw := by
  unfold Phase.ReadsSodaw
  infer_instance

/-- The phases have different names. -/
theorem text_injective : Function.Injective Phase.text := by
  rintro (phase | phase) (phase' | phase') h <;> cases phase <;> cases phase' <;>
    first | rfl | exact absurd h (by decide)

/-- The requests that the operation of the process is still to send. -/
def Daemon.pending (d : Daemon) : List (CallId Phase) :=
  match d.operation with
  | none => []
  | some operation => operation.requests

/-- The requests of the process when its operation has sent all of its own, the newest first. -/
def Daemon.planned (d : Daemon) : List (CallId Phase) := d.pending.reverse ++ d.sent

/-- A `READ_COMPLETE` comes after the `READ_VALUE` of its read. -/
def Ordered : List (CallId Phase) → Prop
  | [] => True
  | request :: earlier =>
    (request.phase = .sodaw .readComplete →
      (⟨request.client, request.opnum, .sodaw .readValue⟩ : CallId Phase) ∈ earlier) ∧
    Ordered earlier

/-- What holds of the numbers of a reader. -/
structure Numbered (d : Daemon) : Prop where
  isReader : d.processType = .reader
  client : ∀ request ∈ d.planned, request.client = d.clientId
  nodup : d.planned.Nodup
  bound : ∀ request ∈ d.planned,
    request.opnum ≤ d.opnum ∨ request.opnum = 1 ∧ request.phase.Writes
  ordered : Ordered d.planned
  increasing : d.planned.Pairwise fun newer older ↦ newer.phase = .sodaw .readValue →
    older.phase = .sodaw .readValue → older.opnum < newer.opnum
  current : ∀ request ∈ d.pending, request.phase = .sodaw .readValue → request.opnum = d.opnum
  tests : ∀ operation, d.operation = some operation → operation.testsSodaw = true →
    ∀ request ∈ d.planned, request.phase.ReadsSodaw → request.opnum < d.opnum

section Numbers

variable {d d' : Daemon} {requests earlier : List (CallId Phase)} {request : CallId Phase}

theorem Ordered.of_append (h : Ordered (requests ++ earlier)) : Ordered earlier := by
  induction requests with
  | nil => exact h
  | cons request requests ih => exact ih h.2

theorem Ordered.readValue_mem (h : Ordered requests) (hrequest : request ∈ requests)
    (hphase : request.phase = .sodaw .readComplete) :
    (⟨request.client, request.opnum, .sodaw .readValue⟩ : CallId Phase) ∈ requests := by
  induction requests with
  | nil => exact absurd hrequest List.not_mem_nil
  | cons first earlier ih =>
    rcases List.mem_cons.mp hrequest with rfl | hearlier
    · exact List.mem_cons_of_mem _ (h.1 hphase)
    · exact List.mem_cons_of_mem _ (ih h.2 hearlier)

theorem planned_of_idle (hidle : d.operation = none) : d.planned = d.sent := by
  simp [Daemon.planned, Daemon.pending, hidle]

/-- Sending a request that was planned. -/
theorem Numbered.send (h : Numbered d) (hsend : d.send = some d') : Numbered d' := by
  rw [Daemon.send] at hsend
  split at hsend
  · rename_i numServers request requests testsSodaw hoperation
    obtain rfl := Option.some.inj hsend
    have hpending : d.pending = request :: requests := by rw [Daemon.pending, hoperation]
    have hplanned : d.planned = requests.reverse ++ request :: d.sent := by
      rw [Daemon.planned, hpending, List.reverse_cons, List.append_assoc, List.singleton_append]
    obtain ⟨isReader, client, nodup, bound, ordered, increasing, current, tests⟩ := h
    rw [hplanned] at client nodup bound ordered increasing
    refine ⟨isReader, client, nodup, bound, ordered, increasing,
      fun other hother ↦ current other (hpending ▸ List.mem_cons_of_mem _ hother),
      fun operation heq htests ↦ ?_⟩
    obtain rfl := Option.some.inj heq
    have hless := tests _ hoperation htests
    rw [hplanned] at hless
    exact hless
  · cases hsend

/-- Beginning an operation under a number under which none of its requests has been sent. -/
theorem Numbered.begin (h : Numbered d) (hidle : d.operation = none) {phases : List Phase}
    {opnum : ℕ} {testsSodaw : Bool} (hnodup : phases.Nodup)
    (hnew : ∀ phase ∈ phases, (⟨d.clientId, opnum, phase⟩ : CallId Phase) ∉ d.sent)
    (hbound : opnum ≤ d.opnum ∨ opnum = 1 ∧ ∀ phase ∈ phases, phase.Writes)
    (hordered : Ordered
      ((phases.map fun phase ↦ ⟨d.clientId, opnum, phase⟩).reverse ++ d.sent))
    (hvalue : .sodaw .readValue ∈ phases → opnum = d.opnum ∧
      ∀ request ∈ d.sent, request.phase = .sodaw .readValue → request.opnum < opnum)
    (htests : testsSodaw = true → (∀ phase ∈ phases, ¬ phase.ReadsSodaw) ∧
      ∀ request ∈ d.sent, request.phase.ReadsSodaw → request.opnum < d.opnum)
    (numServers : ℕ) (socket : Option (List CString)) :
    Numbered { d with
      socket := socket
      operation := some ⟨numServers, phases.map fun phase ↦ ⟨d.clientId, opnum, phase⟩,
        testsSodaw⟩ } := by
  have hsent := planned_of_idle hidle
  have hmem : ∀ {request : CallId Phase},
      request ∈ (phases.map fun phase ↦ (⟨d.clientId, opnum, phase⟩ : CallId Phase)).reverse ++
        d.sent → (∃ phase ∈ phases, ⟨d.clientId, opnum, phase⟩ = request) ∨ request ∈ d.sent := by
    intro request hrequest
    simpa only [List.mem_append, List.mem_reverse, List.mem_map] using hrequest
  exact
    { isReader := h.isReader
      client := fun request hrequest ↦ by
        rcases hmem hrequest with ⟨phase, -, rfl⟩ | hold
        · rfl
        · exact h.client request (hsent ▸ hold)
      nodup := by
        refine List.nodup_append.mpr ⟨List.nodup_reverse.mpr (hnodup.map ?_), hsent ▸ h.nodup, ?_⟩
        · rintro phase phase' heq
          exact (CallId.mk.inj heq).2.2
        · rintro request hrequest other hother rfl
          obtain ⟨phase, hphase, rfl⟩ := List.mem_map.mp (List.mem_reverse.mp hrequest)
          exact hnew phase hphase hother
      bound := fun request hrequest ↦ by
        rcases hmem hrequest with ⟨phase, hphase, rfl⟩ | hold
        · exact hbound.imp id fun hone ↦ ⟨hone.1, hone.2 phase hphase⟩
        · exact h.bound request (hsent ▸ hold)
      ordered := hordered
      increasing := by
        refine List.pairwise_append.mpr
          ⟨List.pairwise_reverse.mpr (List.pairwise_map.mpr ?_), hsent ▸ h.increasing, ?_⟩
        · exact hnodup.imp fun hne hlater hearlier ↦ absurd (hearlier.trans hlater.symm) hne
        · intro newer hnewer older holder hnewerPhase holderPhase
          obtain ⟨phase, hphase, rfl⟩ := List.mem_map.mp (List.mem_reverse.mp hnewer)
          exact (hvalue (hnewerPhase ▸ hphase)).2 older holder holderPhase
      current := fun request hrequest hphase ↦ by
        obtain ⟨phase, hmemPhase, rfl⟩ := List.mem_map.mp hrequest
        exact (hvalue (hphase ▸ hmemPhase)).1
      tests := fun operation heq htest request hrequest hreads ↦ by
        obtain rfl := Option.some.inj heq
        obtain ⟨hnone, hless⟩ := htests htest
        rcases hmem hrequest with ⟨phase, hphase, rfl⟩ | hold
        · exact absurd hreads (hnone phase hphase)
        · exact hless request hold hreads }

/-- What a call leaves. -/
theorem call_eq {args : ClientArgs} {opnum : ℕ} {phases : List Phase} {testsSodaw : Bool}
    (h : d.call args opnum phases testsSodaw = some d') : ∃ numServers socket, d' = { d with
      socket := socket
      operation := some ⟨numServers, phases.map fun phase ↦ ⟨d.clientId, opnum, phase⟩,
        testsSodaw⟩ } := by
  obtain ⟨endpoints, -, hresult⟩ := Option.bind_eq_some_iff.mp h
  exact ⟨_, _, (Option.some.inj hresult).symm⟩

/-- The test for SODAW, when no read of SODAW has had the number. -/
theorem Numbered.testSodaw (h : Numbered d) (hidle : d.operation = none)
    (hless : ∀ request ∈ d.sent, request.phase.ReadsSodaw → request.opnum < d.opnum)
    (hstep : d.testSodaw = some d') : Numbered d' := by
  simp only [Daemon.testSodaw, Option.bind_eq_bind] at hstep
  split_ifs at hstep with hsodaw
  · obtain ⟨args, -, hcall⟩ := Option.bind_eq_some_iff.mp hstep
    rw [h.isReader] at hcall
    obtain ⟨numServers, socket, rfl⟩ := call_eq hcall
    have hsent : Ordered d.sent := planned_of_idle hidle ▸ h.ordered
    refine h.begin hidle (by decide) (fun phase hphase hmem ↦ ?_) (Or.inl le_rfl) ?_ (fun _ ↦ ?_)
      (fun hfalse ↦ by cases hfalse) numServers socket
    · exact absurd (hless _ hmem hphase) (lt_irrefl _)
    · change Ordered (⟨d.clientId, d.opnum, .sodaw .readComplete⟩ ::
        ⟨d.clientId, d.opnum, .sodaw .readValue⟩ :: ⟨d.clientId, d.opnum, .sodaw .readGet⟩ ::
          d.sent)
      simp [Ordered, hsent]
    · refine ⟨rfl, fun request hrequest hphase ↦ hless request hrequest ?_⟩
      rw [hphase]
      decide
  · obtain rfl := Option.some.inj hstep
    exact h

/-- The operations of a turn, when its number is new. -/
theorem Numbered.operate (h : Numbered d) (hidle : d.operation = none)
    (hless : ∀ request ∈ d.sent, ¬ request.phase.Writes → request.opnum < d.opnum)
    (hwrite : d.algorithm = Text.abd →
      (⟨d.clientId, d.opnum, .abd .writeValue⟩ : CallId Phase) ∉ d.sent)
    (hstep : d.operate = some d') : Numbered d' := by
  have hreads : ∀ request ∈ d.sent, request.phase.ReadsSodaw → request.opnum < d.opnum := by
    intro request hrequest hphase
    refine hless request hrequest fun hwrites ↦ ?_
    simp only [Phase.ReadsSodaw, List.mem_cons, List.not_mem_nil, or_false] at hphase
    rcases hphase with hphase | hphase | hphase <;> rw [hphase] at hwrites <;>
      exact absurd hwrites (by decide)
  simp only [Daemon.operate, Option.bind_eq_bind] at hstep
  split_ifs at hstep with habd
  · obtain ⟨args, -, hcall⟩ := Option.bind_eq_some_iff.mp hstep
    rw [h.isReader] at hcall
    obtain ⟨numServers, socket, rfl⟩ := call_eq hcall
    have hsent : Ordered d.sent := planned_of_idle hidle ▸ h.ordered
    refine h.begin hidle (by decide) ?_ (Or.inl le_rfl) ?_ (fun hvalue ↦ ?_)
      (fun _ ↦ ⟨by decide, hreads⟩) numServers socket
    · intro phase hphase hmem
      rcases List.mem_pair.mp hphase with rfl | rfl
      · have hgetTagValue : ¬ Phase.Writes (.abd .getTagValue) := by decide
        exact absurd (hless _ hmem hgetTagValue) (lt_irrefl _)
      · exact hwrite habd hmem
    · change Ordered (⟨d.clientId, d.opnum, .abd .writeValue⟩ ::
        ⟨d.clientId, d.opnum, .abd .getTagValue⟩ :: d.sent)
      simp [Ordered, hsent]
    · exact absurd hvalue (by decide)
  · exact h.testSodaw hidle hreads hstep

/-- A process that has sent nothing may have any number. -/
theorem Numbered.renumber (h : Numbered d) (hidle : d.operation = none) (hsent : d.sent = [])
    (opnum : ℕ) : Numbered { d with opnum := opnum } := by
  have hnone : ∀ request ∈ d.planned, False := by simp [planned_of_idle hidle, hsent]
  exact
    { h with
      bound := fun request hrequest ↦ (hnone request hrequest).elim
      current := fun request hrequest _ ↦ by
        change request ∈ d.pending at hrequest
        simp [Daemon.pending, hidle] at hrequest
      tests := fun _ _ _ request hrequest ↦ (hnone request hrequest).elim }

/-- The initial write, when nothing has been sent. -/
theorem Numbered.beginWrite (h : Numbered d) (hidle : d.operation = none) (hsent : d.sent = [])
    {args : ClientArgs} {phases : List Phase} (hnodup : phases.Nodup)
    (hwrites : ∀ phase ∈ phases, phase.Writes)
    (hcall : d.call args 1 phases false = some d') : Numbered { d' with opnum := 0 } := by
  obtain ⟨numServers, socket, rfl⟩ := call_eq hcall
  refine (h.renumber hidle hsent 0).begin hidle hnodup (fun phase _ hmem ↦ ?_)
    (Or.inr ⟨rfl, hwrites⟩) ?_ (fun hvalue ↦ absurd (hwrites _ hvalue) (by decide))
    (fun hfalse ↦ by cases hfalse) numServers socket
  · rw [hsent] at hmem
    exact absurd hmem List.not_mem_nil
  · have hordered : ∀ {requests : List (CallId Phase)},
        (∀ request ∈ requests, request.phase.Writes) → Ordered requests := by
      intro requests hall
      induction requests with
      | nil => trivial
      | cons request requests ih =>
        refine ⟨fun hcomplete ↦ ?_, ih fun other h ↦ hall other (List.mem_cons_of_mem _ h)⟩
        have hwrite := hall request List.mem_cons_self
        rw [hcomplete] at hwrite
        exact absurd hwrite (by decide)
    refine hordered fun request hrequest ↦ ?_
    simp only [hsent, List.append_nil, List.mem_reverse, List.mem_map] at hrequest
    obtain ⟨phase, hphase, rfl⟩ := hrequest
    exact hwrites phase hphase

/-- A signal that is handled when nothing has been sent. -/
theorem Numbered.onSignal {active : Bool} {order : List CString} (h : Numbered d)
    (hidle : d.operation = none) (hguard : d.servers ≠ ∅ → d.sent = [])
    (hstep : d.onSignal active order = some d') : Numbered d' := by
  obtain ⟨-, rfl⟩ | ⟨hservers, -, cparameters, args, -, hargs, hrest⟩ := onSignal_cases hstep
  · exact { h with }
  · have hsent := hguard hservers
    have hstart : Numbered (d.signalled active order args) := { h with }
    obtain ⟨-, rfl⟩ | ⟨-, d₂, hwrite, rfl⟩ := hrest
    · exact hstart
    · obtain ⟨-, phases, hphases, hcall⟩ | ⟨-, rfl⟩ := writeInitialData_cases hargs hwrite
      · rcases hphases with rfl | rfl
        · exact hstart.beginWrite hidle hsent (by decide) (by decide) hcall
        · exact hstart.beginWrite hidle hsent (by decide) (by decide) hcall
      · exact hstart.renumber hidle hsent 0

/-- A turn of the loop. -/
theorem Numbered.onTick (h : Numbered d) (hidle : d.operation = none)
    (hguard : d.CountsOnce .tick) (hstep : d.onTick = some d') : Numbered d' := by
  rw [Daemon.onTick] at hstep
  split_ifs at hstep with hactive hmany
  · obtain ⟨hactive, hservers⟩ := hactive
    have hsent := planned_of_idle hidle
    have hcounted : Numbered { d with opnum := d.opnum + 1 } :=
      { h with
        bound := fun request hrequest ↦ (h.bound request hrequest).imp Nat.le_succ_of_le id
        current := fun request hrequest _ ↦ by
          change request ∈ d.pending at hrequest
          simp [Daemon.pending, hidle] at hrequest
        tests := fun operation heq ↦ by
          rw [hidle] at heq
          cases heq }
    refine hcounted.operate hidle (fun request hrequest hnot ↦ ?_) (fun habd hmem ↦ ?_) hstep
    · have hle := (h.bound request (hsent ▸ hrequest)).resolve_right fun hone ↦ hnot hone.2
      exact Nat.lt_succ_of_le hle
    · rcases h.bound _ (hsent ▸ hmem) with hle | ⟨hone, -⟩
      · exact Nat.not_succ_le_self _ hle
      · exact hguard hactive hservers (Nat.succ.inj hone) habd _ hmem rfl
  · obtain rfl := Option.some.inj hstep
    exact h

theorem Numbered.finish (h : Numbered d) (hstep : d.finish = some d') : Numbered d' := by
  rw [Daemon.finish] at hstep
  split at hstep
  · rename_i numServers testsSodaw hoperation
    have hplanned : d.planned = d.sent := by
      rw [Daemon.planned, Daemon.pending, hoperation]
      rfl
    have hreturned : Numbered { d with operation := none } := by
      obtain ⟨isReader, client, nodup, bound, ordered, increasing, -, -⟩ := h
      rw [hplanned] at client nodup bound ordered increasing
      exact ⟨isReader, client, nodup, bound, ordered, increasing,
        fun _ hnone ↦ absurd hnone List.not_mem_nil, fun _ hnone ↦ by cases hnone⟩
    split_ifs at hstep with htests
    · refine hreturned.testSodaw rfl (fun request hrequest ↦ ?_) hstep
      exact h.tests _ hoperation htests request (hplanned ▸ hrequest)
    · obtain rfl := Option.some.inj hstep
      exact hreturned
  · cases hstep

theorem Numbered.step {event : Event} (h : Numbered d) (hguard : d.CountsOnce event)
    (hstep : d.step event = some d') : Numbered d' := by
  cases event with
  | setServers ip =>
    obtain rfl := Option.some.inj hstep
    exact { h with }
  | setAlgorithm id =>
    obtain rfl := Option.some.inj hstep
    exact { h with }
  | signal active order =>
    simp only [Daemon.step, Option.ite_none_right_eq_some, Option.isNone_iff_eq_none] at hstep
    exact h.onSignal hstep.1 hguard hstep.2
  | reset active =>
    simp only [Daemon.step, Option.ite_none_right_eq_some, Option.some.injEq] at hstep
    obtain ⟨-, rfl⟩ := hstep
    exact { h with }
  | tick =>
    simp only [Daemon.step, Option.ite_none_right_eq_some, Option.isNone_iff_eq_none] at hstep
    exact h.onTick hstep.1 hguard hstep.2
  | send => exact h.send hstep
  | finish => exact h.finish hstep

theorem numbered_start (clientId : CString) (ipList : List CString) (algorithm : CString) :
    Numbered (Daemon.start .reader clientId ipList algorithm) where
  isReader := rfl
  client := fun _ h ↦ absurd h List.not_mem_nil
  nodup := List.nodup_nil
  bound := fun _ h ↦ absurd h List.not_mem_nil
  ordered := trivial
  increasing := List.Pairwise.nil
  current := fun _ h ↦ absurd h List.not_mem_nil
  tests := fun _ h ↦ by cases h

/-- Nothing that has been sent is forgotten, and the client keeps its id. -/
structure Daemon.Extends (d d' : Daemon) : Prop where
  clientId_eq : d'.clientId = d.clientId
  sent_subset : d.sent ⊆ d'.sent

/-- And it stays a reader or a writer. -/
structure Daemon.Follows (d d' : Daemon) : Prop extends d.Extends d' where
  processType_eq : d'.processType = d.processType

theorem call_follows {args : ClientArgs} {opnum : ℕ} {phases : List Phase} {testsSodaw : Bool}
    (h : d.call args opnum phases testsSodaw = some d') : d.Follows d' := by
  obtain ⟨numServers, socket, rfl⟩ := call_eq h
  exact ⟨⟨rfl, List.Subset.refl _⟩, rfl⟩

theorem Daemon.Begins.follows (h : d.Begins d') : d.Follows d' := by
  rcases h with rfl | ⟨args, opnum, phases, testsSodaw, -, hcall⟩
  · exact ⟨⟨rfl, List.Subset.refl _⟩, rfl⟩
  · exact call_follows hcall

theorem onSignal_follows {active : Bool} {order : List CString}
    (h : d.onSignal active order = some d') : d.Follows d' := by
  obtain ⟨-, rfl⟩ | ⟨-, -, cparameters, args, -, hargs, hrest⟩ := onSignal_cases h
  · exact ⟨⟨rfl, List.Subset.refl _⟩, rfl⟩
  · obtain ⟨-, rfl⟩ | ⟨-, d₂, hwrite, rfl⟩ := hrest
    · exact ⟨⟨rfl, List.Subset.refl _⟩, rfl⟩
    · obtain ⟨⟨hclientId, hsent⟩, htype⟩ := (writeInitialData_begins hargs hwrite).follows
      exact ⟨⟨hclientId, hsent⟩, htype⟩

theorem step_follows {event : Event} (h : d.step event = some d') : d.Follows d' := by
  cases event with
  | setServers ip =>
    obtain rfl := Option.some.inj h
    exact ⟨⟨rfl, List.Subset.refl _⟩, rfl⟩
  | setAlgorithm id =>
    obtain rfl := Option.some.inj h
    exact ⟨⟨rfl, List.Subset.refl _⟩, rfl⟩
  | signal active order =>
    simp only [Daemon.step, Option.ite_none_right_eq_some] at h
    exact onSignal_follows h.2
  | reset active =>
    simp only [Daemon.step, Option.ite_none_right_eq_some, Option.some.injEq] at h
    obtain ⟨-, rfl⟩ := h
    exact ⟨⟨rfl, List.Subset.refl _⟩, rfl⟩
  | tick =>
    simp only [Daemon.step, Daemon.onTick, Option.ite_none_right_eq_some] at h
    obtain ⟨-, h⟩ := h
    split_ifs at h
    · obtain ⟨⟨hclientId, hsent⟩, htype⟩ := (operate_begins h).follows
      exact ⟨⟨hclientId, hsent⟩, htype⟩
    · obtain rfl := Option.some.inj h
      exact ⟨⟨rfl, List.Subset.refl _⟩, rfl⟩
  | send =>
    simp only [Daemon.step, Daemon.send] at h
    split at h
    · obtain rfl := Option.some.inj h
      exact ⟨⟨rfl, List.subset_cons_self _ _⟩, rfl⟩
    · cases h
  | finish =>
    simp only [Daemon.step, Daemon.finish] at h
    split at h
    · split_ifs at h
      · obtain ⟨⟨hclientId, hsent⟩, htype⟩ := (testSodaw_begins h).follows
        exact ⟨⟨hclientId, hsent⟩, htype⟩
      · obtain rfl := Option.some.inj h
        exact ⟨⟨rfl, List.Subset.refl _⟩, rfl⟩
    · cases h

theorem step_extends {event : Event} (h : d.step event = some d') : d.Extends d' :=
  (step_follows h).toExtends

end Numbers

/-! ### The servers -/

/-- An operation of another client, or a read of the process for which a server can have been told
that it begins or ends. -/
def Daemon.Told (d : Daemon) (readerid : CString) (opnum : ℕ) : Prop :=
  readerid = d.clientId → ∃ phase : Sodaw.Phase, (phase = .readValue ∨ phase = .readComplete) ∧
    (⟨readerid, opnum, .sodaw phase⟩ : CallId Phase) ∈ d.sent

theorem Daemon.Extends.told {d d' : Daemon} (h : d.Extends d') {readerid : CString} {opnum : ℕ}
    (htold : d.Told readerid opnum) : d'.Told readerid opnum := by
  intro hreader
  obtain ⟨phase, hphase, hmem⟩ := htold (hreader.trans h.clientId_eq)
  exact ⟨phase, hphase, h.sent_subset hmem⟩

section Servers

variable {ι : Type} {strcmp : Strcmp} {args : ι → Sodaw.ServerArgs} {σ τ : System ι}

/-- Servers know of reads of the process only what they have been told. -/
structure Tracked (σ : System ι) : Prop where
  numbered : Numbered σ.daemon
  tables : ∀ i, (σ.servers i).tables.Within σ.daemon.Told
  notices : ∀ notice ∈ σ.notices, σ.daemon.Told notice.readerid notice.opnum

/-- What a message that reaches a server is about has been told. -/
theorem Tracked.isAbout (h : Tracked σ) {message : Sodaw.Message} (hsent : σ.Sent message)
    (readerid : CString) (opnum : ℕ) (habout : message.IsAbout readerid opnum) :
    σ.daemon.Told readerid opnum := by
  cases message with
  | request name frames =>
    obtain ⟨hphase, rfl, rfl⟩ := habout
    exact fun hreader ↦ ⟨name.phase, hphase, hsent hreader⟩
  | disperse notice =>
    obtain ⟨rfl, rfl⟩ := habout
    exact h.notices notice hsent
  | other object => exact habout.elim

theorem Tracked.step [DecidableEq ι] (h : Tracked σ) {action : Action ι}
    (hguard : σ.CountsOnce action) (hstep : σ.step strcmp args action = some τ) : Tracked τ := by
  cases action with
  | daemon event =>
    obtain ⟨daemon, hdaemon, hresult⟩ := Option.bind_eq_some_iff.mp hstep
    obtain rfl := Option.some.inj hresult
    have hextends := step_extends hdaemon
    exact
      { numbered := h.numbered.step hguard hdaemon
        tables := fun i ↦ (h.tables i).mono fun _ _ ↦ hextends.told
        notices := fun notice hnotice ↦ hextends.told (h.notices notice hnotice) }
  | deliver i message =>
    simp only [System.step, Option.bind_eq_bind, Option.ite_none_right_eq_some] at hstep
    obtain ⟨hsent, hstep⟩ := hstep
    obtain ⟨⟨server, output⟩, hhandle, hresult⟩ := Option.bind_eq_some_iff.mp hstep
    obtain rfl := Option.some.inj hresult
    obtain ⟨hwithin, houtput⟩ := (Sodaw.handle_moves hhandle).within (h.tables i)
      (h.isAbout hsent)
    refine ⟨h.numbered, fun j ↦ ?_, fun notice hnotice ↦ ?_⟩
    · by_cases hj : j = i
      · subst hj
        simpa using hwithin
      · simpa [Function.update_of_ne hj] using h.tables j
    · rcases List.mem_append.mp hnotice with hnew | hold
      · exact houtput.disperses notice hnew
      · exact h.notices notice hold

/-- The numbers in the tables are those of reads that have been begun. -/
theorem Tracked.readValue_sent (h : Tracked σ) {i : ι} {readed : Sodaw.RegReader}
    (hreaded : (σ.servers i).tables.readedTable.lookup σ.daemon.clientId = some readed) :
    (⟨σ.daemon.clientId, readed.opnum, .sodaw .readValue⟩ : CallId Phase) ∈ σ.daemon.sent := by
  obtain ⟨phase, hphase, hmem⟩ := (h.tables i).readed hreaded rfl
  rcases hphase with rfl | rfl
  · exact hmem
  · exact h.numbered.ordered.of_append.readValue_mem hmem rfl

/-- Requests of a process with one phase name and one number are the same. -/
theorem Numbered.eq_of_key {d : Daemon} (h : Numbered d) {request other : CallId Phase}
    (hrequest : request ∈ d.sent) (hother : other ∈ d.sent)
    (htext : request.phase.text = other.phase.text) (hopnum : request.opnum = other.opnum) :
    request = other := by
  have hclient : request.client = other.client :=
    (h.client _ (List.mem_append_right _ hrequest)).trans
      (h.client _ (List.mem_append_right _ hother)).symm
  obtain ⟨client, opnum, phase⟩ := request
  obtain ⟨client', opnum', phase'⟩ := other
  obtain rfl : client = client' := hclient
  obtain rfl : opnum = opnum' := hopnum
  obtain rfl : phase = phase' := text_injective htext
  rfl

theorem Tracked.accepted (h : Tracked σ) {numServers opnum : ℕ} {requests : List (CallId Phase)}
    {testsSodaw : Bool} (hoperation : σ.daemon.operation = some
      ⟨numServers, ⟨σ.daemon.clientId, opnum, .sodaw .readValue⟩ :: requests, testsSodaw⟩)
    {i : ι} {readed : Sodaw.RegReader}
    (hreaded : (σ.servers i).tables.readedTable.lookup σ.daemon.clientId = some readed) :
    readed.opnum < opnum := by
  have hfirst : (⟨σ.daemon.clientId, opnum, .sodaw .readValue⟩ : CallId Phase) ∈
      σ.daemon.pending := by
    rw [Daemon.pending, hoperation]
    exact List.mem_cons_self
  have hsent := h.readValue_sent hreaded
  have hreads : ¬ Phase.Writes (.sodaw .readValue) := by decide
  have hle : readed.opnum ≤ σ.daemon.opnum :=
    (h.numbered.bound _ (List.mem_append_right _ hsent)).resolve_right fun hone ↦ hreads hone.2
  have hcurrent : opnum = σ.daemon.opnum := h.numbered.current _ hfirst rfl
  refine lt_of_le_of_ne (hcurrent ▸ hle) fun heq ↦ ?_
  rw [heq] at hsent
  exact (List.nodup_append.mp h.numbered.nodup).2.2 _ (List.mem_reverse.mpr hfirst) _ hsent rfl

theorem Tracked.finished (h : Tracked σ) {request : CallId Phase}
    {later earlier : List (CallId Phase)} (hsplit : σ.daemon.sent = later ++ request :: earlier)
    (hphase : request.phase = .sodaw .readValue)
    (hlater : ∀ other ∈ later, other.phase ≠ .sodaw .readValue) {i : ι}
    {readed : Sodaw.RegReader}
    (hreaded : (σ.servers i).tables.readedTable.lookup σ.daemon.clientId = some readed)
    (hle : request.opnum ≤ readed.opnum) : readed.opnum = request.opnum := by
  have hsent := h.readValue_sent hreaded
  have hincreasing := (List.pairwise_append.mp h.numbered.increasing).2.1
  rw [hsplit] at hsent hincreasing
  rcases List.mem_append.mp hsent with hmem | hmem
  · exact absurd rfl (hlater _ hmem)
  · rcases List.mem_cons.mp hmem with heq | hearlier
    · rw [← heq]
    · have hless := (List.pairwise_cons.mp (List.pairwise_append.mp hincreasing).2.1).1 _ hearlier
        hphase rfl
      exact absurd hle (not_le.mpr hless)

/-- In a run in which the process does not set its counter back after it has used it, and does not
read with ABD under the number of an ABD write, its numbers are fresh. -/
theorem opnumsFresh [DecidableEq ι] {clientId : CString} {ipList : List CString}
    {algorithm : CString}
    (run : Run (System.step strcmp args) System.CountsOnce
      (System.start (Daemon.start .reader clientId ipList algorithm)) σ) : OpnumsFresh σ := by
  have htracked : Tracked σ := run.invariant
    ⟨numbered_start clientId ipList algorithm, fun _ ↦ Sodaw.within_initial,
      fun _ hnone ↦ absurd hnone List.not_mem_nil⟩
    fun s action t hs hguard hstep ↦ hs.step hguard hstep
  have hnumbered := htracked.numbered
  have hnodup : σ.daemon.sent.Nodup := (List.nodup_append.mp hnumbered.nodup).2.1
  refine ⟨hnodup.map_on fun request hrequest other hother heq ↦ ?_, ?_,
    fun hoperation i readed hreaded ↦ htracked.accepted hoperation hreaded,
    fun hsplit hphase hlater i readed hreaded hle ↦
      htracked.finished hsplit hphase hlater hreaded hle⟩
  · obtain ⟨htext, hopnum⟩ := Prod.mk.inj heq
    exact hnumbered.eq_of_key hrequest hother htext hopnum
  · rintro current earlier heq request hrequest ⟨htext, hopnum⟩
    have hcurrent : current ∈ σ.daemon.sent := heq ▸ List.mem_cons_self
    have hold : request ∈ σ.daemon.sent := heq ▸ List.mem_cons_of_mem _ hrequest
    rw [heq] at hnodup
    rw [hnumbered.eq_of_key hold hcurrent htext hopnum] at hrequest
    exact (List.nodup_cons.mp hnodup).1 hrequest

end Servers

section Sample

/-- A reader with one server and no servers given at the start. -/
def sampleSystem (algorithm : CString) : System Unit :=
  System.start (Daemon.start .reader (ascii ['r']) [] algorithm)

/-- The server is registered, and the reader is started, writes and begins its first read. -/
def firstRead : List (Action Unit) :=
  [.daemon (.setServers (ascii ['a'])), .daemon (.signal true [ascii ['a']]), .daemon .send,
    .daemon .send, .daemon .finish, .daemon .tick, .daemon .send, .daemon .send]

/-- The server gets `READ_VALUE` and `READ_COMPLETE` of the first read, which returns. -/
def firstReadEnds : List (Action Unit) :=
  [.deliver () (.request ⟨ascii ['r'], 1, .readValue⟩ ⟨ascii ['o'], tagToString initTag, []⟩),
    .daemon .send,
    .deliver () (.request ⟨ascii ['r'], 1, .readComplete⟩
      ⟨ascii ['o'], tagToString initTag, []⟩), .daemon .finish]

/-- Executing actions of the system under a condition. -/
def sampleRun (guard : System Unit → Action Unit → Prop) [∀ σ a, Decidable (guard σ a)]
    (algorithm : CString) (actions : List (Action Unit)) : Option (System Unit) :=
  execute (System.step Strcmp.sign fun _ ↦ Sodaw.sampleArgs) guard (sampleSystem algorithm) actions

/-- A SODAW reader that begins its second read. -/
theorem opnumsFresh_secondRead : ∃ σ, sampleRun System.CountsOnce Text.sodaw
    (firstRead ++ firstReadEnds ++ [.daemon .tick, .daemon .send]) = some σ ∧ OpnumsFresh σ := by
  have hsome : (sampleRun System.CountsOnce Text.sodaw
      (firstRead ++ firstReadEnds ++ [.daemon .tick, .daemon .send])).isSome = true := by
    decide +kernel
  obtain ⟨σ, hσ⟩ := Option.isSome_iff_exists.mp hsome
  exact ⟨σ, hσ, opnumsFresh (run_of_execute hσ)⟩

/-- An ABD reader sends `WRITE_VALUE` under the number `1` in its initial write and in its first
read. A SODAW reader that is started again asks under the number `1` a server that is done with its
read `1`. -/
theorem not_opnumsFresh :
    (∃ σ, Run (System.step Strcmp.sign fun _ ↦ Sodaw.sampleArgs) (fun _ _ ↦ True)
      (sampleSystem Text.abd) σ ∧
        σ.daemon.sent.count ⟨ascii ['r'], 1, .abd .writeValue⟩ = 2 ∧ ¬ OpnumsFresh σ) ∧
    ∃ σ, Run (System.step Strcmp.sign fun _ ↦ Sodaw.sampleArgs) (fun _ _ ↦ True)
      (sampleSystem Text.sodaw) σ ∧
        σ.daemon.pending.head? = some ⟨ascii ['r'], 1, .sodaw .readValue⟩ ∧
          ((σ.servers ()).tables.readedTable.lookup (ascii ['r'])).map Sodaw.RegReader.opnum =
            some 1 ∧ ¬ OpnumsFresh σ := by
  constructor
  · have hsome : (sampleRun (fun _ _ ↦ True) Text.abd firstRead).map
        (fun σ ↦ σ.daemon.sent.count ⟨ascii ['r'], 1, .abd .writeValue⟩) = some 2 := by
      decide +kernel
    obtain ⟨σ, hσ, htwice⟩ := Option.map_eq_some_iff.mp hsome
    refine ⟨σ, run_of_execute hσ, htwice, fun hfresh ↦ ?_⟩
    have honce := List.nodup_iff_count_le_one.mp (List.Nodup.of_map _ hfresh.distinct)
      ⟨ascii ['r'], 1, .abd .writeValue⟩
    omega
  · have hsome : (sampleRun (fun _ _ ↦ True) Text.sodaw (firstRead ++ firstReadEnds ++
        [.daemon (.signal true [ascii ['a']]), .daemon .send, .daemon .send, .daemon .finish,
          .daemon .tick, .daemon .send])).map (fun σ ↦ (σ.daemon.pending.head?,
            ((σ.servers ()).tables.readedTable.lookup (ascii ['r'])).map Sodaw.RegReader.opnum,
              decide (σ.daemon.sent.count ⟨ascii ['r'], 1, .sodaw .writeGet⟩ = 2))) =
        some (some ⟨ascii ['r'], 1, .sodaw .readValue⟩, some 1, true) := by
      decide +kernel
    obtain ⟨σ, hσ, hvalues⟩ := Option.map_eq_some_iff.mp hsome
    obtain ⟨hpending, hrest⟩ := Prod.mk.inj hvalues
    obtain ⟨hreaded, htwice⟩ := Prod.mk.inj hrest
    refine ⟨σ, run_of_execute hσ, hpending, hreaded, fun hfresh ↦ ?_⟩
    have honce := List.nodup_iff_count_le_one.mp (List.Nodup.of_map _ hfresh.distinct)
      ⟨ascii ['r'], 1, .sodaw .writeGet⟩
    have htwice' := of_decide_eq_true htwice
    omega

end Sample

end Colas.Daemons
