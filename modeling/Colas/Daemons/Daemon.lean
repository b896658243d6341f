import Colas.Daemons.Servers
import Colas.Library.Run
import Colas.Messages

/-!
# The event loops of the reader and the writer

`reader_daemon` and `writer_daemon` handle a signal or a reset, or take a turn of their own
(`onTick`), while the handlers of the HTTP requests change the registered servers and the algorithm
at any time. An operation is a call of a C function, in which the loop stays until the function
returns: it sends its requests one after the other (`send`), and between them the other handlers may
run. `sent` is what the process has sent, the newest request first.

A signal appends the registered servers to `parameters.Ip_list`, whatever the list holds, and the
socket stays what it was at the first operation. `quorumsOverServers` says when operations
nevertheless run over the registered servers: if a signal finds the list empty, so that there is
one signal and no server has been given at the start, and if no server is registered later.
-/

set_option autoImplicit false
set_option relaxedAutoImplicit false

namespace Colas.Daemons

open TransitionSystem

/-- The phase of a request of either protocol. -/
inductive Phase
  | abd (phase : Abd.Phase)
  | sodaw (phase : Sodaw.Phase)
  deriving DecidableEq

/-- `PHASE`. -/
def Phase.text : Phase → CString
  | .abd phase => phase.text
  | .sodaw phase => phase.text

/-- A call of a C function for an operation. -/
structure Operation where
  /-- `num_servers`. -/
  numServers : ℕ
  /-- The requests that are still to be sent. -/
  requests : List (CallId Phase)
  /-- The loop then tests for the name of SODAW. -/
  testsSodaw : Bool

/-- The process. -/
inductive ProcessType
  | reader
  | writer
  deriving DecidableEq

/-- The state of a process. -/
structure Daemon where
  /-- `data.processType`. -/
  processType : ProcessType
  /-- `parameters.Server_id`, which is the client id of the operations. -/
  clientId : CString
  /-- `data.active`. -/
  active : Bool
  /-- The keys of `data.servers`, whose values are all `true`. -/
  servers : Finset CString
  /-- `data.algorithm`. -/
  algorithm : CString
  /-- `parameters`. -/
  parameters : Parameters
  /-- `client_args`, which is not set at the start. -/
  clientArgs : Option ClientArgs
  /-- `opnum`. -/
  opnum : ℕ
  /-- The servers to which the socket of `get_socket_servers` is connected. -/
  socket : Option (List CString)
  /-- The call of a C function that has not returned. -/
  operation : Option Operation
  /-- The requests that have been sent, the newest first. -/
  sent : List (CallId Phase)

/-- `Reader_process` and `Writer_process` up to the loop. Only the reader sets `data.active` back
there. -/
def Daemon.start (processType : ProcessType) (clientId : CString) (ipList : List CString)
    (algorithm : CString) : Daemon where
  processType := processType
  clientId := clientId
  active := match processType with
    | .reader => false
    | .writer => decide (0 < ipList.length)
  servers := ipList.toFinset
  algorithm := algorithm
  parameters := ⟨ipList, ipList.length⟩
  clientArgs := none
  opnum := match processType with
    | .reader => 0
    | .writer => 1
  socket := none
  operation := none
  sent := []

namespace Daemon

/-! ### Operations -/

/-- The beginning of a C function for an operation with these phases. -/
def call (d : Daemon) (args : ClientArgs) (opnum : ℕ) (phases : List Phase) (testsSodaw : Bool) :
    Option Daemon := do
  let endpoints ← getSocketServers d.socket args
  some { d with
    socket := some endpoints
    operation := some ⟨countNumServers args.serversStr,
      phases.map fun phase ↦ ⟨d.clientId, opnum, phase⟩, testsSodaw⟩ }

/-- `ABD_write`. -/
def abdWrite (d : Daemon) (args : ClientArgs) (opnum : ℕ) (testsSodaw : Bool) : Option Daemon :=
  d.call args opnum [.abd .getTag, .abd .writeValue] testsSodaw

/-- `ABD_read`. -/
def abdRead (d : Daemon) (args : ClientArgs) (opnum : ℕ) (testsSodaw : Bool) : Option Daemon :=
  d.call args opnum [.abd .getTagValue, .abd .writeValue] testsSodaw

/-- `SODAW_write`. -/
def sodawWrite (d : Daemon) (args : ClientArgs) (opnum : ℕ) : Option Daemon :=
  d.call args opnum [.sodaw .writeGet, .sodaw .writePut] false

/-- `SODAW_read`. -/
def sodawRead (d : Daemon) (args : ClientArgs) (opnum : ℕ) : Option Daemon :=
  d.call args opnum [.sodaw .readGet, .sodaw .readValue, .sodaw .readComplete] false

/-- The request that a C function sends next. -/
def send (d : Daemon) : Option Daemon :=
  match d.operation with
  | some ⟨numServers, request :: requests, testsSodaw⟩ =>
    some { d with
      operation := some ⟨numServers, requests, testsSodaw⟩
      sent := request :: d.sent }
  | _ => none

/-! ### The loop -/

/-- `write_initial_data`. -/
def writeInitialData (d : Daemon) (cparameters : CParameters) : Option Daemon := do
  let args ← createClientArgs cparameters
  if d.algorithm = Text.abd then d.abdWrite args 1 false
  else if d.algorithm = Text.sodaw then d.sodawWrite args 1
  else some d

/-- The case of a signal, where the loop over the map takes the servers in some order. The reader
then writes, and sets its counter back. -/
def onSignal (d : Daemon) (active : Bool) (order : List CString) : Option Daemon :=
  if d.servers = ∅ then some { d with active := false }
  else if order.Nodup ∧ order.toFinset = d.servers then do
    let ipList := d.parameters.ipList ++ order
    let cparameters ← copyGoParamToCParam ⟨ipList, ipList.length⟩
    let args ← createClientArgs cparameters
    let d := { d with
      active := active
      parameters := ⟨ipList, ipList.length⟩
      clientArgs := some args }
    match d.processType with
    | .reader => do
      let d ← d.writeInitialData cparameters
      some { d with opnum := 0 }
    | .writer => some d
  else none

/-- The second test of a turn: an operation of SODAW. -/
def testSodaw (d : Daemon) : Option Daemon :=
  if d.algorithm = Text.sodaw then do
    let args ← d.clientArgs
    match d.processType with
    | .reader => d.sodawRead args d.opnum
    | .writer => d.sodawWrite args d.opnum
  else some d

/-- The operations of a turn. -/
def operate (d : Daemon) : Option Daemon :=
  if d.algorithm = Text.abd then do
    let args ← d.clientArgs
    match d.processType with
    | .reader => d.abdRead args d.opnum true
    | .writer => d.abdWrite args d.opnum true
  else d.testSodaw

/-- The default case. The process ends after the operation with the number 2000. -/
def onTick (d : Daemon) : Option Daemon :=
  if d.active = true ∧ d.servers ≠ ∅ then
    if 2000 < d.opnum + 1 then none else { d with opnum := d.opnum + 1 }.operate
  else some d

/-- A C function that has sent its requests returns. -/
def finish (d : Daemon) : Option Daemon :=
  match d.operation with
  | some ⟨_, [], testsSodaw⟩ =>
    if testsSodaw then { d with operation := none }.testSodaw
    else some { d with operation := none }
  | _ => none

end Daemon

/-- What happens to a process. -/
inductive Event
  /-- `SetServers`. -/
  | setServers (ip : CString)
  /-- `SetAlgorithm`. -/
  | setAlgorithm (id : CString)
  /-- The loop takes a value from `active_chan`. -/
  | signal (active : Bool) (order : List CString)
  /-- The loop takes a value from `reset_chan`, which the source declares and never makes. -/
  | reset (active : Bool)
  /-- The loop takes a turn of its own. -/
  | tick
  /-- The C function sends a request. -/
  | send
  /-- The C function returns. -/
  | finish

/-- One event. The loop waits for the C function. -/
def Daemon.step (d : Daemon) : Event → Option Daemon
  | .setServers ip => some { d with servers := d.servers ∪ (ip.splitOn underscore).toFinset }
  | .setAlgorithm id => some { d with algorithm := id }
  | .signal active order => if d.operation.isNone then d.onSignal active order else none
  | .reset active => if d.operation.isNone then some { d with active := active } else none
  | .tick => if d.operation.isNone then d.onTick else none
  | .send => d.send
  | .finish => d.finish

/-! ### The servers of an operation -/

/-- An operation runs over the registered servers: the list has no duplicates, and the number of its
names is the number of registered servers, the number of servers that the operation counts, and the
number of servers to which the socket is connected. -/
structure QuorumsOverServers (d : Daemon) (operation : Operation) : Prop where
  nodup : d.parameters.ipList.Nodup
  numServers_eq : d.parameters.numServers = d.servers.card
  counted : operation.numServers = d.parameters.numServers
  connected : ∃ endpoints, d.socket = some endpoints ∧
    endpoints.length = d.parameters.numServers

/-- A signal that is handled with servers registered finds the list empty, and C can hold the names
of the servers. After that, and if servers have been given at the start, no server is registered
that is not registered already. -/
def Daemon.StartsOnce (d : Daemon) : Event → Prop
  | .setServers ip =>
    d.parameters.ipList ≠ [] → ∀ name ∈ ip.splitOn underscore, name ∈ d.servers
  | .signal _ _ =>
    d.servers ≠ ∅ → d.parameters.ipList = [] ∧ ∀ name ∈ d.servers, IsHost name
  | _ => True

instance (d : Daemon) : DecidablePred d.StartsOnce
  | .setServers ip => inferInstanceAs (Decidable
      (d.parameters.ipList ≠ [] → ∀ name ∈ ip.splitOn underscore, name ∈ d.servers))
  | .signal _ _ => inferInstanceAs (Decidable
      (d.servers ≠ ∅ → d.parameters.ipList = [] ∧ ∀ name ∈ d.servers, IsHost name))
  | .setAlgorithm _ | .reset _ | .tick | .send | .finish => isTrue trivial

/-- No operation has been possible. -/
structure Idle (d : Daemon) : Prop where
  clientArgs_eq : d.clientArgs = none
  socket_eq : d.socket = none
  operation_eq : d.operation = none

/-- The list holds the registered servers, and everything else has been made from it. -/
structure Joined (d : Daemon) : Prop where
  nonempty : d.parameters.ipList ≠ []
  nodup : d.parameters.ipList.Nodup
  toFinset_eq : d.parameters.ipList.toFinset = d.servers
  isHost : ∀ name ∈ d.parameters.ipList, IsHost name
  numServers_eq : d.parameters.numServers = d.parameters.ipList.length
  clientArgs_eq : d.clientArgs = some ⟨joinNames (d.parameters.ipList.map cString)⟩
  socket_eq : d.socket = none ∨ d.socket = some (d.parameters.ipList.map cString)
  operation : ∀ operation, d.operation = some operation →
    operation.numServers = d.parameters.ipList.length ∧
      d.socket = some (d.parameters.ipList.map cString)

section Servers

variable {d d' : Daemon} {args : ClientArgs} {opnum : ℕ} {phases : List Phase}
  {testsSodaw : Bool}

/-- The turns of a loop do nothing to the servers, or begin an operation. -/
def Daemon.Begins (d d' : Daemon) : Prop :=
  d' = d ∨ ∃ args opnum phases testsSodaw, d.clientArgs = some args ∧
    d.call args opnum phases testsSodaw = some d'

theorem testSodaw_begins (h : d.testSodaw = some d') : d.Begins d' := by
  simp only [Daemon.testSodaw, Option.bind_eq_bind] at h
  split_ifs at h with hsodaw
  · obtain ⟨args, hargs, hcall⟩ := Option.bind_eq_some_iff.mp h
    cases htype : d.processType with
    | reader =>
      rw [htype] at hcall
      exact Or.inr ⟨args, _, _, _, hargs, hcall⟩
    | writer =>
      rw [htype] at hcall
      exact Or.inr ⟨args, _, _, _, hargs, hcall⟩
  · exact Or.inl (Option.some.inj h).symm

theorem operate_begins (h : d.operate = some d') : d.Begins d' := by
  simp only [Daemon.operate, Option.bind_eq_bind] at h
  split_ifs at h with habd
  · obtain ⟨args, hargs, hcall⟩ := Option.bind_eq_some_iff.mp h
    cases htype : d.processType with
    | reader =>
      rw [htype] at hcall
      exact Or.inr ⟨args, _, _, _, hargs, hcall⟩
    | writer =>
      rw [htype] at hcall
      exact Or.inr ⟨args, _, _, _, hargs, hcall⟩
  · exact testSodaw_begins h

/-- What the signal leaves before the reader writes, if servers are registered. -/
def Daemon.signalled (d : Daemon) (active : Bool) (order : List CString) (args : ClientArgs) :
    Daemon :=
  { d with
    active := active
    parameters := ⟨d.parameters.ipList ++ order, (d.parameters.ipList ++ order).length⟩
    clientArgs := some args }

/-- The initial write is an operation of ABD or of SODAW, or the algorithm is neither. -/
theorem writeInitialData_cases {cparameters : CParameters}
    (hargs : createClientArgs cparameters = some args)
    (h : d.writeInitialData cparameters = some d') :
    (d.algorithm = Text.abd ∨ d.algorithm = Text.sodaw) ∧
        (∃ phases, (phases = [.abd .getTag, .abd .writeValue] ∨
          phases = [.sodaw .writeGet, .sodaw .writePut]) ∧ d.call args 1 phases false = some d') ∨
      (d.algorithm ≠ Text.abd ∧ d.algorithm ≠ Text.sodaw) ∧ d' = d := by
  simp only [Daemon.writeInitialData, hargs, Option.bind_eq_bind, Option.bind_some] at h
  split_ifs at h with habd hsodaw
  · exact Or.inl ⟨Or.inl habd, _, Or.inl rfl, h⟩
  · exact Or.inl ⟨Or.inr hsodaw, _, Or.inr rfl, h⟩
  · exact Or.inr ⟨⟨habd, hsodaw⟩, (Option.some.inj h).symm⟩

/-- What a signal does. -/
theorem onSignal_cases {active : Bool} {order : List CString}
    (h : d.onSignal active order = some d') :
    d.servers = ∅ ∧ d' = { d with active := false } ∨
      d.servers ≠ ∅ ∧ (order.Nodup ∧ order.toFinset = d.servers) ∧ ∃ cparameters args,
        copyGoParamToCParam ⟨d.parameters.ipList ++ order,
          (d.parameters.ipList ++ order).length⟩ = some cparameters ∧
        createClientArgs cparameters = some args ∧
        (d.processType = .writer ∧ d' = d.signalled active order args ∨
          d.processType = .reader ∧ ∃ d₂,
            (d.signalled active order args).writeInitialData cparameters = some d₂ ∧
              d' = { d₂ with opnum := 0 }) := by
  rw [Daemon.onSignal] at h
  split_ifs at h with hservers horder
  · exact Or.inl ⟨hservers, (Option.some.inj h).symm⟩
  · simp only [Option.bind_eq_bind] at h
    obtain ⟨cparameters, hcopy, h⟩ := Option.bind_eq_some_iff.mp h
    obtain ⟨args, hargs, h⟩ := Option.bind_eq_some_iff.mp h
    refine Or.inr ⟨hservers, horder, cparameters, args, hcopy, hargs, ?_⟩
    split at h
    · rename_i htype
      obtain ⟨d₂, hwrite, hresult⟩ := Option.bind_eq_some_iff.mp h
      exact Or.inr ⟨htype, d₂, hwrite, (Option.some.inj hresult).symm⟩
    · rename_i htype
      exact Or.inl ⟨htype, (Option.some.inj h).symm⟩

/-- The initial write begins an operation or does nothing. -/
theorem writeInitialData_begins {cparameters : CParameters} {active : Bool} {order : List CString}
    (hargs : createClientArgs cparameters = some args)
    (h : (d.signalled active order args).writeInitialData cparameters = some d') :
    (d.signalled active order args).Begins d' := by
  obtain ⟨-, phases, -, hcall⟩ | ⟨-, rfl⟩ := writeInitialData_cases hargs h
  · exact Or.inr ⟨args, 1, phases, false, rfl, hcall⟩
  · exact Or.inl rfl

theorem Idle.begins (h : Idle d) (hbegins : d.Begins d') : Idle d' := by
  rcases hbegins with rfl | ⟨args, opnum, phases, testsSodaw, hargs, -⟩
  · exact h
  · rw [h.clientArgs_eq] at hargs
    cases hargs

theorem Joined.call (h : Joined d) (hargs : d.clientArgs = some args)
    (hcall : d.call args opnum phases testsSodaw = some d') : Joined d' := by
  have heq : args = ⟨joinNames (d.parameters.ipList.map cString)⟩ :=
    Option.some.inj (hargs.symm.trans h.clientArgs_eq)
  obtain ⟨hconnect, hcount⟩ := getSocketServers_joinNames h.isHost h.nonempty
  obtain ⟨endpoints, hendpoints, hresult⟩ := Option.bind_eq_some_iff.mp hcall
  have hsocket : endpoints = d.parameters.ipList.map cString := by
    rcases h.socket_eq with hnone | hsome
    · rw [hnone, heq, hconnect] at hendpoints
      exact (Option.some.inj hendpoints).symm
    · rw [hsome] at hendpoints
      exact (Option.some.inj hendpoints).symm
  obtain rfl := Option.some.inj hresult
  refine { h with socket_eq := Or.inr (congrArg some hsocket), operation := ?_ }
  rintro operation hoperation
  obtain rfl := Option.some.inj hoperation
  exact ⟨heq ▸ hcount, congrArg some hsocket⟩

theorem Joined.begins (h : Joined d) (hbegins : d.Begins d') : Joined d' := by
  rcases hbegins with rfl | ⟨args, opnum, phases, testsSodaw, hargs, hcall⟩
  · exact h
  · exact h.call hargs hcall

/-- The operation that a C function has come to does not matter to the servers. -/
theorem Joined.operation_none (h : Joined d) : Joined { d with operation := none } :=
  { h with operation := fun _ hnone ↦ by cases hnone }

/-- The signal that puts the registered servers into the empty list. -/
theorem Idle.onSignal {active : Bool} {order : List CString} (h : Idle d)
    (hservers : d.servers ≠ ∅) (hempty : d.parameters.ipList = [])
    (hhost : ∀ name ∈ d.servers, IsHost name) (hsignal : d.onSignal active order = some d') :
    Joined d' := by
  obtain ⟨hnone, -⟩ | ⟨-, ⟨hnodup, hall⟩, cparameters, args, hcopy, hargs, hrest⟩ :=
    onSignal_cases hsignal
  · exact absurd hnone hservers
  rw [hempty, List.nil_append] at hcopy
  have hne : order ≠ [] := by
    rintro rfl
    exact hservers hall.symm
  have hargs' : args = ⟨joinNames (order.map cString)⟩ := by
    simp only [copyGoParamToCParam_eq hcopy, createClientArgs, getServersStr, List.map_eq_nil_iff,
      if_neg hne, Option.bind_eq_bind, Option.bind_some, Option.some.injEq] at hargs
    exact hargs.symm
  have hlist : (d.signalled active order args).parameters.ipList = order := by
    rw [Daemon.signalled, hempty, List.nil_append]
  have hjoined : Joined (d.signalled active order args) :=
    { nonempty := hlist.symm ▸ hne
      nodup := hlist.symm ▸ hnodup
      toFinset_eq := hlist.symm ▸ hall
      isHost := fun name hname ↦ hhost name (hall ▸ List.mem_toFinset.mpr (hlist ▸ hname))
      numServers_eq := rfl
      clientArgs_eq := by rw [hlist, ← hargs']; rfl
      socket_eq := Or.inl h.socket_eq
      operation := fun operation hoperation ↦ by
        rw [Daemon.signalled, h.operation_eq] at hoperation
        cases hoperation }
  obtain ⟨-, rfl⟩ | ⟨-, d₂, hwrite, rfl⟩ := hrest
  · exact hjoined
  · exact { hjoined.begins (writeInitialData_begins hargs hwrite) with }

end Servers

/-- What is known of the servers in every state. -/
def Known (d : Daemon) : Prop := Idle d ∨ Joined d

theorem known_start (processType : ProcessType) (clientId : CString) (ipList : List CString)
    (algorithm : CString) : Known (Daemon.start processType clientId ipList algorithm) :=
  Or.inl ⟨rfl, rfl, rfl⟩

theorem Known.begins {d d' : Daemon} (h : Known d) (hbegins : d.Begins d') : Known d' :=
  h.imp (fun hidle ↦ hidle.begins hbegins) fun hjoined ↦ hjoined.begins hbegins

/-- Whether the process is active, its algorithm and its counter do not matter to the servers. -/
theorem Known.frame {d : Daemon} (h : Known d) (active : Bool) (algorithm : CString) (opnum : ℕ) :
    Known { d with active := active, algorithm := algorithm, opnum := opnum } :=
  h.imp (fun hidle ↦ { hidle with }) fun hjoined ↦ { hjoined with }

theorem Known.step {d d' : Daemon} {event : Event} (h : Known d) (hguard : d.StartsOnce event)
    (hstep : d.step event = some d') : Known d' := by
  cases event with
  | setServers ip =>
    obtain rfl := Option.some.inj hstep
    refine h.imp (fun hidle ↦ { hidle with }) fun hjoined ↦ ?_
    have hsame : d.servers ∪ (ip.splitOn underscore).toFinset = d.servers :=
      Finset.union_eq_left.mpr fun name hname ↦
        hguard hjoined.nonempty name (List.mem_toFinset.mp hname)
    exact { hjoined with toFinset_eq := hjoined.toFinset_eq.trans hsame.symm }
  | setAlgorithm id =>
    obtain rfl := Option.some.inj hstep
    exact h.frame d.active id d.opnum
  | signal active order =>
    simp only [Daemon.step, Option.ite_none_right_eq_some] at hstep
    obtain ⟨-, hsignal⟩ := hstep
    by_cases hservers : d.servers = ∅
    · rw [Daemon.onSignal, if_pos hservers] at hsignal
      obtain rfl := Option.some.inj hsignal
      exact h.frame false d.algorithm d.opnum
    · obtain ⟨hempty, hhost⟩ := hguard hservers
      have hidle : Idle d := h.resolve_right fun hjoined ↦ hjoined.nonempty hempty
      exact Or.inr (hidle.onSignal hservers hempty hhost hsignal)
  | reset active =>
    simp only [Daemon.step, Option.ite_none_right_eq_some, Option.some.injEq] at hstep
    obtain ⟨-, rfl⟩ := hstep
    exact h.frame active d.algorithm d.opnum
  | tick =>
    simp only [Daemon.step, Option.ite_none_right_eq_some] at hstep
    obtain ⟨-, htick⟩ := hstep
    rw [Daemon.onTick] at htick
    split_ifs at htick with hactive hmany
    · have hcounted : Known { d with opnum := d.opnum + 1 } :=
        h.frame d.active d.algorithm (d.opnum + 1)
      exact hcounted.begins (operate_begins htick)
    · obtain rfl := Option.some.inj htick
      exact h
  | send =>
    simp only [Daemon.step, Daemon.send] at hstep
    split at hstep
    · rename_i numServers request requests testsSodaw hoperation
      obtain rfl := Option.some.inj hstep
      refine h.imp (fun hidle ↦ ?_) fun hjoined ↦ ?_
      · rw [hidle.operation_eq] at hoperation
        cases hoperation
      · refine { hjoined with operation := fun operation h' ↦ ?_ }
        obtain rfl := Option.some.inj h'
        obtain ⟨hnumServers, hsocket⟩ := hjoined.operation _ hoperation
        exact ⟨hnumServers, hsocket⟩
    · cases hstep
  | finish =>
    simp only [Daemon.step, Daemon.finish] at hstep
    split at hstep
    · have hreturned : Known { d with operation := none } :=
        h.imp (fun hidle ↦ { hidle with operation_eq := rfl }) Joined.operation_none
      split_ifs at hstep with htests
      · exact hreturned.begins (testSodaw_begins hstep)
      · obtain rfl := Option.some.inj hstep
        exact hreturned
    · cases hstep

/-- In a run in which the list is filled once, every operation runs over the registered servers. -/
theorem quorumsOverServers {processType : ProcessType} {clientId : CString} {ipList : List CString}
    {algorithm : CString} {d : Daemon} {operation : Operation}
    (run : Run Daemon.step Daemon.StartsOnce
      (Daemon.start processType clientId ipList algorithm) d)
    (hoperation : d.operation = some operation) : QuorumsOverServers d operation := by
  have hknown : Known d := run.invariant (known_start processType clientId ipList algorithm)
    fun s event t hknown hguard hstep ↦ hknown.step hguard hstep
  rcases hknown with hidle | hjoined
  · rw [hidle.operation_eq] at hoperation
    cases hoperation
  · obtain ⟨hnumServers, hsocket⟩ := hjoined.operation operation hoperation
    have hcard : d.servers.card = d.parameters.ipList.length := by
      rw [← hjoined.toFinset_eq, List.toFinset_card_of_nodup hjoined.nodup]
    exact
      { nodup := hjoined.nodup
        numServers_eq := hjoined.numServers_eq.trans hcard.symm
        counted := hnumServers.trans hjoined.numServers_eq.symm
        connected := ⟨_, hsocket, by rw [List.length_map, hjoined.numServers_eq]⟩ }

/-- A reader that is started after two servers have been registered. -/
def startedReader : Option Daemon :=
  execute Daemon.step Daemon.StartsOnce (Daemon.start .reader (ascii ['r']) [] Text.abd)
    [.setServers (ascii ['a', '_', 'b']), .signal true [ascii ['a'], ascii ['b']]]

theorem quorumsOverServers_startedReader : ∃ d operation, startedReader = some d ∧
    d.operation = some operation ∧ QuorumsOverServers d operation := by
  have hsome : (startedReader.bind Daemon.operation).isSome = true := by decide +kernel
  obtain ⟨operation, hbind⟩ := Option.isSome_iff_exists.mp hsome
  obtain ⟨d, hd, hoperation⟩ := Option.bind_eq_some_iff.mp hbind
  exact ⟨d, operation, hd, hoperation, quorumsOverServers (run_of_execute hd) hoperation⟩

/-- A reader that is started with the one server that it has been given before. -/
def restartedReader : Option Daemon :=
  execute Daemon.step (fun _ _ ↦ True)
    (Daemon.start .reader (ascii ['r']) [ascii ['a']] Text.abd) [.signal true [ascii ['a']]]

/-- Its first write is over two servers, and one is registered. -/
theorem not_quorumsOverServers : ∃ d operation,
    Run Daemon.step (fun _ _ ↦ True)
      (Daemon.start .reader (ascii ['r']) [ascii ['a']] Text.abd) d ∧
    d.operation = some operation ∧ d.parameters.ipList = [ascii ['a'], ascii ['a']] ∧
      d.parameters.numServers = 2 ∧ d.servers.card = 1 ∧ ¬ QuorumsOverServers d operation := by
  have hlist : restartedReader.map (fun d ↦ d.parameters.ipList) =
      some [ascii ['a'], ascii ['a']] := by decide +kernel
  have hnumbers : restartedReader.map (fun d ↦ (d.parameters.numServers, d.servers.card)) =
      some (2, 1) := by decide +kernel
  have hsome : (restartedReader.bind Daemon.operation).isSome = true := by decide +kernel
  obtain ⟨operation, hbind⟩ := Option.isSome_iff_exists.mp hsome
  obtain ⟨d, hd, hoperation⟩ := Option.bind_eq_some_iff.mp hbind
  rw [hd, Option.map_some, Option.some.injEq] at hlist hnumbers
  obtain ⟨hnumServers, hcard⟩ := Prod.mk.inj hnumbers
  refine ⟨d, operation, run_of_execute hd, hoperation, hlist, hnumServers, hcard, fun h ↦ ?_⟩
  have hequal := h.numServers_eq
  rw [hnumServers, hcard] at hequal
  exact absurd hequal (by decide)

end Colas.Daemons
