import Mathlib.Data.Finset.Dedup
import Colas.Daemons.Daemon

/-!
# The routes of the HTTP server

Every process runs the same HTTP server. A handler changes the parameters of its process, and in the
controller it also sends commands to the processes that are registered there, one after the other:
`Process.handle` gives the process as the handler leaves it and the calls that the handler makes.
The loops over maps take the keys in any order; the orders, and the random numbers of `SetSeed`, are
a `Choice`.

A controller passes the servers on as one string with `_` between them, and the receiver takes it
apart again: `splitOn_createServerListString` says that the names arrive. The names that it gives to
the processes of one kind are all different (`processName_injective`).

`GetLog` and the other routes that only answer, and those that only empty a log file, are not here.
-/

set_option autoImplicit false
set_option relaxedAutoImplicit false

namespace Colas.Daemons

/-! ### Commands -/

/-- The routes of `HTTP_Server` that change a process. -/
inductive Route
  | setAlgorithm | setRunId | setWriteTo | setName
  | stopAProcess | startAProcess | killAProcess
  | stopProcess | startProcess | killProcess | killSelf
  | stopReaders | stopWriters | stopServers
  | startReaders | startWriters | startServers
  | setReaders | setWriters | setServers
  | setSeed | setReadRateDistribution | setWriteRateDistribution | setFileSize
  deriving DecidableEq

/-- A byte that prints a letter. -/
def isLetter (b : Byte) : Bool := 65 ≤ b && b ≤ 90 || 97 ≤ b && b ≤ 122

/-- The byte `.`. -/
def dot : Byte := 46

/-- The byte `/`. -/
def slash : Byte := 47

/-- The bytes of the addresses and of their lists, `[0-9._]`. -/
def isAddressByte (b : Byte) : Bool := isDigit b || b = dot || b = underscore

/-- The pattern for the variable of a route, if it has one. -/
def Route.pattern : Route → Option (Byte → Bool)
  | setReaders | setWriters | setServers => some isAddressByte
  | setSeed => some isDigit
  | setReadRateDistribution | setWriteRateDistribution =>
    some fun b ↦ isLetter b || isAddressByte b
  | setFileSize => some fun b ↦ isDigit b || b = dot
  | setAlgorithm | setRunId | setWriteTo | setName | stopAProcess | startAProcess |
    killAProcess => some fun b ↦ b ≠ slash
  | _ => none

/-- The variable has the pattern, if the route has one. -/
def Route.fits (route : Route) (param : CString) : Bool :=
  match route.pattern with
  | none => param.isEmpty
  | some pattern => !param.isEmpty && param.all pattern

/-- The router finds the route: every other path is not found, and nothing happens. It has no route
for `KillProcess`, and it drops `.` and `..` from a path. -/
def Route.Accepts (route : Route) (param : CString) : Prop :=
  route ≠ .killProcess ∧ param ≠ [dot] ∧ param ≠ [dot, dot] ∧ route.fits param = true

instance (route : Route) (param : CString) : Decidable (route.Accepts param) :=
  inferInstanceAs (Decidable
    (route ≠ .killProcess ∧ param ≠ [dot] ∧ param ≠ [dot, dot] ∧ route.fits param = true))

section Router

variable {route : Route} {param : CString} {pattern : Byte → Bool}

theorem Route.Accepts.all (h : route.Accepts param) (hpattern : route.pattern = some pattern) :
    ∀ b ∈ param, pattern b = true := by
  obtain ⟨-, -, -, hfits⟩ := h
  rw [Route.fits, hpattern, Bool.and_eq_true, List.all_eq_true] at hfits
  exact hfits.2

theorem accepts_of_mem {b : Byte} (hkill : route ≠ .killProcess)
    (hpattern : route.pattern = some pattern) (hb : b ∈ param) (hdot : b ≠ dot)
    (hall : ∀ b ∈ param, pattern b = true) : route.Accepts param := by
  refine ⟨hkill, ?_, ?_, ?_⟩
  · rintro rfl
    exact hdot (List.mem_singleton.mp hb)
  · rintro rfl
    exact hdot (by simpa using hb)
  · rw [Route.fits, hpattern, Bool.and_eq_true, List.all_eq_true]
    exact ⟨by simpa using List.ne_nil_of_mem hb, hall⟩

end Router

/-- What `send_command_to_process` is called with. -/
structure Call where
  /-- `ipaddr`. -/
  ipaddr : CString
  /-- `route`. -/
  route : Route
  /-- `param`. -/
  param : CString
  deriving DecidableEq

/-- `send_command_to_processes`. -/
def sendCommandToProcesses (processes : List CString) (route : Route) (mesg : CString) :
    List Call :=
  processes.map fun ipaddr ↦ ⟨ipaddr, route, mesg⟩

/-! ### Processes -/

/-- The fields of `Params` that the routes set, without those that the event loops have. -/
structure Params where
  /-- The keys of `readers`. -/
  readers : Finset CString
  /-- The keys of `writers`. -/
  writers : Finset CString
  /-- `name`. -/
  name : CString
  /-- `run_id`. -/
  runId : CString
  /-- `writeto`. -/
  writeto : CString
  /-- The text that has been parsed for `file_size`. -/
  fileSize : CString
  /-- `inter_read_wait_distribution`. -/
  interReadWaitDistribution : List CString
  /-- `inter_write_wait_distribution`. -/
  interWriteWaitDistribution : List CString

/-- The fields of `Server_Args` that a process chooses. -/
structure ServerArgs where
  /-- `server_id`. -/
  serverId : CString
  /-- `servers_str`. -/
  serversStr : CString

/-- The state of `server_daemon`. -/
structure ServerDaemon where
  /-- The keys of `data.servers`. -/
  servers : Finset CString
  /-- `data.algorithm`. -/
  algorithm : CString
  /-- `data.active`. -/
  active : Bool
  /-- `server_args`, which is not set at the start. -/
  serverArgs : Option ServerArgs
  /-- How often `server_process` has been started. -/
  serverProcesses : ℕ

/-- The event loop of a process. A controller has none. -/
inductive Loop
  | client (daemon : Daemon)
  | server (daemon : ServerDaemon)
  | controller (servers : Finset CString) (algorithm : CString)

namespace Loop

/-- `data.servers`. -/
def servers : Loop → Finset CString
  | client daemon => daemon.servers
  | server daemon => daemon.servers
  | controller servers _ => servers

/-- `data.algorithm`. -/
def algorithm : Loop → CString
  | client daemon => daemon.algorithm
  | server daemon => daemon.algorithm
  | controller _ algorithm => algorithm

/-- The servers are registered. -/
def addServers (ips : Finset CString) : Loop → Loop
  | client daemon => client { daemon with servers := daemon.servers ∪ ips }
  | server daemon => server { daemon with servers := daemon.servers ∪ ips }
  | controller servers algorithm => controller (servers ∪ ips) algorithm

/-- The algorithm is set. -/
def setAlgorithm (id : CString) : Loop → Loop
  | client daemon => client { daemon with algorithm := id }
  | server daemon => server { daemon with algorithm := id }
  | controller servers _ => controller servers id

end Loop

/-- A process with its HTTP server. -/
structure Process where
  /-- `data`. -/
  params : Params
  /-- The event loop. -/
  loop : Loop
  /-- What is in `active_chan`, the oldest value first. A controller does not make the channel. -/
  activeChan : Option (List Bool)

/-- The order in which a loop over a map takes the keys. -/
def Enumerates (order : List CString) (keys : Finset CString) : Prop :=
  order.Nodup ∧ order.toFinset = keys

instance (order : List CString) (keys : Finset CString) : Decidable (Enumerates order keys) :=
  inferInstanceAs (Decidable (order.Nodup ∧ order.toFinset = keys))

theorem Enumerates.mem_iff {order : List CString} {keys : Finset CString}
    (h : Enumerates order keys) {key : CString} : key ∈ order ↔ key ∈ keys := by
  rw [← h.2, List.mem_toFinset]

/-- The orders of the loops of a handler over the maps, and the numbers that it draws. -/
structure Choice where
  /-- The order of `readers`. -/
  readers : List CString
  /-- The order of `writers`. -/
  writers : List CString
  /-- The order of `servers` when they are sent commands. -/
  servers : List CString
  /-- The order of `servers` in `create_server_list_string`. -/
  listed : List CString
  /-- The results of `rand.Intn`. -/
  seeds : List ℕ

/-- The orders are those of the maps of the process. -/
def Choice.Valid (choice : Choice) (p : Process) : Prop :=
  Enumerates choice.readers p.params.readers ∧ Enumerates choice.writers p.params.writers ∧
    Enumerates choice.servers p.loop.servers ∧ Enumerates choice.listed p.loop.servers

instance (choice : Choice) (p : Process) : Decidable (choice.Valid p) := by
  unfold Choice.Valid
  infer_instance

/-- There is a number below `RANDSIZE` for each reader and each writer. -/
def Choice.Draws (choice : Choice) : Prop :=
  choice.seeds.length = (choice.readers ++ choice.writers).length ∧
    ∀ seed ∈ choice.seeds, seed < 1000000000

instance (choice : Choice) : Decidable choice.Draws :=
  inferInstanceAs (Decidable (choice.seeds.length = (choice.readers ++ choice.writers).length ∧
    ∀ seed ∈ choice.seeds, seed < 1000000000))

/-! ### Handlers -/

/-- The kinds of processes that a controller registers. -/
inductive Kind
  | reader
  | writer
  | server
  deriving DecidableEq

/-- The kind in a name. -/
def Kind.text : Kind → CString
  | reader => ascii ['r', 'e', 'a', 'd', 'e', 'r']
  | writer => ascii ['w', 'r', 'i', 't', 'e', 'r']
  | server => ascii ['s', 'e', 'r', 'v', 'e', 'r']

/-- The name that a controller gives to a process. -/
def processName (kind : Kind) (j : ℕ) : CString := kind.text ++ underscore :: decimal j

/-- `create_server_list_string`. -/
def createServerListString (listed : List CString) : CString := [underscore].intercalate listed

/-- What the loops of `SetServers`, `SetWriters` and `SetReaders` send to the clients, from a
counter on. -/
def registerCalls (kind : Kind) (listed : List CString) : List CString → ℕ → List Call
  | [], _ => []
  | ipaddr :: clients, j =>
    ⟨ipaddr, .setServers, createServerListString listed⟩ ::
      ⟨ipaddr, .setName, processName kind j⟩ :: registerCalls kind listed clients (j + 1)

namespace Process

/-- `data.processType == 3`. -/
def isController (p : Process) : Bool :=
  match p.loop with
  | .controller _ _ => true
  | _ => false

/-- A controller makes the calls, and every other process makes none. -/
def forward (p : Process) (choice : Choice) (calls : List Call) : Option (Process × List Call) :=
  if p.isController = true then if choice.Valid p then some (p, calls) else none else some (p, [])

/-- `SetServers`. -/
def setServers (p : Process) (choice : Choice) (ip : CString) : Option (Process × List Call) :=
  { p with loop := p.loop.addServers (ip.splitOn underscore).toFinset }.forward choice
    (registerCalls .server choice.listed choice.servers 0)

/-- `SetWriters`. -/
def setWriters (p : Process) (choice : Choice) (ip : CString) : Option (Process × List Call) :=
  let writers := p.params.writers ∪ (ip.splitOn underscore).toFinset
  { p with params := { p.params with writers := writers } }.forward choice
    (registerCalls .writer choice.listed choice.writers 0)

/-- `SetReaders`. -/
def setReaders (p : Process) (choice : Choice) (ip : CString) : Option (Process × List Call) :=
  let readers := p.params.readers ∪ (ip.splitOn underscore).toFinset
  { p with params := { p.params with readers := readers } }.forward choice
    (registerCalls .reader choice.listed choice.readers 0)

/-- `SetRunId`. -/
def setRunId (p : Process) (choice : Choice) (id : CString) : Option (Process × List Call) :=
  { p with params := { p.params with runId := id } }.forward choice
    (sendCommandToProcesses (choice.readers ++ choice.writers ++ choice.servers) .setRunId id)

/-- `SetAlgorithm`. -/
def setAlgorithm (p : Process) (choice : Choice) (id : CString) : Option (Process × List Call) :=
  { p with loop := p.loop.setAlgorithm id }.forward choice
    (sendCommandToProcesses (choice.readers ++ choice.writers ++ choice.servers) .setAlgorithm id)

/-- `SetSeed`, which sends the numbers as names. -/
def setSeed (p : Process) (choice : Choice) : Option (Process × List Call) :=
  if choice.Draws then
    p.forward choice (List.zipWith (fun ipaddr seed ↦ ⟨ipaddr, .setName, digitString seed⟩)
      (choice.readers ++ choice.writers) choice.seeds)
  else none

/-- `SetReadRateDistribution`. With one field the handler panics at the second one. -/
def setReadRateDistribution (p : Process) (choice : Choice) (param : CString) :
    Option (Process × List Call) :=
  match param.splitOn underscore with
  | name :: k :: m =>
    { p with params := { p.params with
      interReadWaitDistribution := name :: k :: m.take 1 } }.forward choice
        (sendCommandToProcesses (choice.readers ++ choice.writers) .setReadRateDistribution param)
  | _ => some (p, [])

/-- `SetWriteRateDistribution`. With one field the handler panics at the second one. -/
def setWriteRateDistribution (p : Process) (choice : Choice) (param : CString) :
    Option (Process × List Call) :=
  match param.splitOn underscore with
  | name :: k :: m =>
    { p with params := { p.params with
      interWriteWaitDistribution := name :: k :: m.take 1 } }.forward choice
        (sendCommandToProcesses (choice.readers ++ choice.writers) .setWriteRateDistribution param)
  | _ => some (p, [])

/-- `SetWriteTo`. -/
def setWriteTo (p : Process) (choice : Choice) (param : CString) : Option (Process × List Call) :=
  { p with params := { p.params with writeto := param } }.forward choice
    (sendCommandToProcesses (choice.writers ++ choice.readers ++ choice.servers) .setWriteTo param)

/-- `SetFileSize`, where the size is overwritten with the result of the parser in any case. -/
def setFileSize (p : Process) (choice : Choice) (size : CString) : Option (Process × List Call) :=
  { p with params := { p.params with fileSize := size } }.forward choice
    (sendCommandToProcesses (choice.writers ++ choice.readers) .setFileSize size)

/-- `SetName`, which only prints that a text has not two fields. -/
def setName (p : Process) (param : CString) : Process :=
  { p with params := { p.params with name := param } }

/-- `StartProcess` and `StopProcess`: the handler waits until the channel, which holds two values,
has room. -/
def signal (p : Process) (active : Bool) : Option (Process × List Call) := do
  let values ← p.activeChan
  if values.length < 2 then some ({ p with activeChan := some (values ++ [active]) }, []) else none

/-- `clusterCommand`, which every process obeys. -/
def clusterCommand (p : Process) (choice : Choice) (url : Route) (daemons : List CString) :
    Option (Process × List Call) :=
  if choice.Valid p then some (p, sendCommandToProcesses daemons url []) else none

/-- The handler of a route. `KillProcess` and `KillSelf` end the process, and are not here. -/
def handle (p : Process) (choice : Choice) (param : CString) :
    Route → Option (Process × List Call)
  | .setAlgorithm => p.setAlgorithm choice param
  | .setRunId => p.setRunId choice param
  | .setWriteTo => p.setWriteTo choice param
  | .setName => some (p.setName param, [])
  | .stopAProcess => p.forward choice [⟨param, .stopProcess, []⟩]
  | .startAProcess => p.forward choice [⟨param, .startProcess, []⟩]
  | .killAProcess => p.forward choice [⟨param, .killProcess, []⟩]
  | .stopProcess => p.signal false
  | .startProcess => p.signal true
  | .killProcess | .killSelf => none
  | .stopReaders => p.clusterCommand choice .stopReaders choice.readers
  | .stopWriters => p.clusterCommand choice .stopWriters choice.writers
  | .stopServers => p.clusterCommand choice .stopServers choice.servers
  | .startReaders => p.clusterCommand choice .startProcess choice.readers
  | .startWriters => p.clusterCommand choice .startProcess choice.writers
  | .startServers => p.clusterCommand choice .startProcess choice.servers
  | .setReaders => p.setReaders choice param
  | .setWriters => p.setWriters choice param
  | .setServers => p.setServers choice param
  | .setSeed => p.setSeed choice
  | .setReadRateDistribution => p.setReadRateDistribution choice param
  | .setWriteRateDistribution => p.setWriteRateDistribution choice param
  | .setFileSize => p.setFileSize choice param

end Process

/-! ### Event loops -/

/-- The case of a signal in `server_daemon`, with `InitializeServerParameters`, in which the loop
over the map takes the servers in some order. -/
def ServerDaemon.onSignal (d : ServerDaemon) (name : CString) (active : Bool)
    (order : List CString) : Option ServerDaemon :=
  if Enumerates order d.servers ∧ (cString name).length < bufsize then
    some { d with
      active := active
      serverArgs := some ⟨cString name, cString (joinNames order)⟩
      serverProcesses := d.serverProcesses + 1 }
  else none

/-- A turn of the event loop of a client that has nothing to do with the HTTP server. -/
inductive Turn
  | tick
  | send
  | finish

/-- The event of the turn. -/
def Turn.event : Turn → Event
  | tick => .tick
  | send => .send
  | finish => .finish

namespace Process

/-- The event loop takes a value from `active_chan`. -/
def takeSignal (p : Process) (order : List CString) : Option Process :=
  match p.activeChan, p.loop with
  | some (active :: values), .client daemon => do
    let daemon ← daemon.step (.signal active order)
    some { p with loop := .client daemon, activeChan := some values }
  | some (active :: values), .server daemon => do
    let daemon ← daemon.onSignal p.params.name active order
    some { p with loop := .server daemon, activeChan := some values }
  | _, _ => none

/-- The event loop of a client takes a turn. -/
def takeTurn (p : Process) (turn : Turn) : Option Process :=
  match p.loop with
  | .client daemon => do
    let daemon ← daemon.step turn.event
    some { p with loop := .client daemon }
  | _ => none

end Process

section Loops

variable {d d' : Daemon} {p p' : Process}

theorem begins_frame (h : d.Begins d') :
    d'.servers = d.servers ∧ d'.parameters = d.parameters := by
  obtain rfl | ⟨args, opnum, phases, testsSodaw, -, hcall⟩ := h
  · exact ⟨rfl, rfl⟩
  · obtain ⟨endpoints, -, hresult⟩ := Option.bind_eq_some_iff.mp hcall
    obtain rfl := Option.some.inj hresult
    exact ⟨rfl, rfl⟩

/-- A signal does not change the registered servers. -/
theorem signal_servers {active : Bool} {order : List CString}
    (h : d.step (.signal active order) = some d') : d'.servers = d.servers := by
  simp only [Daemon.step, Option.ite_none_right_eq_some] at h
  obtain ⟨-, rfl⟩ | ⟨-, -, cparameters, args, -, hargs, hrest⟩ := onSignal_cases h.2
  · rfl
  · obtain ⟨-, rfl⟩ | ⟨-, d₂, hwrite, rfl⟩ := hrest
    · rfl
    · have hframe := begins_frame (writeInitialData_begins hargs hwrite)
      exact hframe.1

/-- A turn of the loop changes neither them nor the list that a signal fills. -/
theorem turn_frame {turn : Turn} (h : d.step turn.event = some d') :
    d'.servers = d.servers ∧ d'.parameters = d.parameters := by
  cases turn with
  | tick =>
    simp only [Turn.event, Daemon.step, Daemon.onTick, Option.ite_none_right_eq_some] at h
    obtain ⟨-, h⟩ := h
    split_ifs at h
    · have hframe := begins_frame (operate_begins h)
      exact hframe
    · rw [Option.some.inj h]
      exact ⟨rfl, rfl⟩
  | send =>
    simp only [Turn.event, Daemon.step, Daemon.send] at h
    split at h
    · obtain rfl := Option.some.inj h
      exact ⟨rfl, rfl⟩
    · cases h
  | finish =>
    simp only [Turn.event, Daemon.step, Daemon.finish] at h
    split at h
    · split_ifs at h
      · have hframe := begins_frame (testSodaw_begins h)
        exact hframe
      · obtain rfl := Option.some.inj h
        exact ⟨rfl, rfl⟩
    · cases h

/-- What an event loop does with a signal. -/
theorem takeSignal_cases {order : List CString} (h : p.takeSignal order = some p') :
    ∃ active values, p.activeChan = some (active :: values) ∧
      ((∃ d d', p.loop = .client d ∧ d.step (.signal active order) = some d' ∧
          p' = { p with loop := .client d', activeChan := some values }) ∨
        ∃ d d' : ServerDaemon, p.loop = .server d ∧
          d.onSignal p.params.name active order = some d' ∧
          p' = { p with loop := .server d', activeChan := some values }) := by
  rw [Process.takeSignal] at h
  split at h
  · rename_i active values d hchan hloop
    obtain ⟨d', hd', hresult⟩ := Option.bind_eq_some_iff.mp h
    exact ⟨active, values, hchan, Or.inl ⟨d, d', hloop, hd', (Option.some.inj hresult).symm⟩⟩
  · rename_i active values d hchan hloop
    obtain ⟨d', hd', hresult⟩ := Option.bind_eq_some_iff.mp h
    exact ⟨active, values, hchan, Or.inr ⟨d, d', hloop, hd', (Option.some.inj hresult).symm⟩⟩
  · cases h

/-- What an event loop does in a turn. -/
theorem takeTurn_cases {turn : Turn} (h : p.takeTurn turn = some p') :
    ∃ d d', p.loop = .client d ∧ d.step turn.event = some d' ∧
      p' = { p with loop := .client d' } := by
  rw [Process.takeTurn] at h
  split at h
  · rename_i d hloop
    obtain ⟨d', hd', hresult⟩ := Option.bind_eq_some_iff.mp h
    exact ⟨d, d', hloop, hd', (Option.some.inj hresult).symm⟩
  · cases h

/-- What `server_daemon` does with a signal. -/
theorem ServerDaemon.onSignal_cases {d d' : ServerDaemon} {name : CString} {active : Bool}
    {order : List CString} (h : d.onSignal name active order = some d') :
    Enumerates order d.servers ∧ d'.servers = d.servers ∧
      d'.serverArgs = some ⟨cString name, cString (joinNames order)⟩ := by
  rw [ServerDaemon.onSignal, Option.ite_none_right_eq_some] at h
  obtain ⟨⟨horder, -⟩, h⟩ := h
  obtain rfl := Option.some.inj h
  exact ⟨horder, rfl, rfl⟩

end Loops

/-! ### Lists of servers -/

section Lists

variable {listed : List CString} {kind kind' : Kind} {j j' : ℕ}

/-- A name that a list of addresses can have. -/
def IsAddress (name : CString) : Prop :=
  name.any isDigit = true ∧ ∀ b ∈ name, isDigit b = true ∨ b = dot

theorem IsAddress.underscore_notMem {name : CString} (h : IsAddress name) : underscore ∉ name :=
  fun hmem ↦ absurd (h.2 _ hmem) (by decide)

/-- The names arrive. -/
theorem splitOn_createServerListString (hne : listed ≠ [])
    (haddress : ∀ name ∈ listed, IsAddress name) :
    (createServerListString listed).splitOn underscore = listed :=
  List.splitOn_intercalate underscore (fun name hname ↦ (haddress name hname).underscore_notMem) hne

/-- The pieces of a string are made of its other bytes. -/
theorem mem_of_mem_splitOn {b c : Byte} {s piece : CString} (hpiece : piece ∈ s.splitOn c)
    (hb : b ∈ piece) : b ∈ s ∧ b ≠ c := by
  induction s generalizing piece with
  | nil =>
    rw [List.splitOn_nil, List.mem_singleton] at hpiece
    subst hpiece
    cases hb
  | cons first rest ih =>
    rw [List.splitOn_cons_eq_if_modifyHead] at hpiece
    split_ifs at hpiece with hfirst
    · rcases List.mem_cons.mp hpiece with rfl | hpiece
      · cases hb
      · obtain ⟨hmem, hne⟩ := ih hpiece hb
        exact ⟨List.mem_cons_of_mem _ hmem, hne⟩
    · obtain ⟨head, tail, hsplit⟩ := List.exists_cons_of_ne_nil (List.splitOn_ne_nil c rest)
      rw [hsplit] at ih
      rw [hsplit, List.modifyHead_cons] at hpiece
      rcases List.mem_cons.mp hpiece with rfl | hpiece
      · rcases List.mem_cons.mp hb with rfl | hb
        · exact ⟨List.mem_cons_self, by simpa using hfirst⟩
        · obtain ⟨hmem, hne⟩ := ih List.mem_cons_self hb
          exact ⟨List.mem_cons_of_mem _ hmem, hne⟩
      · obtain ⟨hmem, hne⟩ := ih (List.mem_cons_of_mem _ hpiece) hb
        exact ⟨List.mem_cons_of_mem _ hmem, hne⟩

theorem mem_intercalate {b c : Byte} {pieces : List CString} (h : b ∈ [c].intercalate pieces) :
    b = c ∨ ∃ piece ∈ pieces, b ∈ piece := by
  induction pieces with
  | nil => simp at h
  | cons piece pieces ih =>
    cases pieces with
    | nil => exact Or.inr ⟨piece, List.mem_cons_self, by simpa using h⟩
    | cons next rest =>
      rw [List.intercalate_cons_cons, List.append_assoc, List.mem_append, List.mem_append] at h
      rcases h with hpiece | hsep | hrest
      · exact Or.inr ⟨piece, List.mem_cons_self, hpiece⟩
      · exact Or.inl (List.mem_singleton.mp hsep)
      · obtain heq | ⟨other, hother, hb⟩ := ih hrest
        · exact Or.inl heq
        · exact Or.inr ⟨other, List.mem_cons_of_mem _ hother, hb⟩

/-- The router of the receiver finds the route, unless there is nothing to send. -/
theorem accepts_createServerListString (hne : listed ≠ [])
    (haddress : ∀ name ∈ listed, IsAddress name) :
    Route.setServers.Accepts (createServerListString listed) := by
  obtain ⟨first, rest, rfl⟩ := List.exists_cons_of_ne_nil hne
  obtain ⟨digit, hmem, hdigit⟩ := List.any_eq_true.mp (haddress first List.mem_cons_self).1
  have hfirst : digit ∈ createServerListString (first :: rest) := by
    rw [createServerListString]
    cases rest with
    | nil => simpa using hmem
    | cons next rest =>
      rw [List.intercalate_cons_cons, List.append_assoc]
      exact List.mem_append_left _ hmem
  refine accepts_of_mem (by simp) rfl hfirst ?_ fun b hb ↦ ?_
  · rintro rfl
    exact absurd hdigit (by decide)
  · obtain rfl | ⟨name, hname, hmem⟩ := mem_intercalate hb
    · decide
    · rcases (haddress name hname).2 b hmem with hdigit | rfl
      · simp [isAddressByte, hdigit]
      · decide

theorem not_accepts_nil : ¬ Route.setServers.Accepts (createServerListString []) := by decide

theorem underscore_notMem_text (kind : Kind) : underscore ∉ kind.text := by
  cases kind <;> decide

/-- A controller does not give one name twice. -/
theorem processName_injective (h : processName kind j = processName kind' j') :
    kind = kind' ∧ j = j' := by
  have hdecimal : underscore ∉ decimal j := fun hmem ↦ ne_underscore_of_mem_decimal hmem rfl
  obtain ⟨htext, -, hdecimal⟩ :=
    (List.append_cons_inj_of_notMem (underscore_notMem_text kind) hdecimal).mp h
  refine ⟨?_, ?_⟩
  · cases kind <;> cases kind' <;> first | rfl | exact absurd htext (by decide)
  · have hatoi := congrArg atoiValue hdecimal
    rw [atoiValue_decimal, atoiValue_decimal] at hatoi
    exact_mod_cast hatoi

theorem accepts_processName (kind : Kind) (j : ℕ) : Route.setName.Accepts (processName kind j) := by
  have hunderscore : underscore ∈ processName kind j :=
    List.mem_append_right _ List.mem_cons_self
  refine accepts_of_mem (by simp) rfl hunderscore (by decide) fun b hb ↦ ?_
  rw [decide_eq_true_eq]
  rintro rfl
  rcases List.mem_append.mp hb with hkind | hrest
  · exact absurd hkind (by cases kind <;> decide)
  · rcases List.mem_cons.mp hrest with heq | hdecimal
    · exact absurd heq (by decide)
    · exact absurd (isDigit_of_mem_digitString hdecimal) (by decide)

end Lists

/-! ### What a handler does -/

/-- The names in a parameter. -/
def names (param : CString) : Finset CString := (param.splitOn underscore).toFinset

/-- The route sets something, and does not start, stop or kill. -/
def Route.sets : Route → Bool
  | setAlgorithm | setRunId | setWriteTo | setName | setReaders | setWriters | setServers |
    setSeed | setReadRateDistribution | setWriteRateDistribution | setFileSize => true
  | _ => false

/-- The kind of processes that the route registers. -/
def Route.kind : Route → Option Kind
  | setReaders => some .reader
  | setWriters => some .writer
  | setServers => some .server
  | _ => none

/-- The processes of a kind that are registered at a process. -/
def Process.registered (p : Process) : Kind → Finset CString
  | .reader => p.params.readers
  | .writer => p.params.writers
  | .server => p.loop.servers

/-- What a handler leaves. -/
structure Handled (p : Process) (route : Route) (param : CString) (p' : Process) : Prop where
  isController_eq : p'.isController = p.isController
  registered_eq : ∀ kind, p'.registered kind =
    if route.kind = some kind then p.registered kind ∪ names param else p.registered kind
  name_eq : p'.params.name = if route = .setName then param else p.params.name
  client_eq : ∀ daemon, p.loop = .client daemon → ∃ daemon', p'.loop = .client daemon' ∧
    (daemon' = daemon ∨ route = .setServers ∧ daemon.step (.setServers param) = some daemon' ∨
      route = .setAlgorithm ∧ daemon.step (.setAlgorithm param) = some daemon')
  server_eq : ∀ daemon, p.loop = .server daemon → ∃ daemon', p'.loop = .server daemon' ∧
    daemon'.serverArgs = daemon.serverArgs
  activeChan_eq : route ≠ .startProcess → route ≠ .stopProcess → p'.activeChan = p.activeChan

/-- A call that the handler of a route makes. -/
structure Made (p : Process) (route : Route) (param : CString) (call : Call) : Prop where
  sets_eq : call.route.sets = route.sets
  kind_eq : call.route.kind = none ∨ call.route = .setServers
  tells : call.route = .setServers ∨ call.route = .setName →
    route.kind ≠ none ∨ route = .setSeed
  ipaddr : call.ipaddr = param ∧ (route = .stopAProcess ∨ route = .startAProcess ∨
    route = .killAProcess) ∨ ∃ kind, call.ipaddr ∈ p.registered kind

section Handlers

variable {p p' : Process} {choice : Choice} {route : Route} {param : CString}
  {calls made : List Call} {call : Call}

theorem forward_cases (h : p.forward choice made = some (p', calls)) : p' = p ∧
    (p.isController = true ∧ choice.Valid p ∧ calls = made ∨
      p.isController = false ∧ calls = []) := by
  rw [Process.forward] at h
  split_ifs at h with hcontroller hvalid
  · obtain ⟨rfl, rfl⟩ := Prod.mk.inj (Option.some.inj h)
    exact ⟨rfl, Or.inl ⟨hcontroller, hvalid, rfl⟩⟩
  · obtain ⟨rfl, rfl⟩ := Prod.mk.inj (Option.some.inj h)
    exact ⟨rfl, Or.inr ⟨by simpa using hcontroller, rfl⟩⟩

theorem signal_cases {active : Bool} (h : p.signal active = some (p', calls)) :
    ∃ values, p.activeChan = some values ∧ values.length < 2 ∧
      p' = { p with activeChan := some (values ++ [active]) } ∧ calls = [] := by
  obtain ⟨values, hvalues, h⟩ := Option.bind_eq_some_iff.mp h
  rw [Option.ite_none_right_eq_some] at h
  obtain ⟨hroom, h⟩ := h
  obtain ⟨rfl, rfl⟩ := Prod.mk.inj (Option.some.inj h)
  exact ⟨values, hvalues, hroom, rfl, rfl⟩

theorem clusterCommand_cases {url : Route} {daemons : List CString}
    (h : p.clusterCommand choice url daemons = some (p', calls)) :
    choice.Valid p ∧ p' = p ∧ calls = sendCommandToProcesses daemons url [] := by
  rw [Process.clusterCommand, Option.ite_none_right_eq_some] at h
  obtain ⟨hvalid, h⟩ := h
  obtain ⟨rfl, rfl⟩ := Prod.mk.inj (Option.some.inj h)
  exact ⟨hvalid, rfl, rfl⟩

theorem mem_registerCalls {kind : Kind} {listed clients : List CString} {j : ℕ}
    (h : call ∈ registerCalls kind listed clients j) : call.ipaddr ∈ clients ∧
      (call.route = .setServers ∨ call.route = .setName) := by
  induction clients generalizing j with
  | nil => cases h
  | cons ipaddr clients ih =>
    rcases List.mem_cons.mp h with rfl | h
    · exact ⟨List.mem_cons_self, Or.inl rfl⟩
    rcases List.mem_cons.mp h with rfl | h
    · exact ⟨List.mem_cons_self, Or.inr rfl⟩
    · obtain ⟨hmem, hroute⟩ := ih h
      exact ⟨List.mem_cons_of_mem _ hmem, hroute⟩

/-- A handler that only sets a field of `data` that no one else reads. -/
theorem Handled.of_eq (hloop : p'.loop = p.loop) (hreaders : p'.params.readers = p.params.readers)
    (hwriters : p'.params.writers = p.params.writers) (hname : p'.params.name = p.params.name)
    (hkind : route.kind = none) (hroute : route ≠ .setName)
    (hchan : route ≠ .startProcess → route ≠ .stopProcess → p'.activeChan = p.activeChan) :
    Handled p route param p' where
  isController_eq := by rw [Process.isController, Process.isController, hloop]
  registered_eq := fun kind ↦ by
    rw [hkind, if_neg (by simp)]
    cases kind <;> simp [Process.registered, hloop, hreaders, hwriters]
  name_eq := by rw [if_neg hroute, hname]
  client_eq := fun daemon hdaemon ↦ ⟨daemon, hloop.trans hdaemon, Or.inl rfl⟩
  server_eq := fun daemon hdaemon ↦ ⟨daemon, hloop.trans hdaemon, rfl⟩
  activeChan_eq := hchan

/-- A handler that registers processes of a kind. -/
theorem Handled.of_register (kind : Kind) (hkind : route.kind = some kind)
    (hregistered : ∀ kind', p'.registered kind' =
      if kind = kind' then p.registered kind' ∪ names param else p.registered kind')
    (hname : p'.params.name = p.params.name) (hchan : p'.activeChan = p.activeChan)
    (hloop : p'.loop = p.loop ∨ route = .setServers ∧ p'.loop = p.loop.addServers (names param)) :
    Handled p route param p' where
  isController_eq := by
    rcases hloop with hsame | ⟨-, hservers⟩
    · rw [Process.isController, Process.isController, hsame]
    · rw [Process.isController, Process.isController, hservers]
      cases p.loop <;> rfl
  registered_eq := fun kind' ↦ by
    rw [hregistered, hkind]
    simp only [Option.some.injEq]
  name_eq := by
    rw [hname, if_neg]
    rintro rfl
    cases hkind
  client_eq := fun daemon hdaemon ↦ by
    rcases hloop with hsame | ⟨hroute, hservers⟩
    · exact ⟨daemon, hsame.trans hdaemon, Or.inl rfl⟩
    · rw [hdaemon] at hservers
      exact ⟨_, hservers, Or.inr (Or.inl ⟨hroute, rfl⟩)⟩
  server_eq := fun daemon hdaemon ↦ by
    rcases hloop with hsame | ⟨-, hservers⟩
    · exact ⟨daemon, hsame.trans hdaemon, rfl⟩
    · rw [hdaemon] at hservers
      exact ⟨_, hservers, rfl⟩
  activeChan_eq := fun _ _ ↦ hchan

theorem Handled.setName : Handled p .setName param (p.setName param) where
  isController_eq := rfl
  registered_eq := fun kind ↦ by cases kind <;> rfl
  name_eq := rfl
  client_eq := fun daemon hdaemon ↦ ⟨daemon, hdaemon, Or.inl rfl⟩
  server_eq := fun daemon hdaemon ↦ ⟨daemon, hdaemon, rfl⟩
  activeChan_eq := fun _ _ ↦ rfl

theorem Handled.setAlgorithm :
    Handled p .setAlgorithm param { p with loop := p.loop.setAlgorithm param } where
  isController_eq := by
    obtain ⟨params, loop, chan⟩ := p
    cases loop <;> rfl
  registered_eq := fun kind ↦ by
    obtain ⟨params, loop, chan⟩ := p
    cases kind <;> cases loop <;> rfl
  name_eq := rfl
  client_eq := fun daemon hdaemon ↦ by
    refine ⟨{ daemon with algorithm := param }, ?_, Or.inr (Or.inr ⟨rfl, rfl⟩)⟩
    change p.loop.setAlgorithm param = _
    rw [hdaemon]
    rfl
  server_eq := fun daemon hdaemon ↦ by
    refine ⟨{ daemon with algorithm := param }, ?_, rfl⟩
    change p.loop.setAlgorithm param = _
    rw [hdaemon]
    rfl
  activeChan_eq := fun _ _ ↦ rfl

theorem Choice.Valid.exists_registered (h : choice.Valid p) {ipaddr : CString}
    (hmem : ipaddr ∈ choice.readers ++ choice.writers ++ choice.servers) :
    ∃ kind, ipaddr ∈ p.registered kind := by
  obtain ⟨hreaders, hwriters, hservers, -⟩ := h
  simp only [List.mem_append] at hmem
  rcases hmem with (hreader | hwriter) | hserver
  · exact ⟨.reader, hreaders.mem_iff.mp hreader⟩
  · exact ⟨.writer, hwriters.mem_iff.mp hwriter⟩
  · exact ⟨.server, hservers.mem_iff.mp hserver⟩

theorem Made.of_send {daemons : List CString} {url : Route} {mesg : CString}
    (hcall : call ∈ sendCommandToProcesses daemons url mesg) (hvalid : choice.Valid p)
    (hdaemons : daemons ⊆ choice.readers ++ choice.writers ++ choice.servers)
    (hsets : url.sets = route.sets) (hkind : url.kind = none) (hname : url ≠ .setName) :
    Made p route param call := by
  obtain ⟨ipaddr, hmem, rfl⟩ := List.mem_map.mp hcall
  refine ⟨hsets, Or.inl hkind, fun htells ↦ ?_, Or.inr (hvalid.exists_registered (hdaemons hmem))⟩
  rcases htells with rfl | heq
  · cases hkind
  · exact absurd heq hname

theorem Made.of_register {kind : Kind} {clients : List CString} {j : ℕ}
    (hcall : call ∈ registerCalls kind choice.listed clients j) (hvalid : choice.Valid p)
    (hclients : clients ⊆ choice.readers ++ choice.writers ++ choice.servers)
    (hsets : route.sets = true) (hkind : route.kind ≠ none) : Made p route param call := by
  obtain ⟨hmem, hroute⟩ := mem_registerCalls hcall
  refine ⟨?_, ?_, fun _ ↦ Or.inl hkind, Or.inr (hvalid.exists_registered (hclients hmem))⟩
  · rcases hroute with heq | heq <;> rw [heq, hsets] <;> rfl
  · rcases hroute with heq | heq
    · exact Or.inr heq
    · exact Or.inl (by rw [heq]; rfl)

/-- A handler that leaves a process and lets a controller make calls. -/
theorem spec_of_forward {q : Process} (h : q.forward choice made = some (p', calls))
    (hleaves : Handled p route param q)
    (hmade : choice.Valid q → ∀ call ∈ made, Made q route param call) :
    Handled p route param p' ∧ ∀ call ∈ calls, Made p' route param call ∧
      (p'.isController = true ∨
        route.sets = false ∧ ∃ kind, call.ipaddr ∈ p'.registered kind) := by
  obtain ⟨rfl, ⟨hcontroller, hvalid, rfl⟩ | ⟨-, rfl⟩⟩ := forward_cases h
  · exact ⟨hleaves, fun call hcall ↦ ⟨hmade hvalid call hcall, Or.inl hcontroller⟩⟩
  · exact ⟨hleaves, fun call hcall ↦ absurd hcall List.not_mem_nil⟩

/-- A handler that sets a parameter and sends it on. -/
theorem spec_of_send {params : Params} {daemons : List CString} {mesg : CString}
    (h : { p with params := params }.forward choice (sendCommandToProcesses daemons route mesg) =
      some (p', calls))
    (hparams : params.readers = p.params.readers ∧ params.writers = p.params.writers ∧
      params.name = p.params.name)
    (hdaemons : daemons ⊆ choice.readers ++ choice.writers ++ choice.servers)
    (hkind : route.kind = none) (hname : route ≠ .setName) :
    Handled p route param p' ∧ ∀ call ∈ calls, Made p' route param call ∧
      (p'.isController = true ∨
        route.sets = false ∧ ∃ kind, call.ipaddr ∈ p'.registered kind) := by
  obtain ⟨hreaders, hwriters, hname'⟩ := hparams
  exact spec_of_forward h (Handled.of_eq rfl hreaders hwriters hname' hkind hname fun _ _ ↦ rfl)
    fun hvalid call hcall ↦ Made.of_send hcall hvalid hdaemons rfl hkind hname

/-- A handler of `clusterCommand`. -/
theorem spec_of_clusterCommand {url : Route} {daemons : List CString}
    (h : p.clusterCommand choice url daemons = some (p', calls))
    (hdaemons : daemons ⊆ choice.readers ++ choice.writers ++ choice.servers)
    (hsets : url.sets = false) (hroute : route.sets = false) :
    Handled p route param p' ∧ ∀ call ∈ calls, Made p' route param call ∧
      (p'.isController = true ∨
        route.sets = false ∧ ∃ kind, call.ipaddr ∈ p'.registered kind) := by
  obtain ⟨hvalid, rfl, rfl⟩ := clusterCommand_cases h
  have hkind : ∀ {r : Route}, r.sets = false → r.kind = none ∧ r ≠ .setName := by
    intro r
    cases r <;> simp [Route.sets, Route.kind]
  refine ⟨Handled.of_eq rfl rfl rfl rfl (hkind hroute).1 (hkind hroute).2 fun _ _ ↦ rfl,
    fun call hcall ↦ ⟨?_, Or.inr ⟨hroute, ?_⟩⟩⟩
  · exact Made.of_send hcall hvalid hdaemons (hsets.trans hroute.symm) (hkind hsets).1
      (hkind hsets).2
  · obtain ⟨ipaddr, hmem, rfl⟩ := List.mem_map.mp hcall
    exact hvalid.exists_registered (hdaemons hmem)

/-- What a handler does, and what it calls. -/
theorem handle_spec (h : p.handle choice param route = some (p', calls)) :
    Handled p route param p' ∧ ∀ call ∈ calls, Made p' route param call ∧
      (p'.isController = true ∨
        route.sets = false ∧ ∃ kind, call.ipaddr ∈ p'.registered kind) := by
  cases route with
  | setAlgorithm =>
    refine spec_of_forward h Handled.setAlgorithm fun hvalid call hcall ↦ ?_
    exact Made.of_send hcall hvalid (List.Subset.refl _) rfl rfl (by simp)
  | setRunId => exact spec_of_send h ⟨rfl, rfl, rfl⟩ (List.Subset.refl _) rfl (by simp)
  | setWriteTo => exact spec_of_send h ⟨rfl, rfl, rfl⟩ (by grind) rfl (by simp)
  | setFileSize => exact spec_of_send h ⟨rfl, rfl, rfl⟩ (by grind) rfl (by simp)
  | setName =>
    obtain ⟨rfl, rfl⟩ := Prod.mk.inj (Option.some.inj h)
    exact ⟨Handled.setName, fun call hcall ↦ absurd hcall List.not_mem_nil⟩
  | stopAProcess | startAProcess | killAProcess =>
    refine spec_of_forward h (Handled.of_eq rfl rfl rfl rfl rfl (by simp) fun _ _ ↦ rfl)
      fun _ call hcall ↦ ?_
    obtain rfl := List.mem_singleton.mp hcall
    exact ⟨rfl, Or.inl rfl, by simp, Or.inl ⟨rfl, by simp⟩⟩
  | stopProcess | startProcess =>
    obtain ⟨values, -, -, rfl, rfl⟩ := signal_cases h
    exact ⟨Handled.of_eq rfl rfl rfl rfl rfl (by simp) (by simp),
      fun call hcall ↦ absurd hcall List.not_mem_nil⟩
  | killProcess | killSelf => cases h
  | stopReaders | stopWriters | stopServers | startReaders | startWriters | startServers =>
    exact spec_of_clusterCommand h (by grind) rfl rfl
  | setReaders =>
    refine spec_of_forward h (Handled.of_register .reader rfl (fun kind' ↦ ?_) rfl rfl
      (Or.inl rfl)) fun hvalid call hcall ↦ ?_
    · cases kind' <;> rfl
    · exact Made.of_register hcall hvalid (by grind) rfl (by simp [Route.kind])
  | setWriters =>
    refine spec_of_forward h (Handled.of_register .writer rfl (fun kind' ↦ ?_) rfl rfl
      (Or.inl rfl)) fun hvalid call hcall ↦ ?_
    · cases kind' <;> rfl
    · exact Made.of_register hcall hvalid (by grind) rfl (by simp [Route.kind])
  | setServers =>
    refine spec_of_forward h (Handled.of_register .server rfl (fun kind' ↦ ?_) rfl rfl
      (Or.inr ⟨rfl, rfl⟩)) fun hvalid call hcall ↦ ?_
    · obtain ⟨params, loop, chan⟩ := p
      cases kind' <;> cases loop <;> rfl
    · exact Made.of_register hcall hvalid (by grind) rfl (by simp [Route.kind])
  | setSeed =>
    change p.setSeed choice = some (p', calls) at h
    rw [Process.setSeed, Option.ite_none_right_eq_some] at h
    refine spec_of_forward h.2 (Handled.of_eq rfl rfl rfl rfl rfl (by simp) fun _ _ ↦ rfl)
      fun hvalid call hcall ↦ ?_
    obtain ⟨i, hlt, rfl⟩ := List.mem_iff_getElem.mp hcall
    rw [List.length_zipWith] at hlt
    rw [List.getElem_zipWith]
    refine ⟨rfl, Or.inl rfl, fun _ ↦ Or.inr rfl, Or.inr (hvalid.exists_registered ?_)⟩
    exact List.mem_append_left _ (List.getElem_mem _)
  | setReadRateDistribution =>
    change p.setReadRateDistribution choice param = some (p', calls) at h
    rw [Process.setReadRateDistribution] at h
    split at h
    · exact spec_of_send h ⟨rfl, rfl, rfl⟩ (by grind) rfl (by simp)
    · obtain ⟨rfl, rfl⟩ := Prod.mk.inj (Option.some.inj h)
      exact ⟨Handled.of_eq rfl rfl rfl rfl rfl (by simp) fun _ _ ↦ rfl,
        fun call hcall ↦ absurd hcall List.not_mem_nil⟩
  | setWriteRateDistribution =>
    change p.setWriteRateDistribution choice param = some (p', calls) at h
    rw [Process.setWriteRateDistribution] at h
    split at h
    · exact spec_of_send h ⟨rfl, rfl, rfl⟩ (by grind) rfl (by simp)
    · obtain ⟨rfl, rfl⟩ := Prod.mk.inj (Option.some.inj h)
      exact ⟨Handled.of_eq rfl rfl rfl rfl rfl (by simp) fun _ _ ↦ rfl,
        fun call hcall ↦ absurd hcall List.not_mem_nil⟩

/-- What a controller sends when it gets a seed. -/
theorem setSeed_calls (h : p.handle choice param .setSeed = some (p', calls)) :
    ∀ call ∈ calls, call.route = .setName ∧
      (call.ipaddr ∈ p'.params.readers ∨ call.ipaddr ∈ p'.params.writers) := by
  change p.setSeed choice = some (p', calls) at h
  rw [Process.setSeed, Option.ite_none_right_eq_some] at h
  obtain ⟨rfl, ⟨-, ⟨hreaders, hwriters, -⟩, rfl⟩ | ⟨-, rfl⟩⟩ := forward_cases h.2
  · intro call hcall
    obtain ⟨i, hlt, rfl⟩ := List.mem_iff_getElem.mp hcall
    rw [List.length_zipWith] at hlt
    rw [List.getElem_zipWith]
    refine ⟨rfl, ?_⟩
    rw [← hreaders.mem_iff, ← hwriters.mem_iff]
    exact List.mem_append.mp (List.getElem_mem _)
  · exact fun call hcall ↦ absurd hcall List.not_mem_nil

/-- What a controller sends when it registers processes. -/
theorem register_calls {kind : Kind} (hkind : route.kind = some kind)
    (hcontroller : p'.isController = true) (h : p.handle choice param route = some (p', calls)) :
    ∃ order, Enumerates order (p'.registered kind) ∧
      Enumerates choice.listed (p'.registered .server) ∧
        calls = registerCalls kind choice.listed order 0 := by
  have hmade : ∀ {q : Process} {made : List Call}, q.forward choice made = some (p', calls) →
      choice.Valid p' ∧ calls = made := by
    intro q made hq
    obtain ⟨rfl, ⟨-, hvalid, rfl⟩ | ⟨hfalse, -⟩⟩ := forward_cases hq
    · exact ⟨hvalid, rfl⟩
    · rw [hcontroller] at hfalse
      cases hfalse
  cases route <;> cases hkind
  · obtain ⟨⟨hreaders, -, -, hlisted⟩, rfl⟩ := hmade h
    exact ⟨_, hreaders, hlisted, rfl⟩
  · obtain ⟨⟨-, hwriters, -, hlisted⟩, rfl⟩ := hmade h
    exact ⟨_, hwriters, hlisted, rfl⟩
  · obtain ⟨⟨-, -, hservers, hlisted⟩, rfl⟩ := hmade h
    exact ⟨_, hservers, hlisted, rfl⟩

end Handlers

end Colas.Daemons
