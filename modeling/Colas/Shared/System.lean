import Colas.Abd.Wire
import Colas.Sodaw.Wire

/-!
# Both algorithms on the same processes

A server process serves the requests of ABD and of SODAW from one socket, and a client process has
one socket to the servers (`get_socket_servers`), which it keeps when the daemon is told to use the
other algorithm (`SetAlgorithm`). So a client that runs an operation of one algorithm may still
receive what servers have sent for an earlier operation of the other one, and both algorithms use
the tables and the counters of one server process.

The system has the server processes, client processes that start operations of both algorithms in
any order, and the frames on the wire, as in `Sodaw.WireState`. The history says to which algorithm
an event belongs (`State.events`).
-/

set_option autoImplicit false
set_option relaxedAutoImplicit false

namespace Colas.Shared

open TransitionSystem

variable {n : ℕ}

/-! ### The client processes -/

/-- The two algorithms. -/
inductive Algorithm
  | abd
  | sodaw
  deriving DecidableEq

/-- Where a client process is: in an operation of ABD or in one of SODAW. -/
inductive Client
  | abd (client : Abd.Client)
  | sodaw (client : Sodaw.Client)
  deriving DecidableEq

/-- The process is between two operations. -/
def Client.IsIdle (client : Client) : Prop := client = .abd .idle ∨ client = .sodaw .idle

instance : DecidablePred Client.IsIdle :=
  fun client ↦ inferInstanceAs (Decidable (client = .abd .idle ∨ client = .sodaw .idle))

/-- The process has been ended. -/
def Client.IsExited (client : Client) : Prop := client = .abd .exited ∨ client = .sodaw .exited

instance : DecidablePred Client.IsExited :=
  fun client ↦ inferInstanceAs (Decidable (client = .abd .exited ∨ client = .sodaw .exited))

/-- A turn of a client process. -/
inductive ClientTurn (n : ℕ)
  | abd (turn : Turn n Abd.Client Abd.Phase)
  | sodaw (turn : Turn n Sodaw.Client Sodaw.Phase)

/-- Where the process is after the turn. -/
def ClientTurn.client : ClientTurn n → Client
  | .abd turn => .abd turn.client
  | .sodaw turn => .sodaw turn.client

/-- What the process sends to the servers in the turn. -/
def ClientTurn.messages (clientId : CString) :
    ClientTurn n → Option (List (Fin n × Frame × List Frame))
  | .abd turn => turn.multicast.elim (some []) fun call ↦
    Abd.multicastMessages clientId call.1 call.2
  | .sodaw turn => turn.multicast.elim (some []) fun call ↦
    Sodaw.multicastMessages clientId call.1 call.2

/-- What the outside sees of the turn. -/
def ClientTurn.events : ClientTurn n → List (Algorithm × Event)
  | .abd turn => turn.event.toList.map fun e ↦ (.abd, e)
  | .sodaw turn => turn.event.toList.map fun e ↦ (.sodaw, e)

/-- The start of a write. -/
def startWrite (algorithm : Algorithm) (clientId : CString) (opNum : ℕ) (object : CString)
    (payload : Frame) : ClientTurn n :=
  match algorithm with
  | .abd => .abd (Abd.abdWrite clientId opNum object payload)
  | .sodaw => .sodaw (Sodaw.sodawWrite clientId opNum object payload)

/-- The start of a read. -/
def startRead (algorithm : Algorithm) (clientId : CString) (opNum : ℕ) (object : CString) :
    ClientTurn n :=
  match algorithm with
  | .abd => .abd (Abd.abdRead clientId opNum object)
  | .sodaw => .sodaw (Sodaw.sodawRead clientId opNum object)

/-- What the process does with the frames of a message. -/
def Client.receiveFrames (strcmp : Strcmp) (clientId : CString)
    (heap : Abd.Heap) (msg : List Frame) :
    Client → Option (ClientTurn n)
  | .abd client => (client.receiveFrames strcmp clientId heap msg).map .abd
  | .sodaw client => (client.receiveFrames strcmp clientId msg).map .sodaw

/-- The end of a loop that polls with a time limit; no loop of ABD does. -/
def Client.timeout (config : Sodaw.Config n) (clientId : CString) :
    Client → Option (ClientTurn n)
  | .abd _ => none
  | .sodaw client => (client.timeout config clientId).map .sodaw

/-! ### The system -/

/-- The state of the system. -/
structure State (n : ℕ) where
  /-- The server processes. -/
  servers : Fin n → ServerProcess
  /-- Which servers run. -/
  alive : Fin n → Bool
  /-- The client processes, by client id. -/
  clients : CString → Client
  /-- The messages to servers, with the identity of the peer that sends. -/
  toServers : Network (Fin n × Frame × List Frame)
  /-- The messages from servers to clients, with the identity of the client. -/
  toClients : Network (Fin n × Frame × List Frame)
  /-- What the outside has seen, newest first. -/
  history : List (Algorithm × Event)

instance lawfulBEq_message : LawfulBEq (Fin n × Frame × List Frame) := inferInstance

/-- The state before the first operation. -/
def State.initial : State n where
  servers := fun _ ↦ ServerProcess.initial
  alive := fun _ ↦ true
  clients := fun _ ↦ .abd .idle
  toServers := Network.empty
  toClients := Network.empty
  history := []

/-- The events of the operations of an algorithm. -/
def eventsOfAlgorithm (algorithm : Algorithm) (history : List (Algorithm × Event)) : List Event :=
  history.filterMap fun e ↦ if e.1 = algorithm then some e.2 else none

/-- What the outside has seen of an algorithm. -/
def State.events (algorithm : Algorithm) (w : State n) : List Event :=
  eventsOfAlgorithm algorithm w.history

/-- The state after a turn of a client. -/
def State.takeTurn (w : State n) (clientId : CString) (turn : ClientTurn n) :
    Option (State n) := do
  let messages ← turn.messages clientId
  some { w with
    clients := Function.update w.clients clientId turn.client
    toServers := w.toServers.send messages
    history := turn.events ++ w.history }

/-- The state after a server has handled a message. -/
def State.handle (config : Sodaw.Config n) (w : State n) (m : Fin n × Frame × List Frame)
    (process : ServerProcess) (sent : Sent) : Option (State n) := do
  let replies ← sent.worker.mapM routerSend
  some { w with
    servers := Function.update w.servers m.1 process
    toServers := (w.toServers.deliver m).send (sent.servers.flatMap fun msg ↦
      (List.finRange n).map fun j ↦ (j, (Value.text (config.serverId m.1)).frame, msg))
    toClients := w.toClients.send (replies.map fun reply ↦ (m.1, reply)) }

/-- The actions of the system. -/
inductive Action (n : ℕ)
  | invokeWrite (algorithm : Algorithm) (clientId : CString) (opNum : ℕ) (object : CString)
    (payload : Frame)
  | invokeRead (algorithm : Algorithm) (clientId : CString) (opNum : ℕ) (object : CString)
  | serve (m : Fin n × Frame × List Frame)
  | receive (m : Fin n × Frame × List Frame) (heap : Abd.Heap)
  | timeout (clientId : CString)
  | stop (i : Fin n)

/-- One step of the system. -/
def step (config : Sodaw.Config n) (w : State n) : Action n → Option (State n)
  | .invokeWrite algorithm clientId opNum object payload =>
    if (w.clients clientId).IsIdle then
      w.takeTurn clientId (startWrite algorithm clientId opNum object payload)
    else none
  | .invokeRead algorithm clientId opNum object =>
    if (w.clients clientId).IsIdle then
      w.takeTurn clientId (startRead algorithm clientId opNum object)
    else none
  | .serve m =>
    if m ∈ w.toServers.sent ∧ w.alive m.1 then do
      let (process, sent) ← (w.servers m.1).serverWorkerFrames config.strcmp
        (config.serverArgs m.1) (routerReceive m.2.1 m.2.2)
      w.handle config m process sent
    else none
  | .receive m heap =>
    if m ∈ w.toClients.sent then do
      let turn ← (w.clients m.2.1).receiveFrames config.strcmp m.2.1 heap m.2.2
      ({ w with toClients := w.toClients.deliver m } : State n).takeTurn m.2.1 turn
    else none
  | .timeout clientId => do
    let turn ← (w.clients clientId).timeout config clientId
    w.takeTurn clientId turn
  | .stop i => some { w with alive := Function.update w.alive i false }

/-- If a writer chooses its tag when it receives the message, the tag fits. -/
def Client.ReceivedTagFits (strcmp : Strcmp) (clientId : CString)
    (heap : Abd.Heap) (n : ℕ) (msg : List Frame) : Client → Prop
  | .abd client =>
    ∀ turn ∈ client.receiveFrames (n := n) strcmp clientId heap msg, Abd.NewTagFits turn
  | .sodaw _ => True

instance (strcmp : Strcmp) (clientId : CString) (heap : Abd.Heap)
    (msg : List Frame) (client : Client) :
    Decidable (client.ReceivedTagFits strcmp clientId heap n msg) :=
  match client with
  | .abd client => inferInstanceAs (Decidable
      (∀ turn ∈ client.receiveFrames (n := n) strcmp clientId heap msg, Abd.NewTagFits turn))
  | .sodaw _ => inferInstanceAs (Decidable True)

/-- If a writer chooses its tag at the end of the loop, the tag fits. -/
def Client.NewTagFits (strcmp : Strcmp) (clientId : CString) : Client → Prop
  | .abd _ => True
  | .sodaw client => client.NewTagFits strcmp clientId

instance (strcmp : Strcmp) (clientId : CString) (client : Client) :
    Decidable (client.NewTagFits strcmp clientId) :=
  match client with
  | .abd _ => inferInstanceAs (Decidable True)
  | .sodaw client => inferInstanceAs (Decidable (client.NewTagFits strcmp clientId))

/-- A client does not use the number of an operation for another one of the same algorithm, a
message that is not a notice is not delivered twice, the names and the numbers of operations fit,
and so do the tags that writers make. -/
def Guard (config : Sodaw.Config n) (w : State n) : Action n → Prop
  | .invokeWrite algorithm clientId opNum object _ =>
    ¬ Invoked (w.events algorithm) clientId opNum ∧ CallFits clientId opNum object
  | .invokeRead algorithm clientId opNum object =>
    ¬ Invoked (w.events algorithm) clientId opNum ∧ CallFits clientId opNum object
  | .serve m => Sodaw.IsNotice m.2.2 ∨ m ∉ w.toServers.delivered
  | .receive m heap => m ∉ w.toClients.delivered ∧
    (w.clients m.2.1).ReceivedTagFits config.strcmp m.2.1 heap n m.2.2
  | .timeout clientId => (w.clients clientId).NewTagFits config.strcmp clientId
  | .stop _ => True

instance (config : Sodaw.Config n) (w : State n) (a : Action n) :
    Decidable (Guard config w a) := by
  cases a <;> unfold Guard <;> infer_instance

/-- The states that the system reaches. -/
abbrev SharedRun (config : Sodaw.Config n) : State n → Prop :=
  Run (step config) (Guard config) State.initial

end Colas.Shared
