import Colas.Daemons.Directory

/-!
# A controller and its processes

The processes of a cluster run the HTTP server, and all but the controller an event loop. An
operator sends one request after the other, mostly to the controller; a handler makes its calls one
after the other and waits for each, and the handler that it calls can make calls of its own.
`handlers` are the handlers that wait, the innermost first. Between their steps the event loops go
on, and processes other than the controller can end. The handlers stay in one sequence then: the
runs in which the caller of a process that has ended and the handlers that the process has called
make their calls side by side are not among those of a cluster.

The operator's requests are like those of `system_management`: the parameters are set through the
controller, and only `StartProcess`, `StopProcess` and `KillSelf` go to other processes
(`Administered`). Then a cluster refines a `Directory`, in which a request to the controller is one
step (`refines`): a process has in the directory what it will have when the calls that are still to
be made have been made.
-/

set_option autoImplicit false
set_option relaxedAutoImplicit false

namespace Colas.Daemons

open TransitionSystem

/-! ### The cluster -/

/-- A handler that has not returned. -/
structure Handler (ι : Type) where
  /-- The process whose handler it is. -/
  process : ι
  /-- The calls that are still to be made. -/
  calls : List Call

/-- The processes and the handlers. -/
structure Cluster (ι : Type) where
  /-- The processes that run. -/
  processes : ι → Option Process
  /-- The handlers that have not returned, the innermost one first. -/
  handlers : List (Handler ι)

/-- A step of a cluster. -/
inductive Cluster.Action (ι : Type)
  /-- The operator sends a request. -/
  | request (process : ι) (route : Route) (param : CString) (choice : Choice)
  /-- The innermost handler makes its next call. -/
  | call (choice : Choice)
  /-- The innermost handler returns. -/
  | done
  /-- An event loop takes a signal from its channel. -/
  | signal (process : ι) (order : List CString)
  /-- An event loop takes another turn. -/
  | turn (process : ι) (turn : Turn)
  /-- A process ends. -/
  | crash (process : ι)

/-- The bytes that a URL has as they are. -/
def isUnreserved (b : Byte) : Bool :=
  isLetter b || isDigit b || b = dot || b = underscore || b = 45 || b = 126

namespace Cluster

section Step

variable {ι : Type} [DecidableEq ι]

/-- A process ends, and with it its handlers. Handlers that it has called stay, and its own caller,
which in the source goes on beside them as soon as the connection is gone, goes on after them. -/
def crash (s : Cluster ι) (i : ι) : Cluster ι where
  processes := Function.update s.processes i none
  handlers := s.handlers.filter (·.process ≠ i)

/-- A request reaches a process. Nothing happens if the process has ended or if there is no such
route. -/
def serve (s : Cluster ι) (i : ι) (route : Route) (param : CString) (choice : Choice) :
    Option (Cluster ι) :=
  match s.processes i with
  | none => some s
  | some p =>
    if ¬ route.Accepts param then some s
    else if route = .killProcess ∨ route = .killSelf then some (s.crash i)
    else do
      let (p', calls) ← p.handle choice param route
      some ⟨Function.update s.processes i (some p'), ⟨i, calls⟩ :: s.handlers⟩

/-- One step, where `resolve` says which process has an address. -/
def step (resolve : CString → Option ι) (s : Cluster ι) : Action ι → Option (Cluster ι)
  | .request i route param choice =>
    if s.handlers = [] ∧ param.all isUnreserved = true then s.serve i route param choice
    else none
  | .call choice =>
    match s.handlers with
    | ⟨i, call :: calls⟩ :: outer =>
      let s := { s with handlers := ⟨i, calls⟩ :: outer }
      match resolve call.ipaddr with
      | none => some s
      | some j => s.serve j call.route call.param choice
    | _ => none
  | .done =>
    match s.handlers with
    | ⟨_, []⟩ :: outer => some { s with handlers := outer }
    | _ => none
  | .signal i order => do
    let p ← s.processes i
    let p' ← p.takeSignal order
    some { s with processes := Function.update s.processes i (some p') }
  | .turn i turn => do
    let p ← s.processes i
    let p' ← p.takeTurn turn
    some { s with processes := Function.update s.processes i (some p') }
  | .crash i => some (s.crash i)

/-- All calls that are still to be made, in their order. -/
def pending (s : Cluster ι) : List Call := s.handlers.flatMap (·.calls)

/-- What the operator sends: parameters are set through the controller, for processes that are not
the controller, and the controller is not killed. -/
def Administered (resolve : CString → Option ι) (controller : ι) : Action ι → Prop
  | .request i route param _ =>
    if i = controller then
      route ≠ .killProcess ∧ route ≠ .killSelf ∧
        (route.kind ≠ none → ∀ name ∈ names param,
          name.any isDigit = true ∧ resolve name ≠ some controller) ∧
        (route = .stopAProcess ∨ route = .startAProcess ∨ route = .killAProcess →
          resolve param ≠ some controller)
    else route = .startProcess ∨ route = .stopProcess ∨ route = .killSelf
  | .crash i => i ≠ controller
  | _ => True

instance (resolve : CString → Option ι) (controller : ι) :
    DecidablePred (Administered resolve controller)
  | .request i route param _ => by unfold Administered; infer_instance
  | .crash i => inferInstanceAs (Decidable (i ≠ controller))
  | .call _ | .done | .signal _ _ | .turn _ _ => isTrue trivial

end Step

end Cluster

/-! ### The start -/

/-- `InitializeParameters`. -/
def Params.initial (name : CString) : Params where
  readers := ∅
  writers := ∅
  name := name
  runId := ascii ['D', 'E', 'F', 'U', 'L', 'T', '_', 'R', 'U', 'N']
  writeto := ascii ['r', 'a', 'm']
  fileSize := ascii ['1', '0', '2', '4']
  interReadWaitDistribution := [ascii ['c', 'o', 'n', 's', 't'], ascii ['1', '0', '0']]
  interWriteWaitDistribution := [ascii ['c', 'o', 'n', 's', 't'], ascii ['1', '0', '0']]

namespace Process

/-- `Reader_process`, without servers at the start. -/
def reader (serverId algorithm : CString) : Process :=
  ⟨.initial (processName .reader 0), .client (.start .reader serverId [] algorithm), some []⟩

/-- `Writer_process`, without servers at the start. -/
def writer (serverId algorithm : CString) : Process :=
  ⟨.initial (processName .writer 0), .client (.start .writer serverId [] algorithm), some []⟩

/-- `Server_process`. -/
def server (algorithm : CString) : Process :=
  ⟨.initial (processName .server 0), .server ⟨∅, algorithm, false, none, 0⟩, some []⟩

/-- `Controller_process`. -/
def controller (algorithm : CString) : Process :=
  ⟨.initial (ascii ['d', 'e', 'f', 'a', 'u', 'l', 't']), .controller ∅ algorithm, none⟩

/-- The process has just been started, as a reader, a writer or a server. -/
def JustStarted (p : Process) : Prop :=
  ∃ serverId algorithm, p = reader serverId algorithm ∨ p = writer serverId algorithm ∨
    p = server algorithm

end Process

/-- All processes have just been started, and one of them is a controller. -/
structure Cluster.JustStarted {ι : Type} (controller : ι) (s : Cluster ι) : Prop where
  controller_eq : ∃ algorithm, s.processes controller = some (.controller algorithm)
  others : ∀ i p, i ≠ controller → s.processes i = some p → p.JustStarted
  handlers : s.handlers = []

/-! ### What the pending calls come to -/

/-- What a controller sets at a process. -/
@[ext] structure Entry where
  /-- The registered servers. -/
  servers : Finset CString
  /-- The name. -/
  name : CString

/-- The entry of a process. -/
def Process.entry (p : Process) : Entry := ⟨p.loop.servers, p.params.name⟩

/-- What a call does to the entry of the process that gets it. -/
def Entry.obey (e : Entry) (call : Call) : Entry :=
  if call.route.Accepts call.param then
    match call.route with
    | .setServers => { e with servers := e.servers ∪ names call.param }
    | .setName => { e with name := call.param }
    | _ => e
  else e

/-- What the calls do to the entry of a process. -/
def settle {ι : Type} [DecidableEq ι] (resolve : CString → Option ι) (i : ι) :
    List Call → Entry → Entry
  | [], e => e
  | call :: calls, e =>
    settle resolve i calls (if resolve call.ipaddr = some i then e.obey call else e)

section Settle

variable {ι : Type} [DecidableEq ι] {resolve : CString → Option ι} {i : ι}
  {calls later : List Call} {call : Call} {e : Entry} {p p' : Process} {route : Route}
  {param : CString}

theorem obey_eq_self (h : call.route ≠ .setServers ∧ call.route ≠ .setName) : e.obey call = e := by
  rw [Entry.obey]
  split_ifs
  · split
    · rename_i heq
      exact absurd heq h.1
    · rename_i heq
      exact absurd heq h.2
    · rfl
  · rfl

theorem ne_of_sets {route : Route} (h : route.sets = false) :
    route ≠ .setServers ∧ route ≠ .setName := by
  constructor <;> rintro rfl <;> cases h

theorem settle_append : settle resolve i (calls ++ later) e =
    settle resolve i later (settle resolve i calls e) := by
  induction calls generalizing e with
  | nil => rfl
  | cons call calls ih => exact ih

/-- Calls that set nothing settle nothing. -/
theorem settle_eq_self
    (h : ∀ call ∈ calls, resolve call.ipaddr = some i →
      call.route ≠ .setServers ∧ call.route ≠ .setName) : settle resolve i calls e = e := by
  induction calls with
  | nil => rfl
  | cons call calls ih =>
    have hcall : (if resolve call.ipaddr = some i then e.obey call else e) = e := by
      split_ifs with hi
      · exact obey_eq_self (h call List.mem_cons_self hi)
      · rfl
    rw [settle, hcall]
    exact ih fun other hother ↦ h other (List.mem_cons_of_mem _ hother)

/-- A process forgets no server. -/
theorem servers_subset_settle : e.servers ⊆ (settle resolve i calls e).servers := by
  induction calls generalizing e with
  | nil => exact Finset.Subset.refl _
  | cons call calls ih =>
    rw [settle]
    refine Finset.Subset.trans ?_ ih
    split_ifs
    · rw [Entry.obey]
      split_ifs
      · split
        · exact Finset.subset_union_left
        · exact Finset.Subset.refl _
        · exact Finset.Subset.refl _
      · exact Finset.Subset.refl _
    · exact Finset.Subset.refl _

/-- Calls that only give names leave the servers. -/
theorem settle_servers (h : ∀ call ∈ calls, call.route ≠ .setServers) :
    (settle resolve i calls e).servers = e.servers := by
  induction calls generalizing e with
  | nil => rfl
  | cons call calls ih =>
    rw [settle, ih fun other hother ↦ h other (List.mem_cons_of_mem _ hother)]
    split_ifs
    · rw [Entry.obey]
      split_ifs
      · split
        · rename_i heq
          exact absurd heq (h call List.mem_cons_self)
        · rfl
        · rfl
      · rfl
    · rfl

/-- A handler does to the entry what the call says. -/
theorem Handled.entry_eq (h : Handled p route param p') (haccepts : route.Accepts param)
    (ipaddr : CString) : p'.entry = p.entry.obey ⟨ipaddr, route, param⟩ := by
  have hservers := h.registered_eq .server
  have hname := h.name_eq
  rw [Entry.obey, if_pos haccepts]
  simp only [Process.entry]
  simp only [Process.registered] at hservers
  rw [hservers, hname]
  cases route <;> rfl

/-- The calls for processes of one kind say nothing to another process. -/
theorem settle_registerCalls_none {kind : Kind} {listed clients : List CString} {j : ℕ}
    (hnone : ∀ a ∈ clients, resolve a ≠ some i) :
    settle resolve i (registerCalls kind listed clients j) e = e :=
  settle_eq_self fun _ hcall hi ↦ absurd hi (hnone _ (mem_registerCalls hcall).1)

/-- The calls for processes of one kind tell each of them the servers and its name. -/
theorem settle_registerCalls {kind : Kind} {listed clients : List CString} {a : CString} {j k : ℕ}
    (hresolve : Unambiguous resolve) (hnodup : clients.Nodup)
    (haddress : ∀ name ∈ listed, IsAddress name) (ha : clients[k]? = some a)
    (hi : resolve a = some i) : settle resolve i (registerCalls kind listed clients j) e =
      ⟨e.servers ∪ listed.toFinset, processName kind (j + k)⟩ := by
  induction clients generalizing j k with
  | nil => simp at ha
  | cons first rest ih =>
    obtain ⟨hfirst, hnodup⟩ := List.nodup_cons.mp hnodup
    cases k with
    | zero =>
      rw [List.getElem?_cons_zero, Option.some.injEq] at ha
      subst ha
      have hservers : e.obey ⟨first, .setServers, createServerListString listed⟩ =
          { e with servers := e.servers ∪ listed.toFinset } := by
        by_cases hempty : listed = []
        · subst hempty
          rw [Entry.obey, if_neg not_accepts_nil, List.toFinset_nil, Finset.union_empty]
        · rw [Entry.obey, if_pos (accepts_createServerListString hempty haddress)]
          simp only [names, splitOn_createServerListString hempty haddress]
      rw [registerCalls, settle, if_pos hi, settle, if_pos hi, hservers,
        settle_registerCalls_none, Entry.obey, if_pos (accepts_processName kind j), add_zero]
      rintro b hb hbi
      exact hfirst (hresolve _ _ _ hbi hi ▸ hb)
    | succ k =>
      rw [List.getElem?_cons_succ] at ha
      have hne : resolve first ≠ some i := fun hfirsti ↦
        hfirst (hresolve _ _ _ hfirsti hi ▸ List.mem_of_getElem? ha)
      rw [registerCalls, settle, if_neg hne, settle, if_neg hne, ih hnodup ha, add_assoc,
        add_comm 1 k]

end Settle

end Colas.Daemons
