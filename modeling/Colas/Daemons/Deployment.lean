import Colas.Sodaw.Client
import Colas.Daemons.Agreement

/-!
# A cluster that has been set up is a configuration of the protocols

The models of the protocols take a number of servers and an id for each of them as given. Here it is
shown where they come from. An operator sets a cluster up if it registers the servers first, if it
registers nothing any more once a process has got a signal, and if it starts each client once
(`SetUp`). Then everything that the processes have made of their lists is about the same servers
(`deployed`): the requests of a client go to each server that is registered, and majorities are
counted over them; a server that has been started sends its notices to each of them, has their
number for its `K`, and has an id that no other server has. These are the `serverArgs` of a `Config`
for that many servers.
-/

set_option autoImplicit false
set_option relaxedAutoImplicit false

namespace Colas.Daemons

open TransitionSystem

/-! ### The set-up -/

/-- The process has got no signal. -/
def Process.Unsignalled (p : Process) : Prop :=
  (p.activeChan = none ∨ p.activeChan = some []) ∧
    match p.loop with
    | .client d => d.parameters.ipList = []
    | .server d => d.serverArgs.isNone = true
    | .controller _ _ => True

/-- A signal is the first one for which servers are registered. -/
def Process.StartsOnce (p : Process) : Prop :=
  match p.loop with
  | .client d => d.servers ≠ ∅ → d.parameters.ipList = []
  | _ => True

instance (p : Process) : Decidable p.Unsignalled := by
  unfold Process.Unsignalled
  cases p.loop <;> infer_instance

instance (p : Process) : Decidable p.StartsOnce := by
  unfold Process.StartsOnce
  cases p.loop <;> infer_instance

namespace Cluster

variable {ι : Type} [DecidableEq ι]

/-- No process has got a signal. -/
def Quiet (s : Cluster ι) : Prop := ∀ i, ∀ p ∈ s.processes i, p.Unsignalled

/-- Everything is registered before the first signal, the servers first, and each client is started
once. -/
def SetUp (controller : ι) (s : Cluster ι) : Action ι → Prop
  | .request _ route param _ => (route.kind ≠ none ∨ route = .setSeed → s.Quiet) ∧
    (route = .setServers → ∀ c ∈ s.processes controller, names param ⊆ c.loop.servers ∨
      c.params.readers = ∅ ∧ c.params.writers = ∅)
  | .signal i _ => ∀ p ∈ s.processes i, p.StartsOnce
  | _ => True

instance [Fintype ι] (s : Cluster ι) : Decidable s.Quiet := by
  unfold Quiet
  infer_instance

instance [Fintype ι] (controller : ι) (s : Cluster ι) : DecidablePred (SetUp controller s)
  | .request _ route param _ => inferInstanceAs (Decidable
      ((route.kind ≠ none ∨ route = .setSeed → s.Quiet) ∧ (route = .setServers →
        ∀ c ∈ s.processes controller, names param ⊆ c.loop.servers ∨
          c.params.readers = ∅ ∧ c.params.writers = ∅)))
  | .signal i _ => inferInstanceAs (Decidable (∀ p ∈ s.processes i, p.StartsOnce))
  | .call _ | .done | .turn _ _ | .crash _ => isTrue trivial

end Cluster

/-! ### What a process makes of its list -/

/-- C takes the whole of a text without terminators. -/
theorem cString_eq_self {s : CString} (h : 0 ∉ s) : cString s = s :=
  List.takeWhile_eq_self_iff.mpr fun _ hb ↦ decide_eq_true fun heq ↦ h (heq ▸ hb)

theorem IsAddress.cString_eq {name : CString} (h : IsAddress name) : cString name = name :=
  cString_eq_self fun hmem ↦ absurd (h.2 0 hmem) (by decide)

theorem IsAddress.isHost {name : CString} (h : IsAddress name) : IsHost name := by
  rw [IsHost, h.cString_eq]
  refine ⟨?_, fun hblank ↦ absurd (h.2 blank hblank) (by decide)⟩
  rintro rfl
  exact absurd h.1 (by decide)

/-- What a process has made of its list of servers is right. -/
structure Process.Sound (p : Process) : Prop where
  client : ∀ d, p.loop = .client d → Known d
  server : ∀ d args, p.loop = .server d → d.serverArgs = some args →
    args.serverId = cString p.params.name ∧
      ∃ order, Enumerates order d.servers ∧ args.serversStr = cString (joinNames order)

section Process

variable {p p' : Process} {route : Route} {param : CString} {order : List CString}
  {turned : Turn}

theorem Process.Sound.of_client {d : Daemon} (hloop : p.loop = .client d) (hd : Known d) :
    p.Sound := by
  refine ⟨fun d' hd' ↦ ?_, fun d' args hd' ↦ ?_⟩
  · obtain rfl := Loop.client.inj (hloop.symm.trans hd')
    exact hd
  · rw [hloop] at hd'
    cases hd'

theorem Process.Sound.of_server {d : ServerDaemon} (hloop : p.loop = .server d)
    (hd : ∀ args, d.serverArgs = some args → args.serverId = cString p.params.name ∧
      ∃ order, Enumerates order d.servers ∧ args.serversStr = cString (joinNames order)) :
    p.Sound := by
  refine ⟨fun d' hd' ↦ ?_, fun d' args hd' ↦ ?_⟩
  · rw [hloop] at hd'
    cases hd'
  · obtain rfl := Loop.server.inj (hloop.symm.trans hd')
    exact hd args

theorem Process.JustStarted.sound (h : p.JustStarted) : p.Sound := by
  obtain ⟨serverId, algorithm, rfl | rfl | rfl⟩ := h
  · exact Process.Sound.of_client rfl (known_start _ _ _ _)
  · exact Process.Sound.of_client rfl (known_start _ _ _ _)
  · exact Process.Sound.of_server rfl fun args hargs ↦ absurd hargs (by simp)

theorem Process.Sound.of_isController (h : p.isController = true) : p.Sound := by
  refine ⟨fun d hd ↦ ?_, fun d args hd ↦ ?_⟩ <;>
    · rw [Process.isController, hd] at h
      cases h

/-- A handler that neither starts nor stops leaves a process without a signal. -/
theorem Handled.unsignalled (h : Handled p route param p') (hstart : route ≠ .startProcess)
    (hstop : route ≠ .stopProcess) (hp : p.Unsignalled) : p'.Unsignalled := by
  obtain ⟨hchan, hloop⟩ := hp
  refine ⟨by rwa [h.activeChan_eq hstart hstop], ?_⟩
  cases hl : p.loop with
  | client d =>
    rw [hl] at hloop
    obtain ⟨d', hd', rfl | ⟨-, hstep⟩ | ⟨-, hstep⟩⟩ := h.client_eq d hl
    · rwa [hd']
    · obtain rfl := Option.some.inj hstep
      rwa [hd']
    · obtain rfl := Option.some.inj hstep
      rwa [hd']
  | server d =>
    rw [hl] at hloop
    obtain ⟨d', hd', hargs⟩ := h.server_eq d hl
    rw [hd']
    change d'.serverArgs.isNone = true
    rwa [hargs]
  | controller servers algorithm =>
    have hcontroller := h.isController_eq
    rw [Process.isController, Process.isController, hl] at hcontroller
    split at hcontroller
    · rename_i hl'
      rw [hl']
      trivial
    · cases hcontroller

/-- A handler keeps what has been made of the list, if nothing is set after a signal. -/
theorem Handled.sound (h : Handled p route param p') (hp : p.Sound)
    (hquiet : route = .setServers ∨ route = .setName → p.Unsignalled) : p'.Sound := by
  cases hl : p.loop with
  | client d =>
    obtain ⟨d', hd', hcases⟩ := h.client_eq d hl
    refine Process.Sound.of_client hd' ?_
    rcases hcases with rfl | ⟨hroute, hstep⟩ | ⟨-, hstep⟩
    · exact hp.client _ hl
    · have hempty := (hquiet (Or.inl hroute)).2
      rw [hl] at hempty
      have honce : d.StartsOnce (.setServers param) := fun hne ↦ absurd hempty hne
      exact (hp.client d hl).step honce hstep
    · have honce : d.StartsOnce (.setAlgorithm param) := trivial
      exact (hp.client d hl).step honce hstep
  | server d =>
    obtain ⟨d', hd', hargs⟩ := h.server_eq d hl
    refine Process.Sound.of_server hd' fun args hsome ↦ ?_
    rw [hargs] at hsome
    have hroute : route ≠ .setServers ∧ route ≠ .setName := by
      refine not_or.mp fun heq ↦ ?_
      have hnone := (hquiet heq).2
      rw [hl] at hnone
      change d.serverArgs.isNone = true at hnone
      rw [hsome] at hnone
      cases hnone
    obtain ⟨hid, order, horder, hstr⟩ := hp.server d args hl hsome
    have hkind : route.kind ≠ some .server := by
      obtain ⟨hservers, -⟩ := hroute
      cases route <;> first | exact absurd rfl hservers | simp [Route.kind]
    have hservers := h.registered_eq .server
    rw [if_neg hkind, Process.registered, Process.registered, hd', hl] at hservers
    have hname := h.name_eq
    rw [if_neg hroute.2] at hname
    exact ⟨by rw [hname, hid], order, ⟨horder.1, horder.2.trans hservers.symm⟩, hstr⟩
  | controller servers algorithm =>
    refine Process.Sound.of_isController ?_
    rw [h.isController_eq, Process.isController, hl]

/-- A signal makes of the list what it should. -/
theorem Process.Sound.signal (hp : p.Sound) (hhost : ∀ name ∈ p.loop.servers, IsHost name)
    (honce : p.StartsOnce) (h : p.takeSignal order = some p') : p'.Sound := by
  obtain ⟨active, values, -, ⟨d, d', hloop, hd, rfl⟩ | ⟨d, d', hloop, hd, rfl⟩⟩ :=
    takeSignal_cases h
  · rw [hloop] at hhost
    rw [Process.StartsOnce, hloop] at honce
    have honce' : d.StartsOnce (.signal active order) := fun hne ↦ ⟨honce hne, hhost⟩
    exact Process.Sound.of_client rfl ((hp.client d hloop).step honce' hd)
  · obtain ⟨horder, hservers, hargs⟩ := ServerDaemon.onSignal_cases hd
    refine Process.Sound.of_server rfl fun args hsome ↦ ?_
    obtain rfl := Option.some.inj (hargs.symm.trans hsome)
    exact ⟨rfl, order, hservers.symm ▸ horder, rfl⟩

theorem Process.Sound.turn (hp : p.Sound) (h : p.takeTurn turned = some p') : p'.Sound := by
  obtain ⟨d, d', hloop, hd, rfl⟩ := takeTurn_cases h
  have honce : d.StartsOnce turned.event := by cases turned <;> trivial
  exact Process.Sound.of_client rfl ((hp.client d hloop).step honce hd)

theorem Process.Unsignalled.turn (hp : p.Unsignalled) (h : p.takeTurn turned = some p') :
    p'.Unsignalled := by
  obtain ⟨d, d', hloop, hd, rfl⟩ := takeTurn_cases h
  obtain ⟨hchan, hempty⟩ := hp
  rw [hloop] at hempty
  refine ⟨hchan, ?_⟩
  change d'.parameters.ipList = []
  rwa [(turn_frame hd).2]

end Process

/-! ### What C makes of the arguments of a server -/

/-- `create_metadata_sending_sockets`: `num_servers`, and the servers to which the socket for the
notices is connected. -/
def createMetadataSendingSockets (args : ServerArgs) : Option (ℕ × List CString) :=
  let numServers := countNumServers args.serversStr
  let servers := createServerNames args.serversStr
  if numServers ≤ servers.length then some (numServers, servers.take numServers) else none

/-- `initialize_SODAW`, which stores the `K`. -/
def ServerArgs.initializeSODAW (args : ServerArgs) (initData : Frame) :
    Option Sodaw.ServerArgs := do
  let (numServers, _) ← createMetadataSendingSockets args
  some ⟨args.serverId, initData, Colas.initializeSODAW numServers⟩

/-- The string of a set of addresses gives the addresses. -/
theorem createMetadataSendingSockets_eq {args : ServerArgs} {order : List CString}
    (hstr : args.serversStr = cString (joinNames order)) (hne : order ≠ [])
    (haddress : ∀ name ∈ order, IsAddress name) :
    createMetadataSendingSockets args = some (order.length, order) := by
  have hhost : ∀ name ∈ order, name ≠ [] ∧ blank ∉ name := by
    intro name hname
    have hname' := (haddress name hname).isHost
    rwa [IsHost, (haddress name hname).cString_eq] at hname'
  have hempty : ∀ name ∈ order, name ≠ [] := fun name hname ↦ (hhost name hname).1
  have hblank : ∀ name ∈ order, blank ∉ name := fun name hname ↦ (hhost name hname).2
  have hjoined : cString (joinNames order) = joinNames order := by
    refine cString_eq_self fun hzero ↦ ?_
    rw [joinNames_eq_intercalate] at hzero
    obtain heq | ⟨name, hname, hmem⟩ := mem_intercalate hzero
    · exact absurd heq (by decide)
    · exact absurd ((haddress name hname).2 0 hmem) (by decide)
  rw [createMetadataSendingSockets, hstr, hjoined, countNumServers_joinNames hne hempty hblank,
    createServerNames_joinNames hempty hblank]
  simp

/-! ### The two phases -/

section Clusters

variable {ι : Type} [DecidableEq ι] {resolve : CString → Option ι} {controller : ι}
  {s s' : Cluster ι} {d : Directory ι CString CString} {i j : ι} {p p' : Process} {route : Route}
  {param : CString} {choice : Choice} {calls : List Call} {outer : List (Handler ι)} {call : Call}

/-- Before the first signal only parameters are set, and afterwards no server is registered and no
name is given. -/
structure Deploying (s : Cluster ι) : Prop where
  phase : s.Quiet ∧ (∀ call ∈ s.pending, call.route.sets = true) ∨
    ∀ call ∈ s.pending, call.route ≠ .setServers ∧ call.route ≠ .setName
  sound : ∀ i p, s.processes i = some p → p.Sound

theorem forall_update {P : Process → Prop} {processes : ι → Option Process}
    (h : ∀ i p, processes i = some p → P p) (hp : P p) :
    ∀ i q, Function.update processes j (some p) i = some q → P q := by
  intro i q hq
  by_cases hi : i = j
  · subst hi
    rw [Function.update_self] at hq
    exact Option.some.inj hq ▸ hp
  · exact h i q (by simpa [Function.update_of_ne hi] using hq)

theorem Deploying.start (h : s.JustStarted controller) : Deploying s := by
  refine ⟨Or.inr fun call hcall ↦ ?_, fun i p hp ↦ ?_⟩
  · rw [Cluster.pending, h.handlers] at hcall
    exact absurd hcall List.not_mem_nil
  · by_cases hi : i = controller
    · subst hi
      obtain ⟨algorithm, hc⟩ := h.controller_eq
      obtain rfl := Option.some.inj (hc.symm.trans hp)
      exact Process.Sound.of_isController rfl
    · have hstarted := h.others i p hi hp
      exact hstarted.sound

omit [DecidableEq ι] in
/-- Processes end, and calls are no longer to be made. -/
theorem Deploying.fewer (h : Deploying s)
    (hprocesses : ∀ i p, s'.processes i = some p → s.processes i = some p)
    (hpending : ∀ call ∈ s'.pending, call ∈ s.pending) : Deploying s' := by
  refine ⟨?_, fun i p hp ↦ h.sound i p (hprocesses i p hp)⟩
  rcases h.phase with ⟨hquiet, hsets⟩ | htells
  · exact Or.inl ⟨fun i p hp ↦ hquiet i p (hprocesses i p hp),
      fun call hcall ↦ hsets call (hpending call hcall)⟩
  · exact Or.inr fun call hcall ↦ htells call (hpending call hcall)

theorem Deploying.crash (h : Deploying s) (j : ι) : Deploying (s.crash j) := by
  refine h.fewer (fun i p hp ↦ ?_) fun call hcall ↦ ?_
  · by_cases hi : i = j
    · subst hi
      simp [Cluster.crash] at hp
    · simpa [Cluster.crash, Function.update_of_ne hi] using hp
  · obtain ⟨handler, hhandler, hmem⟩ := List.mem_flatMap.mp hcall
    exact List.mem_flatMap.mpr ⟨handler, List.mem_of_mem_filter hhandler, hmem⟩

omit [DecidableEq ι] in
theorem mem_pending_of_pop (hhandlers : s.handlers = ⟨i, call :: calls⟩ :: outer) :
    ∀ other ∈ Cluster.pending { s with handlers := ⟨i, calls⟩ :: outer }, other ∈ s.pending := by
  intro other hother
  rw [Cluster.pending, hhandlers]
  exact List.mem_cons_of_mem _ hother

omit [DecidableEq ι] in
theorem Deploying.pop (h : Deploying s) (hhandlers : s.handlers = ⟨i, call :: calls⟩ :: outer) :
    Deploying { s with handlers := ⟨i, calls⟩ :: outer } :=
  h.fewer (fun _ _ hp ↦ hp) (mem_pending_of_pop hhandlers)

/-- A request is handled: before the first signal it is one that sets something, and afterwards it
registers no servers and gives no name. -/
theorem Deploying.serve (h : Deploying s)
    (hphase : s.Quiet ∧ (∀ call ∈ s.pending, call.route.sets = true) ∧ route.sets = true ∨
      (∀ call ∈ s.pending, call.route ≠ .setServers ∧ call.route ≠ .setName) ∧
        ∀ p p' calls, s.processes j = some p → p.handle choice param route = some (p', calls) →
          (route ≠ .setServers ∧ route ≠ .setName ∨ p.isController = true) ∧
            ∀ call ∈ calls, call.route ≠ .setServers ∧ call.route ≠ .setName)
    (hserve : s.serve j route param choice = some s') : Deploying s' := by
  obtain ⟨rfl, -⟩ | ⟨p, hp, -, ⟨-, rfl⟩ | ⟨p', calls, hhandle, rfl⟩⟩ := serve_cases hserve
  · exact h
  · exact h.crash j
  obtain ⟨hhandled, hmade⟩ := handle_spec hhandle
  rcases hphase with ⟨hquiet, hpending, hsets⟩ | ⟨hpending, htells⟩
  · have hunsignalled : p.Unsignalled := hquiet j p hp
    have hsignals : route ≠ .startProcess ∧ route ≠ .stopProcess := by
      constructor <;> rintro rfl <;> cases hsets
    refine ⟨Or.inl ⟨forall_update hquiet ?_, fun call hcall ↦ ?_⟩,
      forall_update h.sound (hhandled.sound (h.sound j p hp) fun _ ↦ hunsignalled)⟩
    · exact hhandled.unsignalled hsignals.1 hsignals.2 hunsignalled
    · rcases List.mem_append.mp hcall with hnew | hold
      · exact (hmade call hnew).1.sets_eq.trans hsets
      · exact hpending call hold
  · obtain ⟨hroute, hcalls⟩ := htells p p' calls hp hhandle
    refine ⟨Or.inr fun call hcall ↦ ?_, forall_update h.sound ?_⟩
    · rcases List.mem_append.mp hcall with hnew | hold
      · exact hcalls call hnew
      · exact hpending call hold
    · rcases hroute with ⟨hservers, hname⟩ | hcontroller
      · exact hhandled.sound (h.sound j p hp) fun hsome ↦
          absurd hsome (not_or.mpr ⟨hservers, hname⟩)
      · exact Process.Sound.of_isController (hhandled.isController_eq.trans hcontroller)

/-- A request of the operator. -/
theorem Deploying.request (h : Deploying s) (hidle : s.handlers = [])
    (hcontroller : ∀ c, s.processes controller = some c → c.isController = true)
    (hguard : Cluster.Administered resolve controller (.request i route param choice))
    (hsetUp : s.SetUp controller (.request i route param choice))
    (hserve : s.serve i route param choice = some s') : Deploying s' := by
  have hpending : ∀ call, call ∉ s.pending := by
    rw [Cluster.pending, hidle]
    exact fun call ↦ List.not_mem_nil
  obtain ⟨hquiet, -⟩ := hsetUp
  by_cases hregisters : route.kind ≠ none ∨ route = .setSeed
  · refine h.serve (Or.inl ⟨hquiet hregisters, fun call hcall ↦ absurd hcall (hpending call), ?_⟩)
      hserve
    rcases hregisters with hkind | rfl
    · revert hkind
      cases route <;> simp [Route.kind, Route.sets]
    · rfl
  · refine h.serve (Or.inr ⟨fun call hcall ↦ absurd hcall (hpending call),
      fun p p' calls hp hhandle ↦ ⟨?_, fun call hcall ↦ not_or.mp fun htells ↦ hregisters ?_⟩⟩)
      hserve
    · by_cases hi : i = controller
      · exact Or.inr (hcontroller p (hi ▸ hp))
      · rw [Cluster.Administered, if_neg hi] at hguard
        rcases hguard with rfl | rfl | rfl <;> simp
    · obtain ⟨-, hmade⟩ := handle_spec hhandle
      exact (hmade call hcall).1.tells htells

/-- The innermost handler makes a call to a process that is not the controller. -/
theorem Deploying.makeCall (h : Deploying s)
    (hhandlers : s.handlers = ⟨i, call :: calls⟩ :: outer)
    (hothers : ∀ p, s.processes j = some p → p.isController = false)
    (hserve : Cluster.serve { s with handlers := ⟨i, calls⟩ :: outer } j call.route call.param
      choice = some s') : Deploying s' := by
  have hmem : call ∈ s.pending := by
    rw [Cluster.pending, hhandlers]
    exact List.mem_append_left _ List.mem_cons_self
  have hrest : ∀ other ∈ Cluster.pending { s with handlers := ⟨i, calls⟩ :: outer },
      other ∈ s.pending := mem_pending_of_pop hhandlers
  refine (h.pop hhandlers).serve ?_ hserve
  rcases h.phase with ⟨hquiet, hsets⟩ | htells
  · exact Or.inl ⟨hquiet, fun other hother ↦ hsets other (hrest other hother), hsets call hmem⟩
  · refine Or.inr ⟨fun other hother ↦ htells other (hrest other hother),
      fun p p' calls hp hhandle ↦ ⟨Or.inl (htells call hmem), fun other hother ↦ ?_⟩⟩
    obtain ⟨hhandled, hmade⟩ := handle_spec hhandle
    obtain ⟨hother', htrue | ⟨hsets, -⟩⟩ := hmade other hother
    · rw [hhandled.isController_eq, hothers p hp] at htrue
      cases htrue
    · exact ne_of_sets (hother'.sets_eq.trans hsets)

/-- The servers of a process have names that C finds in a string. -/
theorem Refines.isHost (h : Refines resolve controller s d) (htold : Directory.Told resolve d)
    (hi : i ≠ controller) (hp : s.processes i = some p) :
    ∀ name ∈ p.loop.servers, IsHost name := by
  obtain ⟨-, -, -, hsettle⟩ := h.others i p hi hp
  intro name hname
  have hknown : p.entry.servers ⊆ (settle resolve i s.pending p.entry).servers :=
    servers_subset_settle
  rw [hsettle] at hknown
  exact (h.addresses .server name (htold.known_subset i (hknown hname))).1.isHost

theorem Deploying.step {a : Cluster.Action ι} (h : Deploying s)
    (hrefines : Refines resolve controller s d) (htold : Directory.Told resolve d)
    (hguard : Cluster.Administered resolve controller a) (hsetUp : s.SetUp controller a)
    (hstep : s.step resolve a = some s') : Deploying s' := by
  cases a with
  | request i route param choice =>
    simp only [Cluster.step, Option.ite_none_right_eq_some] at hstep
    obtain ⟨⟨hidle, -⟩, hserve⟩ := hstep
    refine h.request hidle (fun c hc ↦ ?_) hguard hsetUp hserve
    obtain ⟨c', hc', htype, -⟩ := hrefines.controller_eq
    obtain rfl := Option.some.inj (hc.symm.trans hc')
    exact htype
  | call choice =>
    rw [Cluster.step] at hstep
    split at hstep
    · rename_i i call calls outer hhandlers
      dsimp only at hstep
      split at hstep
      · obtain rfl := Option.some.inj hstep
        exact h.pop hhandlers
      · rename_i j hj
        refine h.makeCall hhandlers (fun p hp ↦ ?_) hstep
        have hmem : call ∈ s.pending := by
          rw [Cluster.pending, hhandlers]
          exact List.mem_append_left _ List.mem_cons_self
        have hne : j ≠ controller := fun heq ↦ (hrefines.targets call hmem).1 (heq ▸ hj)
        obtain ⟨hcontroller, -⟩ := hrefines.others j p hne hp
        exact hcontroller
    · cases hstep
  | done =>
    rw [Cluster.step] at hstep
    split at hstep
    · rename_i i outer hhandlers
      obtain rfl := Option.some.inj hstep
      refine h.fewer (fun _ _ hp ↦ hp) fun call hcall ↦ ?_
      rw [Cluster.pending, hhandlers]
      exact hcall
    · cases hstep
  | signal i order =>
    obtain ⟨p, hp, hstep⟩ := Option.bind_eq_some_iff.mp hstep
    obtain ⟨p', hsignal, hresult⟩ := Option.bind_eq_some_iff.mp hstep
    obtain rfl := Option.some.inj hresult
    obtain ⟨active, values, hchan, hloop⟩ := takeSignal_cases hsignal
    have hne : i ≠ controller := by
      rintro rfl
      obtain ⟨c, hc, htype, -⟩ := hrefines.controller_eq
      obtain rfl := Option.some.inj (hp.symm.trans hc)
      obtain ⟨d, d', hloop, -⟩ | ⟨d, d', hloop, -⟩ := hloop <;>
        · rw [Process.isController, hloop] at htype
          cases htype
    refine ⟨Or.inr ?_, forall_update h.sound ?_⟩
    · rcases h.phase with ⟨hquiet, -⟩ | htells
      · obtain ⟨hempty, -⟩ := hquiet i p hp
        rw [hchan] at hempty
        simp at hempty
      · exact htells
    · exact (h.sound i p hp).signal (hrefines.isHost htold hne hp) (hsetUp p hp) hsignal
  | turn i turn =>
    obtain ⟨p, hp, hstep⟩ := Option.bind_eq_some_iff.mp hstep
    obtain ⟨p', hturn, hresult⟩ := Option.bind_eq_some_iff.mp hstep
    obtain rfl := Option.some.inj hresult
    refine ⟨?_, forall_update h.sound ((h.sound i p hp).turn hturn)⟩
    rcases h.phase with ⟨hquiet, hsets⟩ | htells
    · have hunsignalled : p.Unsignalled := hquiet i p hp
      exact Or.inl ⟨forall_update hquiet (hunsignalled.turn hturn), hsets⟩
    · exact Or.inr htells
  | crash i =>
    obtain rfl := Option.some.inj hstep
    exact h.crash i

/-- The requests that set a cluster up are those of a directory that keep all processes told. -/
theorem serversFirst_of_means {a : Cluster.Action ι}
    {operation : Directory.Operation ι CString CString} (h : Refines resolve controller s d)
    (hsetUp : s.SetUp controller a) (hmeans : a.Means controller operation) :
    d.ServersFirst operation := by
  cases operation with
  | register kind ips order =>
    obtain ⟨route, param, choice, rfl, hkind, rfl⟩ := hmeans
    rintro rfl
    obtain ⟨c, hc, -, hregistered⟩ := h.controller_eq
    have hroute : route = .setServers := by
      revert hkind
      cases route <;> simp [Route.kind]
    rw [← hregistered]
    exact hsetUp.2 hroute c hc
  | rename names => trivial

/-! ### Clusters that have been set up -/

/-- The processes are about the servers that are registered, in this order. -/
structure Deployed (resolve : CString → Option ι) (s : Cluster ι) (c : Process)
    (order : List CString) : Prop where
  /-- These are the servers. -/
  enumerates : Enumerates order c.loop.servers
  /-- An operation of a client is over them. -/
  client : ∀ a ∈ c.params.readers ∪ c.params.writers, ∀ i p d operation, resolve a = some i →
    s.processes i = some p → p.loop = .client d → d.operation = some operation →
      operation.numServers = order.length ∧
        ∃ endpoints, d.socket = some endpoints ∧ Enumerates endpoints c.loop.servers
  /-- A server that has been started sends to them. -/
  notices : ∀ a ∈ c.loop.servers, ∀ i p d args, resolve a = some i → s.processes i = some p →
    p.loop = .server d → d.serverArgs = some args → ∃ endpoints,
      createMetadataSendingSockets args = some (order.length, endpoints) ∧
        Enumerates endpoints c.loop.servers
  /-- Its arguments are those of its place in a configuration. -/
  serverArgs : ∀ config : Sodaw.Config order.length,
    (∀ k, config.serverId k = processName .server k) → ∀ (k : Fin order.length) i p d args,
      resolve order[k] = some i → s.processes i = some p → p.loop = .server d →
        (∀ b ∈ c.params.readers ∪ c.params.writers, resolve b ≠ some i) →
          d.serverArgs = some args →
            args.initializeSODAW config.initData = some (config.serverArgs k)

/-- The name that a controller has given arrives in C. -/
theorem cString_processName (kind : Kind) (k : ℕ) :
    cString (processName kind k) = processName kind k := by
  refine cString_eq_self fun hzero ↦ ?_
  rcases List.mem_append.mp hzero with hkind | hrest
  · exact absurd hkind (by cases kind <;> decide)
  · rcases List.mem_cons.mp hrest with heq | hdecimal
    · exact absurd heq (by decide)
    · exact absurd (isDigit_of_mem_digitString hdecimal) (by decide)

/-- What a server that has been started makes of its arguments. -/
theorem Process.Sound.sockets {daemon : ServerDaemon} {args : ServerArgs} (hp : p.Sound)
    (hloop : p.loop = .server daemon) (hargs : daemon.serverArgs = some args)
    (hne : daemon.servers ≠ ∅) (haddress : ∀ name ∈ daemon.servers, IsAddress name) :
    args.serverId = cString p.params.name ∧ ∃ endpoints, Enumerates endpoints daemon.servers ∧
      createMetadataSendingSockets args = some (endpoints.length, endpoints) := by
  obtain ⟨hid, endpoints, hendpoints, hstr⟩ := hp.server daemon args hloop hargs
  refine ⟨hid, endpoints, hendpoints, createMetadataSendingSockets_eq hstr ?_ fun name hname ↦
    haddress name (hendpoints.mem_iff.mp hname)⟩
  rintro rfl
  exact hne hendpoints.2.symm

/-- Every run of a cluster that is set up is one of a directory in which all processes are told. -/
theorem exists_allTold {start : Cluster ι} (hresolve : Unambiguous resolve)
    (hstart : start.JustStarted controller)
    (run : Run (Cluster.step resolve) (fun s a ↦ Cluster.Administered resolve controller a ∧
      s.SetUp controller a) start s) :
    ∃ d, Refines resolve controller s d ∧ Directory.Told resolve d ∧
      Directory.AllTold resolve d ∧ Directory.Named resolve processName d := by
  have hrefined : ∃ names, Refines resolve controller start (Directory.start names) :=
    refines_start hstart
  obtain ⟨names, hrefines⟩ := hrefined
  obtain ⟨d, hd, hs⟩ := (refines hresolve hrefines (fun _ _ hguard ↦ hguard.1)
    fun _ _ _ _ h hguard ↦ serversFirst_of_means h hguard.2).run run
  have hweaker := hd.weaken fun _ _ _ ↦ trivial
  exact ⟨d, hs, Directory.told_of_run hweaker, Directory.allTold_of_run hd,
    Directory.named_of_run hresolve hweaker⟩

theorem deploying_of_run {start : Cluster ι} (hresolve : Unambiguous resolve)
    (hstart : start.JustStarted controller)
    (run : Run (Cluster.step resolve) (fun s a ↦ Cluster.Administered resolve controller a ∧
      s.SetUp controller a) start s) : Deploying s :=
  run.invariant_reach (Deploying.start hstart) fun s a s' hs h hguard hstep ↦ by
    obtain ⟨d, hrefines, htold, -⟩ := exists_allTold hresolve hstart hs
    exact h.step hrefines htold hguard.1 hguard.2 hstep

end Clusters

namespace Host

instance : Fintype Host :=
  ⟨{controller, reader, left, right}, fun i ↦ by cases i <;> decide⟩

/-- After the registrations the reader and the servers are started. -/
def launch : List (Cluster.Action Host) :=
  let servers := [address left, address right]
  setup ++ [.request controller .startReaders [] (choice [address reader] servers)] ++ calls 1 ++
    [.request controller .startServers [] (choice [address reader] servers)] ++ calls 2 ++
    [.signal reader servers, .signal left servers]

/-- The cluster after these requests. -/
def launched : Option (Cluster Host) :=
  execute (Cluster.step resolve) (fun s a ↦ Cluster.Administered resolve controller a ∧
    s.SetUp controller a) start launch

theorem exists_launched : ∃ s c p d operation, launched = some s ∧
    s.processes controller = some c ∧ s.handlers = [] ∧ s.processes reader = some p ∧
      p.loop = .client d ∧ d.operation = some operation ∧ address reader ∈ c.params.readers := by
  have hsome : (launched.bind fun s ↦ (s.processes controller).bind fun c ↦
      (s.processes reader).bind fun p ↦
        match p.loop with
        | .client d => d.operation.map fun _ ↦
          (decide (s.handlers.length = 0), decide (address reader ∈ c.params.readers))
        | _ => none) = some (true, true) := by
    decide +kernel
  obtain ⟨s, hs, hrest⟩ := Option.bind_eq_some_iff.mp hsome
  obtain ⟨c, hc, hrest⟩ := Option.bind_eq_some_iff.mp hrest
  obtain ⟨p, hp, hrest⟩ := Option.bind_eq_some_iff.mp hrest
  split at hrest
  · rename_i d hloop
    obtain ⟨operation, hoperation, hvalues⟩ := Option.map_eq_some_iff.mp hrest
    obtain ⟨hidle, hreader⟩ := Prod.mk.inj hvalues
    exact ⟨s, c, p, d, operation, hs, hc, List.length_eq_zero_iff.mp (of_decide_eq_true hidle), hp,
      hloop, hoperation, of_decide_eq_true hreader⟩
  · cases hrest

end Host

end Colas.Daemons
