import Colas.Daemons.Agreement

/-!
# The commands that stop and kill nothing

`StartReaders` makes a process send `StartProcess` to the readers that are registered with it, but
`StopReaders` makes it send them `StopReaders` again, and so with writers and servers. No handler
of these three routes reaches an event loop. `KillAProcess` makes a controller send `KillProcess`,
which has a handler but no route. From such a request to the next one no process gets a signal, and
none is ended (`stop_silent`).

A reader and a writer know no readers and writers, and return. A server knows the servers. It sends
`StopServers` to all of them, itself included, and waits: once a server that runs is registered, the
request never returns (`stopServers_unanswered`).
-/

set_option autoImplicit false
set_option relaxedAutoImplicit false

namespace Colas.Daemons

open TransitionSystem

/-- `StopReaders`, `StopWriters`, `StopServers` and `KillAProcess`, and what it sends. -/
def Route.StopsOrKills (route : Route) : Prop :=
  route = .stopReaders ∨ route = .stopWriters ∨ route = .stopServers ∨ route = .killAProcess ∨
    route = .killProcess

/-- The operator sends a request. -/
def Cluster.Action.IsRequest {ι : Type} : Cluster.Action ι → Prop
  | .request _ _ _ _ => True
  | _ => False

/-- A process ends. -/
def Cluster.Action.IsCrash {ι : Type} : Cluster.Action ι → Prop
  | .crash _ => True
  | _ => False

instance {ι : Type} : DecidablePred (Cluster.Action.IsRequest (ι := ι))
  | .request _ _ _ _ => isTrue trivial
  | .call _ | .done | .signal _ _ | .turn _ _ | .crash _ => isFalse id

instance {ι : Type} : DecidablePred (Cluster.Action.IsCrash (ι := ι))
  | .crash _ => isTrue trivial
  | .call _ | .done | .signal _ _ | .turn _ _ | .request _ _ _ _ => isFalse id

/-- Values have been taken from the channel of the process, and none has been put into it. -/
def Drained (p p' : Process) : Prop := ∃ n, p'.activeChan = p.activeChan.map (List.drop n)

theorem Drained.refl (p : Process) : Drained p p :=
  ⟨0, by cases p.activeChan <;> rfl⟩

section Stops

variable {ι : Type} [DecidableEq ι] {resolve : CString → Option ι} {controller i j : ι}
  {s s' s₁ s₂ : Cluster ι} {route : Route} {param : CString} {choice : Choice}
  {p p' p'' q q' : Process} {calls : List Call}

theorem Drained.step (h : Drained p p') {active : Bool} {values : List Bool}
    (hchan : p'.activeChan = some (active :: values)) (htaken : p''.activeChan = some values) :
    Drained p p'' := by
  obtain ⟨n, hn⟩ := h
  refine ⟨n + 1, ?_⟩
  rw [hchan] at hn
  obtain ⟨all, hall, hdrop⟩ := Option.map_eq_some_iff.mp hn.symm
  rw [htaken, hall, Option.map_some, ← List.drop_drop, hdrop, List.drop_one, List.tail_cons]

/-- The handler of such a command makes calls of such a route, and does nothing else. -/
theorem stopsOrKills_cases (hroute : route.StopsOrKills)
    (h : p.handle choice param route = some (p', calls)) :
    p' = p ∧ ∀ call ∈ calls, call.route.StopsOrKills := by
  have hsend : ∀ {daemons}, p.clusterCommand choice route daemons = some (p', calls) →
      p' = p ∧ ∀ call ∈ calls, call.route.StopsOrKills := by
    intro daemons hcommand
    obtain ⟨-, rfl, rfl⟩ := clusterCommand_cases hcommand
    refine ⟨rfl, fun call hcall ↦ ?_⟩
    obtain ⟨ipaddr, -, rfl⟩ := List.mem_map.mp hcall
    exact hroute
  rcases hroute with rfl | rfl | rfl | rfl | rfl
  · exact hsend h
  · exact hsend h
  · exact hsend h
  · obtain ⟨rfl, ⟨-, -, rfl⟩ | ⟨-, rfl⟩⟩ := forward_cases h
    · refine ⟨rfl, fun call hcall ↦ ?_⟩
      obtain rfl := List.mem_singleton.mp hcall
      exact Or.inr (Or.inr (Or.inr (Or.inr rfl)))
    · exact ⟨rfl, fun call hcall ↦ absurd hcall List.not_mem_nil⟩
  · cases h

/-- Such a command is being obeyed, and the process runs and has got no signal since. -/
structure Stopping (j : ι) (p : Process) (s : Cluster ι) : Prop where
  pending : ∀ call ∈ s.pending, call.route.StopsOrKills
  drained : ∃ p', s.processes j = some p' ∧ Drained p p'

theorem Stopping.crash (h : Stopping j p s) (hi : i ≠ j) : Stopping j p (s.crash i) := by
  obtain ⟨p', hp', hdrained⟩ := h.drained
  refine ⟨fun call hcall ↦ ?_, p', ?_, hdrained⟩
  · obtain ⟨handler, hhandler, hmem⟩ := List.mem_flatMap.mp hcall
    exact h.pending call
      (List.mem_flatMap.mpr ⟨handler, List.mem_of_mem_filter hhandler, hmem⟩)
  · simpa [Cluster.crash, Function.update_of_ne hi.symm] using hp'

theorem Stopping.serve (h : Stopping j p s) (hroute : route.StopsOrKills)
    (hserve : s.serve i route param choice = some s') : Stopping j p s' := by
  obtain ⟨rfl, -⟩ | ⟨q, hq, haccepts, ⟨hkill, -⟩ | ⟨q', calls, hhandle, rfl⟩⟩ :=
    serve_cases hserve
  · exact h
  · rcases hkill with rfl | rfl
    · exact absurd rfl haccepts.1
    · simp [Route.StopsOrKills] at hroute
  · obtain ⟨rfl, hcalls⟩ := stopsOrKills_cases hroute hhandle
    have hsame : Function.update s.processes i (some q') = s.processes :=
      Function.update_eq_self_iff.mpr hq.symm
    refine ⟨fun call hcall ↦ ?_, ?_⟩
    · rcases List.mem_append.mp hcall with hnew | hold
      · exact hcalls call hnew
      · exact h.pending call hold
    · rw [hsame]
      exact h.drained

/-- An event loop goes on. -/
theorem Stopping.loop (h : Stopping j p s) (hq : s.processes i = some q)
    (hdrained : Drained p q → Drained p q') :
    Stopping j p { s with processes := Function.update s.processes i (some q') } := by
  obtain ⟨p', hp', hbefore⟩ := h.drained
  refine ⟨h.pending, ?_⟩
  by_cases hj : j = i
  · subst hj
    obtain rfl : q = p' := Option.some.inj (hq.symm.trans hp')
    exact ⟨q', by simp, hdrained hbefore⟩
  · exact ⟨p', by simpa [Function.update_of_ne hj] using hp', hbefore⟩

theorem Stopping.step {a : Cluster.Action ι} (h : Stopping j p s) (hrequest : ¬ a.IsRequest)
    (hcrash : a ≠ .crash j) (hstep : s.step resolve a = some s') : Stopping j p s' := by
  cases a with
  | request i route param choice => exact absurd trivial hrequest
  | call choice =>
    rw [Cluster.step] at hstep
    split at hstep
    · rename_i i call calls outer hhandlers
      have hpending : s.pending = call :: Cluster.pending { s with
          handlers := ⟨i, calls⟩ :: outer } := by
        rw [Cluster.pending, hhandlers]
        rfl
      have hrest : Stopping j p { s with handlers := ⟨i, calls⟩ :: outer } :=
        ⟨fun other hother ↦ h.pending other (hpending ▸ List.mem_cons_of_mem _ hother), h.drained⟩
      have hroute : call.route.StopsOrKills := h.pending call (hpending ▸ List.mem_cons_self)
      dsimp only at hstep
      split at hstep
      · obtain rfl := Option.some.inj hstep
        exact hrest
      · exact hrest.serve hroute hstep
    · cases hstep
  | done =>
    rw [Cluster.step] at hstep
    split at hstep
    · rename_i i outer hhandlers
      obtain rfl := Option.some.inj hstep
      refine ⟨fun call hcall ↦ h.pending call ?_, h.drained⟩
      rw [Cluster.pending, hhandlers]
      exact hcall
    · cases hstep
  | signal i order =>
    obtain ⟨q, hq, hstep⟩ := Option.bind_eq_some_iff.mp hstep
    obtain ⟨q', hsignal, hresult⟩ := Option.bind_eq_some_iff.mp hstep
    obtain rfl := Option.some.inj hresult
    obtain ⟨active, values, hchan, ⟨d, d', -, -, rfl⟩ | ⟨d, d', -, -, rfl⟩⟩ :=
      takeSignal_cases hsignal
    · exact h.loop hq fun hdrained ↦ hdrained.step hchan rfl
    · exact h.loop hq fun hdrained ↦ hdrained.step hchan rfl
  | turn i turn =>
    obtain ⟨q, hq, hstep⟩ := Option.bind_eq_some_iff.mp hstep
    obtain ⟨q', hturn, hresult⟩ := Option.bind_eq_some_iff.mp hstep
    obtain rfl := Option.some.inj hresult
    obtain ⟨d, d', -, -, rfl⟩ := takeTurn_cases hturn
    exact h.loop hq fun hdrained ↦ hdrained
  | crash i =>
    obtain rfl := Option.some.inj hstep
    exact h.crash fun heq ↦ hcrash (heq ▸ rfl)

/-- A process that does not end by itself runs on and gets no signal after a command that is to stop
all processes of a kind or to kill one, whichever process gets the command. -/
theorem stop_silent (hroute : route.StopsOrKills)
    (hrequest : s.step resolve (.request i route param choice) = some s₁)
    (later : Run (Cluster.step resolve) (fun _ a ↦ ¬ a.IsRequest ∧ a ≠ .crash j) s₁ s₂)
    (hp : s.processes j = some p) : ∃ p', s₂.processes j = some p' ∧ Drained p p' := by
  simp only [Cluster.step, Option.ite_none_right_eq_some] at hrequest
  obtain ⟨⟨hidle, -⟩, hserve⟩ := hrequest
  have hbefore : Stopping j p s := by
    refine ⟨fun call hcall ↦ ?_, p, hp, Drained.refl p⟩
    rw [Cluster.pending, hidle] at hcall
    exact absurd hcall List.not_mem_nil
  have hafter : Stopping j p s₂ :=
    later.invariant (hbefore.serve hroute hserve) fun _ _ _ h hguard hstep ↦
      h.step hguard.1 hguard.2 hstep
  exact hafter.drained

/-! ### `StopServers` -/

/-- The servers send `StopServers` to each other, and the innermost handler is still to send it to
the server with the address. -/
structure Storm (resolve : CString → Option ι) (servers : Finset CString) (a : CString)
    (s : Cluster ι) : Prop where
  agree : ∀ b ∈ servers, ∀ i p, resolve b = some i → s.processes i = some p →
    p.loop.servers = servers
  pending : ∀ call ∈ s.pending, ∃ b ∈ servers, call = ⟨b, .stopServers, []⟩
  mem : a ∈ servers
  alive : ∃ i p, resolve a = some i ∧ s.processes i = some p
  innermost : ∃ i calls outer, s.handlers = ⟨i, calls⟩ :: outer ∧ ⟨a, .stopServers, []⟩ ∈ calls

/-- The handler of `StopServers`. -/
theorem stopServers_cases (h : p.handle choice [] .stopServers = some (p', calls)) :
    p' = p ∧ ∀ call : Call, call ∈ calls ↔ ∃ b ∈ p.loop.servers, call = ⟨b, .stopServers, []⟩ := by
  obtain ⟨⟨-, -, hservers, -⟩, rfl, rfl⟩ := clusterCommand_cases h
  refine ⟨rfl, fun call ↦ ?_⟩
  simp only [sendCommandToProcesses, List.mem_map, hservers.mem_iff]
  exact exists_congr fun b ↦ and_congr_right fun _ ↦ eq_comm

/-- An event loop goes on. -/
theorem Storm.loop {servers : Finset CString} {a : CString} (h : Storm resolve servers a s)
    (hp : s.processes j = some p) (hservers : p'.loop.servers = p.loop.servers) :
    Storm resolve servers a
      { s with processes := Function.update s.processes j (some p') } := by
  have hprocess : ∀ i q, Function.update s.processes j (some p') i = some q →
      ∃ q₀, s.processes i = some q₀ ∧ q.loop.servers = q₀.loop.servers := by
    intro i q hq
    by_cases hi : i = j
    · subst hi
      obtain rfl : p' = q := by simpa using hq
      exact ⟨p, hp, hservers⟩
    · exact ⟨q, by simpa [Function.update_of_ne hi] using hq, rfl⟩
  refine ⟨fun b hb i q hi hq ↦ ?_, h.pending, h.mem, ?_, h.innermost⟩
  · obtain ⟨q₀, hq₀, heq⟩ := hprocess i q hq
    exact heq.trans (h.agree b hb i q₀ hi hq₀)
  · obtain ⟨i, q, hi, hq⟩ := h.alive
    by_cases hij : i = j
    · exact ⟨i, p', hi, by simp [hij]⟩
    · exact ⟨i, q, hi, by simpa [Function.update_of_ne hij] using hq⟩

/-- The innermost handler makes a call. If a process gets it, it starts to send to all servers, and
if no process gets it, the one that is waited for is still to come. -/
theorem Storm.makeCall {servers : Finset CString} {a : CString} (h : Storm resolve servers a s)
    (hstep : s.step resolve (.call choice) = some s') : Storm resolve servers a s' := by
  obtain ⟨i, calls, outer, hhandlers, hmem⟩ := h.innermost
  cases calls with
  | nil => cases hmem
  | cons call calls =>
    have hpending : s.pending = call :: Cluster.pending { s with
        handlers := ⟨i, calls⟩ :: outer } := by
      rw [Cluster.pending, hhandlers]
      rfl
    obtain ⟨b, hb, rfl⟩ := h.pending call (hpending ▸ List.mem_cons_self)
    have hrest : ∀ other ∈ Cluster.pending { s with handlers := ⟨i, calls⟩ :: outer },
        ∃ b ∈ servers, other = ⟨b, .stopServers, []⟩ := fun other hother ↦
      h.pending other (hpending ▸ List.mem_cons_of_mem _ hother)
    -- The call is lost, so it is not the one to the server that runs.
    have hlost : (∀ j q, resolve b = some j → s.processes j ≠ some q) →
        Storm resolve servers a { s with handlers := ⟨i, calls⟩ :: outer } := by
      intro hnone
      refine ⟨h.agree, hrest, h.mem, h.alive, i, calls, outer, rfl, ?_⟩
      rcases List.mem_cons.mp hmem with heq | hlater
      · obtain ⟨j, q, hj, hq⟩ := h.alive
        obtain rfl : a = b := (Call.mk.inj heq).1
        exact absurd hq (hnone j q hj)
      · exact hlater
    rw [Cluster.step, hhandlers] at hstep
    dsimp only at hstep
    split at hstep
    · rename_i hnone
      obtain rfl := Option.some.inj hstep
      exact hlost fun j q hj ↦ by
        rw [hnone] at hj
        cases hj
    · rename_i j hj
      obtain ⟨rfl, hno⟩ | ⟨p, hp, -, ⟨hkill, -⟩ | ⟨p', calls', hhandle, rfl⟩⟩ := serve_cases hstep
      · exact hlost fun k q hk hq ↦ by
          obtain rfl := Option.some.inj (hj.symm.trans hk)
          exact hno q hq (by decide)
      · exact absurd hkill (by simp)
      · obtain ⟨rfl, hcalls⟩ := stopServers_cases hhandle
        have hsame : Function.update s.processes j (some p') = s.processes :=
          Function.update_eq_self_iff.mpr hp.symm
        have hservers := h.agree b hb j p' hj hp
        rw [hservers] at hcalls
        simp only [hsame]
        refine ⟨h.agree, fun other hother ↦ ?_, h.mem, h.alive, j, calls', _, rfl,
          (hcalls _).mpr ⟨a, h.mem, rfl⟩⟩
        rcases List.mem_append.mp hother with hnew | hold
        · exact (hcalls other).mp hnew
        · exact hrest other hold

theorem Storm.step {servers : Finset CString} {a : CString} {action : Cluster.Action ι}
    (h : Storm resolve servers a s) (hguard : ¬ action.IsCrash)
    (hstep : s.step resolve action = some s') : Storm resolve servers a s' := by
  obtain ⟨i, calls, outer, hhandlers, hmem⟩ := h.innermost
  cases action with
  | request i route param choice =>
    simp [Cluster.step, hhandlers] at hstep
  | call choice => exact h.makeCall hstep
  | done =>
    rw [Cluster.step, hhandlers] at hstep
    cases calls with
    | nil => cases hmem
    | cons call calls => cases hstep
  | signal i order =>
    obtain ⟨p, hp, hstep⟩ := Option.bind_eq_some_iff.mp hstep
    obtain ⟨p', hsignal, hresult⟩ := Option.bind_eq_some_iff.mp hstep
    obtain rfl := Option.some.inj hresult
    obtain ⟨active, values, -, ⟨d, d', hloop, hd, rfl⟩ | ⟨d, d', hloop, hd, rfl⟩⟩ :=
      takeSignal_cases hsignal
    · exact h.loop hp (by simp only [hloop, Loop.servers, signal_servers hd])
    · exact h.loop hp (by simp only [hloop, Loop.servers, (ServerDaemon.onSignal_cases hd).2.1])
  | turn i turn =>
    obtain ⟨p, hp, hstep⟩ := Option.bind_eq_some_iff.mp hstep
    obtain ⟨p', hturn, hresult⟩ := Option.bind_eq_some_iff.mp hstep
    obtain rfl := Option.some.inj hresult
    obtain ⟨d, d', hloop, hd, rfl⟩ := takeTurn_cases hturn
    exact h.loop hp (by simp only [hloop, Loop.servers, (turn_frame hd).1])
  | crash i => exact absurd trivial hguard

/-- Once a server that runs is registered with the controller, a `StopServers` request to the
controller does not return as long as no process ends. -/
theorem stopServers_unanswered {start : Cluster ι} {c : Process} {a : CString}
    (hresolve : Unambiguous resolve) (hstart : start.JustStarted controller)
    (run : Run (Cluster.step resolve) (fun _ ↦ Cluster.Administered resolve controller) start s)
    (hc : s.processes controller = some c) (ha : a ∈ c.loop.servers)
    (halive : ∃ i p, resolve a = some i ∧ s.processes i = some p)
    (hrequest : s.step resolve (.request controller .stopServers [] choice) = some s₁)
    (later : Run (Cluster.step resolve) (fun _ a ↦ ¬ a.IsCrash) s₁ s₂) : s₂.handlers ≠ [] := by
  simp only [Cluster.step, Option.ite_none_right_eq_some] at hrequest
  obtain ⟨⟨hidle, -⟩, hserve⟩ := hrequest
  obtain ⟨names, d, hd, hrefines⟩ := exists_directory hresolve hstart run
  have hagree := hrefines.agree (Directory.told_of_run hd) hc hidle
  have hstorm : Storm resolve c.loop.servers a s₁ := by
    obtain ⟨-, hno⟩ | ⟨p, hp, -, ⟨hkill, -⟩ | ⟨p', calls, hhandle, rfl⟩⟩ := serve_cases hserve
    · exact absurd (by decide) (hno c hc)
    · exact absurd hkill (by simp)
    · obtain rfl : c = p := Option.some.inj (hc.symm.trans hp)
      obtain ⟨rfl, hcalls⟩ := stopServers_cases hhandle
      have hsame : Function.update s.processes controller (some p') = s.processes :=
        Function.update_eq_self_iff.mpr hp.symm
      simp only [hsame, hidle]
      refine ⟨hagree.servers, fun call hcall ↦ (hcalls call).mp ?_, ha, halive, controller, calls,
        [], rfl, (hcalls _).mpr ⟨a, ha, rfl⟩⟩
      exact (List.append_nil calls) ▸ hcall
  obtain ⟨i, calls, outer, hhandlers, -⟩ := (later.invariant hstorm fun _ _ _ h hguard hstep ↦
    h.step hguard hstep).innermost
  rw [hhandlers]
  exact List.cons_ne_nil _ _

end Stops

namespace Host

/-- The innermost handler calls twice in a row. -/
def twice : List (Cluster.Action Host) :=
  let servers := [address left, address right]
  [.call (choice [] servers), .call (choice [] servers)]

theorem exists_stopping : ∃ s s₁ s₂, registered = some s ∧
    (∃ choice, s.step resolve (.request controller .stopServers [] choice) = some s₁) ∧
      execute (Cluster.step resolve) (fun _ a ↦ ¬ a.IsRequest ∧ ¬ a.IsCrash) s₁ twice = some s₂ ∧
        s₂.handlers.length = 3 := by
  let order : Choice := choice [address reader] [address left, address right]
  have hsome : (registered.bind fun s ↦
      (s.step resolve (.request controller .stopServers [] order)).bind fun s₁ ↦
        (execute (Cluster.step resolve) (fun _ a ↦ ¬ a.IsRequest ∧ ¬ a.IsCrash) s₁ twice).map
          fun s₂ ↦ s₂.handlers.length) = some 3 := by
    decide +kernel
  obtain ⟨s, hs, hrest⟩ := Option.bind_eq_some_iff.mp hsome
  obtain ⟨s₁, hs₁, hrest⟩ := Option.bind_eq_some_iff.mp hrest
  obtain ⟨s₂, hs₂, hlength⟩ := Option.map_eq_some_iff.mp hrest
  exact ⟨s, s₁, s₂, hs, ⟨order, hs₁⟩, hs₂, hlength⟩

end Host

theorem stop_silent_registered : ∃ s s₁ s₂ : Cluster Host, Host.registered = some s ∧
    Run (Cluster.step Host.resolve) (fun _ a ↦ ¬ a.IsRequest ∧ a ≠ .crash .left) s₁ s₂ ∧
      s₂.handlers.length = 3 ∧
        ∃ p p', s.processes .left = some p ∧ s₂.processes .left = some p' ∧ Drained p p' := by
  obtain ⟨s, s₁, s₂, hs, ⟨choice, hs₁⟩, hs₂, hlength⟩ := Host.exists_stopping
  obtain ⟨s', c, hs', -, -, -, p, hp⟩ := Host.exists_registered
  obtain rfl : s = s' := Option.some.inj (hs.symm.trans hs')
  have hlater : Run (Cluster.step Host.resolve) (fun _ a ↦ ¬ a.IsRequest ∧ a ≠ .crash .left)
      s₁ s₂ := by
    refine (run_of_execute hs₂).weaken fun _ a hguard ↦ ⟨hguard.1, ?_⟩
    rintro rfl
    exact hguard.2 trivial
  have hroute : Route.stopServers.StopsOrKills := Or.inr (Or.inr (Or.inl rfl))
  obtain ⟨p', hp', hdrained⟩ := stop_silent hroute hs₁ hlater hp
  exact ⟨s, s₁, s₂, hs, hlater, hlength, p, p', hp, hp', hdrained⟩

theorem stopServers_unanswered_registered : ∃ s₁ s₂ : Cluster Host,
    Run (Cluster.step Host.resolve) (fun _ a ↦ ¬ a.IsRequest ∧ ¬ a.IsCrash) s₁ s₂ ∧
      s₂.handlers ≠ [] := by
  obtain ⟨s, s₁, s₂, hs, ⟨choice, hs₁⟩, hs₂, -⟩ := Host.exists_stopping
  obtain ⟨s', c, hs', hc, -, hservers, p, hp⟩ := Host.exists_registered
  obtain rfl : s = s' := Option.some.inj (hs.symm.trans hs')
  have hmem : Host.address .left ∈ c.loop.servers := by
    rw [hservers]
    exact Finset.mem_insert_self _ _
  exact ⟨s₁, s₂, run_of_execute hs₂, stopServers_unanswered Host.unambiguous_resolve
    Host.justStarted_start (run_of_execute hs) hc hmem ⟨.left, p, by decide, hp⟩ hs₁
    ((run_of_execute hs₂).weaken fun _ _ hguard ↦ hguard.2)⟩

end Colas.Daemons
