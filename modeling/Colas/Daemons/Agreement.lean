import Colas.Daemons.Cluster

/-!
# The processes agree on the servers

A cluster refines a directory (`refines`). What a process has in the directory is what it will have
when the calls that are still to be made have been made, so that a request to the controller does in
one step what the cluster does in many.

`serversAgree` and `serversNumbered` are what the directory says of a cluster whose controller waits
for no call: every server that runs knows exactly the servers that the controller has registered, no
process knows of others, and the servers have the names `server_0`, `server_1` and so on, each of
them once.
-/

set_option autoImplicit false
set_option relaxedAutoImplicit false

namespace Colas.Daemons

open TransitionSystem

section Clusters

variable {ι : Type} [DecidableEq ι] {resolve : CString → Option ι} {controller : ι}

/-- A cluster does what the directory says. -/
structure Refines (resolve : CString → Option ι) (controller : ι) (s : Cluster ι)
    (d : Directory ι CString CString) : Prop where
  controller_eq : ∃ c, s.processes controller = some c ∧ c.isController = true ∧
    c.registered = d.registered
  others : ∀ i p, i ≠ controller → s.processes i = some p → p.isController = false ∧
    p.params.readers = ∅ ∧ p.params.writers = ∅ ∧
      settle resolve i s.pending p.entry = ⟨d.known i, d.name i⟩
  targets : ∀ call ∈ s.pending, resolve call.ipaddr ≠ some controller ∧
    (call.route.kind = none ∨ call.route = .setServers)
  quiet : ∀ handler ∈ s.handlers, handler.process ≠ controller → ∀ call ∈ handler.calls,
    call.route.sets = false
  addresses : ∀ kind, ∀ a ∈ d.registered kind, IsAddress a ∧ resolve a ≠ some controller

/-- The operation of the directory that a request is, if it is one. -/
def Cluster.Action.Means (controller : ι) (a : Cluster.Action ι) :
    Directory.Operation ι CString CString → Prop
  | .register kind ips _ => ∃ route param choice, a = .request controller route param choice ∧
    route.kind = some kind ∧ ips = names param
  | .rename _ => True

section Steps

variable {s s' : Cluster ι} {d : Directory ι CString CString} {handlers : List (Handler ι)}
  {i j : ι} {call : Call} {calls : List Call} {p p' : Process} {route : Route} {param : CString}
  {choice : Choice}

/-- The directory does not mind that a process ends. -/
theorem Refines.lose (h : Refines resolve controller s d) (hj : j ≠ controller) :
    Refines resolve controller { s with processes := Function.update s.processes j none } d := by
  obtain ⟨c, hc, hrest⟩ := h.controller_eq
  refine ⟨⟨c, by simpa [Function.update_of_ne hj.symm] using hc, hrest⟩, fun i p hi hp ↦ ?_,
    h.targets, h.quiet, h.addresses⟩
  by_cases hij : i = j
  · subst hij
    simp at hp
  · exact h.others i p hi (by simpa [Function.update_of_ne hij] using hp)

/-- A process takes the place of one that has ended, if it will have the entry. -/
theorem Refines.revive (h : Refines resolve controller s d) (hj : j ≠ controller)
    (hcontroller : p.isController = false)
    (hregistered : p.params.readers = ∅ ∧ p.params.writers = ∅)
    (hsettle : settle resolve j s.pending p.entry = ⟨d.known j, d.name j⟩) :
    Refines resolve controller
      { s with processes := Function.update s.processes j (some p) } d := by
  obtain ⟨c, hc, hrest⟩ := h.controller_eq
  refine ⟨⟨c, by simpa [Function.update_of_ne hj.symm] using hc, hrest⟩, fun i q hi hq ↦ ?_,
    h.targets, h.quiet, h.addresses⟩
  by_cases hij : i = j
  · subst hij
    obtain rfl : p = q := by simpa using hq
    exact ⟨hcontroller, hregistered.1, hregistered.2, hsettle⟩
  · exact h.others i q hi (by simpa [Function.update_of_ne hij] using hq)

/-- The innermost handler leaves out a call that no process would get. -/
theorem Refines.pop (h : Refines resolve controller s d)
    (hhandlers : s.handlers = ⟨i, call :: calls⟩ :: handlers)
    (hlost : ∀ j q, j ≠ controller → s.processes j = some q → resolve call.ipaddr = some j →
      q.entry.obey call = q.entry) :
    Refines resolve controller { s with handlers := ⟨i, calls⟩ :: handlers } d := by
  have hpending : s.pending = call :: Cluster.pending { s with
      handlers := ⟨i, calls⟩ :: handlers } := by
    rw [Cluster.pending, hhandlers]
    rfl
  refine ⟨h.controller_eq, fun j q hj hq ↦ ?_, fun other hother ↦ h.targets other ?_,
    fun handler hhandler hne other hother ↦ ?_, h.addresses⟩
  · obtain ⟨hcontroller, hreaders, hwriters, hsettle⟩ := h.others j q hj hq
    refine ⟨hcontroller, hreaders, hwriters, ?_⟩
    rw [hpending, settle] at hsettle
    split_ifs at hsettle with hresolve
    · rw [hlost j q hj hq hresolve] at hsettle
      exact hsettle
    · exact hsettle
  · rw [hpending]
    exact List.mem_cons_of_mem _ hother
  · rcases List.mem_cons.mp hhandler with rfl | houter
    · exact h.quiet ⟨i, call :: calls⟩ (hhandlers ▸ List.mem_cons_self) hne other
        (List.mem_cons_of_mem _ hother)
    · exact h.quiet _ (hhandlers ▸ List.mem_cons_of_mem _ houter) hne other hother

/-- A handler starts to wait for calls that set nothing. -/
theorem Refines.push (h : Refines resolve controller s d)
    (hquiet : ∀ call ∈ calls, call.route.sets = false ∧ resolve call.ipaddr ≠ some controller) :
    Refines resolve controller { s with handlers := ⟨i, calls⟩ :: s.handlers } d := by
  refine ⟨h.controller_eq, fun j q hj hq ↦ ?_, fun other hother ↦ ?_,
    fun handler hhandler hne ↦ ?_, h.addresses⟩
  · obtain ⟨hcontroller, hreaders, hwriters, hsettle⟩ := h.others j q hj hq
    refine ⟨hcontroller, hreaders, hwriters, ?_⟩
    rw [← hsettle]
    change settle resolve j (calls ++ s.pending) q.entry = _
    rw [settle_append, settle_eq_self fun call hcall _ ↦ ne_of_sets (hquiet call hcall).1]
  · rcases List.mem_append.mp hother with hnew | hold
    · obtain ⟨hsets, htarget⟩ := hquiet other hnew
      refine ⟨htarget, Or.inl ?_⟩
      revert hsets
      cases other.route <;> simp [Route.sets, Route.kind]
    · exact h.targets other hold
  · rcases List.mem_cons.mp hhandler with rfl | hold
    · exact fun call hcall ↦ (hquiet call hcall).1
    · exact h.quiet handler hold hne

/-- A process ends with its handlers. -/
theorem Refines.crash (h : Refines resolve controller s d) (hj : j ≠ controller) :
    Refines resolve controller (s.crash j) d := by
  have hsettle : ∀ (hs : List (Handler ι)) (k : ι) (e : Entry),
      (∀ handler ∈ hs, handler.process ≠ controller → ∀ call ∈ handler.calls,
        call.route.sets = false) →
      settle resolve k ((hs.filter (·.process ≠ j)).flatMap (·.calls)) e =
        settle resolve k (hs.flatMap (·.calls)) e := by
    intro hs
    induction hs with
    | nil => exact fun _ _ _ ↦ rfl
    | cons handler hs ih =>
      intro k e hquiet
      have hrest := fun e ↦ ih k e fun other hother ↦ hquiet other (List.mem_cons_of_mem _ hother)
      rw [List.flatMap_cons, settle_append, List.filter_cons]
      split_ifs with hkeep
      · rw [List.flatMap_cons, settle_append, hrest]
      · have hmine : handler.process ≠ controller := by
          intro heq
          exact hkeep (by simpa [heq] using hj.symm)
        rw [hrest, settle_eq_self fun call hcall _ ↦
          ne_of_sets (hquiet handler List.mem_cons_self hmine call hcall)]
  have hlost := h.lose hj
  have hmem : ∀ handler ∈ s.handlers.filter (·.process ≠ j), handler ∈ s.handlers :=
    fun handler hhandler ↦ List.mem_of_mem_filter hhandler
  refine ⟨hlost.controller_eq, fun i q hi hq ↦ ?_, fun call hcall ↦ ?_,
    fun handler hhandler ↦ h.quiet handler (hmem handler hhandler), h.addresses⟩
  · obtain ⟨hcontroller, hreaders, hwriters, hentry⟩ := hlost.others i q hi hq
    exact ⟨hcontroller, hreaders, hwriters, (hsettle _ _ _ h.quiet).trans hentry⟩
  · obtain ⟨handler, hhandler, hmem'⟩ := List.mem_flatMap.mp hcall
    exact h.targets call (List.mem_flatMap.mpr ⟨handler, hmem handler hhandler, hmem'⟩)

/-- What a turn of an event loop leaves as it is. -/
theorem Refines.loop (h : Refines resolve controller s d) (hp : s.processes j = some p)
    (hentry : p'.entry = p.entry) (hcontroller : p'.isController = p.isController)
    (hparams : p'.params = p.params) : Refines resolve controller
      { s with processes := Function.update s.processes j (some p') } d := by
  by_cases hj : j = controller
  · subst hj
    obtain ⟨c, hc, htype, hregistered⟩ := h.controller_eq
    obtain rfl : p = c := Option.some.inj (hp.symm.trans hc)
    refine ⟨⟨p', by simp, hcontroller.trans htype, ?_⟩, fun i q hi hq ↦ ?_, h.targets, h.quiet,
      h.addresses⟩
    · rw [← hregistered]
      funext kind
      have hservers : p'.loop.servers = p.loop.servers := congrArg Entry.servers hentry
      cases kind <;> simp [Process.registered, hparams, hservers]
    · exact h.others i q hi (by simpa [Function.update_of_ne hi] using hq)
  · obtain ⟨htype, hreaders, hwriters, hsettle⟩ := h.others j p hj hp
    refine h.revive hj (hcontroller.trans htype) ?_ (hentry ▸ hsettle)
    rw [hparams]
    exact ⟨hreaders, hwriters⟩

/-- What a request does that reaches a process. -/
theorem serve_cases (h : s.serve j route param choice = some s') :
    s' = s ∧ (∀ p, s.processes j = some p → ¬ route.Accepts param) ∨
      ∃ p, s.processes j = some p ∧ route.Accepts param ∧
        ((route = .killProcess ∨ route = .killSelf) ∧ s' = s.crash j ∨
          ∃ p' calls, p.handle choice param route = some (p', calls) ∧
            s' = ⟨Function.update s.processes j (some p'), ⟨j, calls⟩ :: s.handlers⟩) := by
  rw [Cluster.serve] at h
  split at h
  · rename_i hnone
    refine Or.inl ⟨(Option.some.inj h).symm, fun p hp ↦ ?_⟩
    rw [hnone] at hp
    cases hp
  · rename_i p hp
    split_ifs at h with haccepts hkill
    · exact Or.inr ⟨p, hp, haccepts, Or.inl ⟨hkill, (Option.some.inj h).symm⟩⟩
    · obtain ⟨⟨p', calls⟩, hhandle, hresult⟩ := Option.bind_eq_some_iff.mp h
      exact Or.inr ⟨p, hp, haccepts, Or.inr ⟨p', calls, hhandle, (Option.some.inj hresult).symm⟩⟩
    · exact Or.inl ⟨(Option.some.inj h).symm, fun _ _ ↦ haccepts⟩

/-- A request reaches a process that is not the controller. The rest of the cluster is as the
directory says without the process, and the process is if the request is handled. -/
theorem Refines.serve (hrest : Refines resolve controller
      { s with processes := Function.update s.processes j none } d) (hj : j ≠ controller)
    (htold : Directory.Told resolve d) (hkind : route.kind = none ∨ route = .setServers)
    (hprocess : ∀ p, s.processes j = some p → p.isController = false ∧ p.params.readers = ∅ ∧
      p.params.writers = ∅ ∧ settle resolve j s.pending (p.entry.obey ⟨[], route, param⟩) =
        ⟨d.known j, d.name j⟩)
    (hserve : s.serve j route param choice = some s') : Refines resolve controller s' d := by
  obtain ⟨rfl, hlost⟩ | ⟨p, hp, haccepts, hkilled | ⟨p', calls, hhandle, rfl⟩⟩ :=
    serve_cases hserve
  · -- No process, or no such route.
    cases hp : s'.processes j with
    | none =>
      have hsame : Function.update s'.processes j none = s'.processes :=
        Function.update_eq_self_iff.mpr hp.symm
      rwa [hsame] at hrest
    | some p =>
      obtain ⟨hcontroller, hreaders, hwriters, hsettle⟩ := hprocess p hp
      rw [Entry.obey, if_neg (hlost p hp)] at hsettle
      have hrevived := hrest.revive hj hcontroller ⟨hreaders, hwriters⟩ hsettle
      have hsame : Function.update s'.processes j (some p) = s'.processes :=
        Function.update_eq_self_iff.mpr hp.symm
      rwa [Function.update_idem, hsame] at hrevived
  · -- The process is killed.
    obtain ⟨-, rfl⟩ := hkilled
    have hcrashed := hrest.crash hj
    rwa [Cluster.crash, Function.update_idem] at hcrashed
  · -- The handler runs.
    obtain ⟨hcontroller, hreaders, hwriters, hsettle⟩ := hprocess p hp
    obtain ⟨hhandled, hmade⟩ := handle_spec hhandle
    have hcontroller' := hhandled.isController_eq.trans hcontroller
    have hreader := hhandled.registered_eq .reader
    have hwriter := hhandled.registered_eq .writer
    have hnokind : route.kind ≠ some .reader ∧ route.kind ≠ some .writer := by
      rcases hkind with hnone | rfl
      · simp [hnone]
      · simp [Route.kind]
    rw [if_neg hnokind.1] at hreader
    rw [if_neg hnokind.2] at hwriter
    rw [← hhandled.entry_eq haccepts] at hsettle
    have hrevived := hrest.revive hj hcontroller' ⟨hreader.trans hreaders, hwriter.trans hwriters⟩
      hsettle
    rw [Function.update_idem] at hrevived
    refine hrevived.push fun call hcall ↦ ?_
    obtain ⟨hcall, htrue | ⟨hsets, kind, hregistered⟩⟩ := hmade call hcall
    · rw [hcontroller'] at htrue
      cases htrue
    refine ⟨hcall.sets_eq.trans hsets, ?_⟩
    cases kind with
    | reader => exact absurd (hreader.trans hreaders ▸ hregistered) (Finset.notMem_empty _)
    | writer => exact absurd (hwriter.trans hwriters ▸ hregistered) (Finset.notMem_empty _)
    | server =>
      have hknown : p'.entry.servers ⊆ (settle resolve j s.pending p'.entry).servers :=
        servers_subset_settle
      rw [hsettle] at hknown
      exact (hrest.addresses .server _ (htold.known_subset j (hknown hregistered))).2

/-- The innermost handler makes a call. -/
theorem Refines.makeCall (h : Refines resolve controller s d) (htold : Directory.Told resolve d)
    (hhandlers : s.handlers = ⟨i, call :: calls⟩ :: handlers)
    (hresolve : resolve call.ipaddr = some j)
    (hserve : Cluster.serve { s with handlers := ⟨i, calls⟩ :: handlers } j call.route call.param
      choice = some s') : Refines resolve controller s' d := by
  have hmem : call ∈ s.pending := by
    rw [Cluster.pending, hhandlers]
    exact List.mem_append_left _ List.mem_cons_self
  obtain ⟨htarget, hkind⟩ := h.targets call hmem
  have hj : j ≠ controller := fun heq ↦ htarget (heq ▸ hresolve)
  refine Refines.serve ?_ hj htold hkind (fun p hp ↦ ?_) hserve
  · refine (h.lose hj).pop hhandlers fun k q hk hq hresolve' ↦ ?_
    obtain rfl := Option.some.inj (hresolve.symm.trans hresolve')
    simp at hq
  · obtain ⟨hcontroller, hreaders, hwriters, hsettle⟩ := h.others j p hj hp
    refine ⟨hcontroller, hreaders, hwriters, ?_⟩
    rw [Cluster.pending, hhandlers] at hsettle
    change settle resolve j (call :: _) p.entry = _ at hsettle
    rw [settle, if_pos hresolve] at hsettle
    exact hsettle

/-- The controller has handled a request, and what the processes are told is what the directory
says then. -/
theorem Refines.answer {c' : Process} {d' : Directory ι CString CString}
    (h : Refines resolve controller s d) (hidle : s.handlers = [])
    (hcontroller : c'.isController = true) (hregistered : c'.registered = d'.registered)
    (haddresses : ∀ kind, ∀ a ∈ d'.registered kind, IsAddress a ∧ resolve a ≠ some controller)
    (hmade : ∀ call ∈ calls, Made c' route param call)
    (hparam : route = .stopAProcess ∨ route = .startAProcess ∨ route = .killAProcess →
      resolve param ≠ some controller)
    (hsettle : ∀ i p, i ≠ controller → s.processes i = some p →
      settle resolve i calls ⟨d.known i, d.name i⟩ = ⟨d'.known i, d'.name i⟩) :
    Refines resolve controller
      ⟨Function.update s.processes controller (some c'), ⟨controller, calls⟩ :: s.handlers⟩ d' := by
  have hpending : s.pending = [] := by rw [Cluster.pending, hidle]; rfl
  have hcalls : Cluster.pending ⟨Function.update s.processes controller (some c'),
      ⟨controller, calls⟩ :: s.handlers⟩ = calls := by
    rw [Cluster.pending, hidle]
    exact List.append_nil _
  refine ⟨⟨c', by simp, hcontroller, hregistered⟩, fun i p hi hp ↦ ?_, fun call hcall ↦ ?_,
    fun handler hhandler hne ↦ ?_, haddresses⟩
  · have hp' : s.processes i = some p := by simpa [Function.update_of_ne hi] using hp
    obtain ⟨htype, hreaders, hwriters, hentry⟩ := h.others i p hi hp'
    rw [hpending] at hentry
    change p.entry = _ at hentry
    refine ⟨htype, hreaders, hwriters, ?_⟩
    rw [hcalls, hentry]
    exact hsettle i p hi hp'
  · have hcall' := hmade call (hcalls ▸ hcall)
    refine ⟨?_, hcall'.kind_eq⟩
    rcases hcall'.ipaddr with ⟨heq, hroute⟩ | ⟨kind, hmem⟩
    · rw [heq]
      exact hparam hroute
    · exact (haddresses kind _ (hregistered ▸ hmem)).2
  · rw [hidle] at hhandler
    obtain rfl := List.mem_singleton.mp hhandler
    exact absurd rfl hne

/-- The addresses in a request are addresses. -/
theorem isAddress_of_names {kind : Kind} (hkind : route.kind = some kind)
    (haccepts : route.Accepts param) {name : CString} (hname : name ∈ names param)
    (hdigit : name.any isDigit = true) : IsAddress name := by
  have hpattern : ∀ b ∈ param, isAddressByte b = true := by
    cases route <;> cases hkind <;> exact haccepts.all rfl
  refine ⟨hdigit, fun b hb ↦ ?_⟩
  obtain ⟨hmem, hother⟩ := mem_of_mem_splitOn (List.mem_toFinset.mp hname) hb
  have hbyte := hpattern b hmem
  simpa [isAddressByte, hother] using hbyte

/-- A request that registers processes is an operation of the directory. -/
theorem Refines.register {c c' : Process} {kind : Kind} (hresolve : Unambiguous resolve)
    (h : Refines resolve controller s d) (hidle : s.handlers = [])
    (hkind : route.kind = some kind) (hc : s.processes controller = some c)
    (haccepts : route.Accepts param)
    (hnames : ∀ name ∈ names param, name.any isDigit = true ∧ resolve name ≠ some controller)
    (hhandle : c.handle choice param route = some (c', calls)) :
    ∃ order d', d.step resolve processName (.register kind (names param) order) = some d' ∧
      Refines resolve controller
        ⟨Function.update s.processes controller (some c'), ⟨controller, calls⟩ :: s.handlers⟩
          d' := by
  obtain ⟨hhandled, hmade⟩ := handle_spec hhandle
  obtain ⟨c₀, hc₀, htype, hregistered⟩ := h.controller_eq
  obtain rfl : c = c₀ := Option.some.inj (hc.symm.trans hc₀)
  have htype' := hhandled.isController_eq.trans htype
  obtain ⟨order, horder, hlisted, rfl⟩ := register_calls hkind htype' hhandle
  have hnew : c'.registered = Function.update d.registered kind
      (d.registered kind ∪ names param) := by
    funext kind'
    have heq := hhandled.registered_eq kind'
    rw [hkind, hregistered] at heq
    simp only [Option.some.injEq] at heq
    by_cases hsame : kind = kind'
    · subst hsame
      rw [heq, if_pos rfl, Function.update_self]
    · rw [heq, if_neg hsame, Function.update_of_ne fun heq' ↦ hsame heq'.symm]
  have horder' : order.Nodup ∧ order.toFinset = d.registered kind ∪ names param := by
    refine ⟨horder.1, horder.2.trans ?_⟩
    rw [hnew, Function.update_self]
  obtain ⟨d', hstep⟩ : ∃ d', d.step resolve processName (.register kind (names param) order) =
      some d' := ⟨_, if_pos horder'⟩
  have hregistered' : c'.registered = d'.registered := by
    rw [hnew]
    simp only [Directory.step, Option.ite_none_right_eq_some] at hstep
    obtain rfl := Option.some.inj hstep.2
    rfl
  have haddresses : ∀ kind', ∀ a ∈ d'.registered kind',
      IsAddress a ∧ resolve a ≠ some controller := by
    intro kind' a ha
    rw [← hregistered', hnew] at ha
    by_cases hsame : kind' = kind
    · subst hsame
      rw [Function.update_self, Finset.mem_union] at ha
      rcases ha with hold | hname
      · exact h.addresses _ a hold
      · obtain ⟨hdigit, hother⟩ := hnames a hname
        exact ⟨isAddress_of_names hkind haccepts hname hdigit, hother⟩
    · rw [Function.update_of_ne hsame] at ha
      exact h.addresses _ a ha
  refine ⟨order, d', hstep, h.answer hidle htype' hregistered' haddresses
    (fun call hcall ↦ (hmade call hcall).1) (fun hroute ↦ ?_) fun i p _ _ ↦ ?_⟩
  · rcases hroute with rfl | rfl | rfl <;> cases hkind
  · have hlisted' : ∀ name ∈ choice.listed, IsAddress name := fun name hname ↦
      (haddresses .server name (hregistered' ▸ hlisted.mem_iff.mp hname)).1
    obtain ⟨-, -, -, -, hknown⟩ := Directory.register_cases hstep
    obtain ⟨⟨a, ha, hi⟩, heq⟩ | ⟨hnone, heq, hname⟩ := hknown i
    · rw [← hregistered', ← horder.mem_iff] at ha
      obtain ⟨k, hk⟩ := List.getElem?_of_mem ha
      rw [settle_registerCalls hresolve horder.1 hlisted' hk hi, heq,
        Directory.register_name hresolve hstep hk hi, zero_add, hlisted.2, hregistered']
    · rw [heq, hname, settle_registerCalls_none]
      exact fun a ha ↦ hnone a (hregistered' ▸ horder.mem_iff.mp ha)

/-- A request to the controller is one operation of the directory or none. -/
theorem Refines.request (hresolve : Unambiguous resolve) (h : Refines resolve controller s d)
    (hidle : s.handlers = [])
    (hguard : Cluster.Administered resolve controller (.request controller route param choice))
    (hserve : s.serve controller route param choice = some s') :
    ∃ d', (d' = d ∨ ∃ operation,
        Cluster.Action.Means controller (.request controller route param choice) operation ∧
          d.step resolve processName operation = some d') ∧ Refines resolve controller s' d' := by
  rw [Cluster.Administered, if_pos rfl] at hguard
  obtain ⟨hkill, hself, hnames, hparam⟩ := hguard
  obtain ⟨rfl, -⟩ | ⟨c, hc, haccepts, ⟨hkilled, -⟩ | ⟨c', calls, hhandle, rfl⟩⟩ :=
    serve_cases hserve
  · exact ⟨d, Or.inl rfl, h⟩
  · exact absurd hkilled (by simp [hkill, hself])
  obtain ⟨hhandled, hmade⟩ := handle_spec hhandle
  obtain ⟨c₀, hc₀, htype, hregistered⟩ := h.controller_eq
  obtain rfl : c = c₀ := Option.some.inj (hc.symm.trans hc₀)
  cases hkind : route.kind with
  | some kind =>
    obtain ⟨order, d', hstep, hrefines⟩ := h.register hresolve hidle hkind hc haccepts
      (hnames (by simp [hkind])) hhandle
    exact ⟨d', Or.inr ⟨.register kind (names param) order, ⟨route, param, choice, rfl, hkind, rfl⟩,
      hstep⟩, hrefines⟩
  | none =>
    have hregistered' : c'.registered = d.registered := by
      funext kind
      have heq := hhandled.registered_eq kind
      rwa [hkind, if_neg (by simp), hregistered] at heq
    have htype' := hhandled.isController_eq.trans htype
    by_cases hseed : route = .setSeed
    · -- The readers and the writers get the numbers as names.
      subst hseed
      have hcalls := setSeed_calls hhandle
      refine ⟨_, Or.inr ⟨.rename fun i ↦ (settle resolve i calls ⟨d.known i, d.name i⟩).name,
        trivial, rfl⟩, h.answer hidle htype' hregistered' h.addresses
        (fun call hcall ↦ (hmade call hcall).1) hparam fun i p _ _ ↦ ?_⟩
      have hservers : (settle resolve i calls ⟨d.known i, d.name i⟩).servers = d.known i :=
        settle_servers fun call hcall ↦ by simp [(hcalls call hcall).1]
      by_cases hclient : ∃ a ∈ d.registered .reader ∪ d.registered .writer, resolve a = some i
      · dsimp only
        rw [if_pos hclient]
        exact Entry.ext hservers rfl
      · dsimp only
        rw [if_neg hclient]
        refine settle_eq_self fun call hcall hi ↦ absurd ⟨call.ipaddr, ?_, hi⟩ hclient
        rw [← hregistered']
        exact Finset.mem_union.mpr (hcalls call hcall).2
    · -- The calls tell the processes nothing that the directory has.
      refine ⟨d, Or.inl rfl, h.answer hidle htype' hregistered' h.addresses
        (fun call hcall ↦ (hmade call hcall).1) hparam fun i p _ _ ↦ ?_⟩
      refine settle_eq_self fun call hcall _ ↦ not_or.mp fun htells ↦ ?_
      rcases (hmade call hcall).1.tells htells with hsome | hsame
      · exact hsome hkind
      · exact hseed hsame

/-- A step of the cluster is one operation of the directory or none. -/
theorem Refines.step {a : Cluster.Action ι} (hresolve : Unambiguous resolve)
    (h : Refines resolve controller s d) (htold : Directory.Told resolve d)
    (hguard : Cluster.Administered resolve controller a) (hstep : s.step resolve a = some s') :
    ∃ d', (d' = d ∨ ∃ operation, a.Means controller operation ∧
      d.step resolve processName operation = some d') ∧ Refines resolve controller s' d' := by
  cases a with
  | request i route param choice =>
    simp only [Cluster.step, Option.ite_none_right_eq_some] at hstep
    obtain ⟨⟨hidle, -⟩, hserve⟩ := hstep
    by_cases hi : i = controller
    · subst hi
      exact h.request hresolve hidle hguard hserve
    · rw [Cluster.Administered, if_neg hi] at hguard
      have hkind : route.kind = none := by rcases hguard with rfl | rfl | rfl <;> rfl
      refine ⟨d, Or.inl rfl, (h.lose hi).serve hi htold (Or.inl hkind) (fun p hp ↦ ?_) hserve⟩
      obtain ⟨hcontroller, hreaders, hwriters, hsettle⟩ := h.others i p hi hp
      refine ⟨hcontroller, hreaders, hwriters, ?_⟩
      rwa [obey_eq_self]
      rcases hguard with rfl | rfl | rfl <;> simp
  | call choice =>
    refine ⟨d, Or.inl rfl, ?_⟩
    rw [Cluster.step] at hstep
    split at hstep
    · rename_i i call calls outer hhandlers
      dsimp only at hstep
      split at hstep
      · rename_i hnone
        obtain rfl := Option.some.inj hstep
        exact h.pop hhandlers fun j q _ _ hj ↦ by
          rw [hnone] at hj
          cases hj
      · rename_i j hj
        exact h.makeCall htold hhandlers hj hstep
    · cases hstep
  | done =>
    rw [Cluster.step] at hstep
    split at hstep
    · rename_i i outer hhandlers
      obtain rfl := Option.some.inj hstep
      have hpending : s.pending = Cluster.pending { s with handlers := outer } := by
        rw [Cluster.pending, hhandlers]
        rfl
      refine ⟨d, Or.inl rfl, h.controller_eq, hpending ▸ h.others, hpending ▸ h.targets,
        fun handler hhandler ↦ h.quiet handler ?_, h.addresses⟩
      rw [hhandlers]
      exact List.mem_cons_of_mem _ hhandler
    · cases hstep
  | signal i order =>
    refine ⟨d, Or.inl rfl, ?_⟩
    obtain ⟨p, hp, hstep⟩ := Option.bind_eq_some_iff.mp hstep
    obtain ⟨p', hsignal, hresult⟩ := Option.bind_eq_some_iff.mp hstep
    obtain rfl := Option.some.inj hresult
    obtain ⟨active, values, -, ⟨d, d', hloop, hd, rfl⟩ | ⟨d, d', hloop, hd, rfl⟩⟩ :=
      takeSignal_cases hsignal
    · refine h.loop hp ?_ ?_ rfl
      · simp only [Process.entry, hloop, Loop.servers, signal_servers hd]
      · simp only [Process.isController, hloop]
    · refine h.loop hp ?_ ?_ rfl
      · simp only [Process.entry, hloop, Loop.servers, (ServerDaemon.onSignal_cases hd).2.1]
      · simp only [Process.isController, hloop]
  | turn i turn =>
    refine ⟨d, Or.inl rfl, ?_⟩
    obtain ⟨p, hp, hstep⟩ := Option.bind_eq_some_iff.mp hstep
    obtain ⟨p', hturn, hresult⟩ := Option.bind_eq_some_iff.mp hstep
    obtain rfl := Option.some.inj hresult
    obtain ⟨d, d', hloop, hd, rfl⟩ := takeTurn_cases hturn
    refine h.loop hp ?_ ?_ rfl
    · simp only [Process.entry, hloop, Loop.servers, (turn_frame hd).1]
    · simp only [Process.isController, hloop]
  | crash i =>
    obtain rfl := Option.some.inj hstep
    exact ⟨d, Or.inl rfl, h.crash hguard⟩

end Steps

/-! ### Runs -/

section Runs

variable {start s : Cluster ι}

/-- At the start nothing is registered. -/
theorem refines_start (h : start.JustStarted controller) :
    ∃ names, Refines resolve controller start (Directory.start names) := by
  obtain ⟨⟨algorithm, hc⟩, hothers, hhandlers⟩ := h
  have hpending : start.pending = [] := by rw [Cluster.pending, hhandlers]; rfl
  refine ⟨fun i ↦ ((start.processes i).map fun p ↦ p.params.name).getD [],
    ⟨_, hc, rfl, funext fun kind ↦ by cases kind <;> rfl⟩, fun i p hi hp ↦ ?_, fun call hcall ↦ ?_,
    fun handler hhandler ↦ ?_, fun kind a ha ↦ absurd ha (Finset.notMem_empty a)⟩
  · rw [hpending]
    obtain ⟨serverId, algorithm, rfl | rfl | rfl⟩ := hothers i p hi hp <;>
      exact ⟨rfl, rfl, rfl, by simp [settle, Directory.start, hp]; rfl⟩
  · rw [hpending] at hcall
    exact absurd hcall List.not_mem_nil
  · rw [hhandlers] at hhandler
    exact absurd hhandler List.not_mem_nil

/-- A cluster that is administered refines a directory. -/
theorem refines {guard : Cluster ι → Cluster.Action ι → Prop}
    {guard' : Directory ι CString CString → Directory.Operation ι CString CString → Prop}
    {names : ι → CString} (hresolve : Unambiguous resolve)
    (hstart : Refines resolve controller start (Directory.start names))
    (hadministered : ∀ s a, guard s a → Cluster.Administered resolve controller a)
    (hmeans : ∀ s d a operation, Refines resolve controller s d → guard s a →
      a.Means controller operation → guard' d operation) :
    Simulation (Cluster.step resolve) guard start (Directory.step resolve processName) guard'
      (Directory.start names) (fun s d ↦ Refines resolve controller s d) where
  initial := hstart
  step := fun s d a s' _ hd hrefines hguard hstep ↦ by
    have htold := Directory.told_of_run (hd.weaken fun _ _ _ ↦ trivial)
    obtain ⟨d', hd', hrefines'⟩ :=
      hrefines.step hresolve htold (hadministered s a hguard) hstep
    rcases hd' with rfl | ⟨operation, hoperation, hd'⟩
    · exact ⟨d', Run.refl, hrefines'⟩
    · exact ⟨d', Run.single (hmeans s d a operation hrefines hguard hoperation) hd', hrefines'⟩

/-- Every run of a cluster that is administered is one of a directory. -/
theorem exists_directory (hresolve : Unambiguous resolve) (hstart : start.JustStarted controller)
    (run : Run (Cluster.step resolve) (fun _ ↦ Cluster.Administered resolve controller) start s) :
    ∃ names d, Run (Directory.step resolve processName) (fun _ _ ↦ True) (Directory.start names) d ∧
      Refines resolve controller s d := by
  have hrefined : ∃ names, Refines resolve controller start (Directory.start names) :=
    refines_start hstart
  obtain ⟨names, hrefines⟩ := hrefined
  obtain ⟨d, hd, hs⟩ := (refines hresolve hrefines (fun _ _ hguard ↦ hguard)
    fun _ _ _ _ _ _ _ ↦ trivial).run run
  exact ⟨names, d, hd, hs⟩

/-- The entries of the processes when no call is pending. -/
theorem Refines.entry_eq {d : Directory ι CString CString} {i : ι} {p : Process}
    (h : Refines resolve controller s d) (hidle : s.handlers = []) (hi : i ≠ controller)
    (hp : s.processes i = some p) : p.loop.servers = d.known i ∧ p.params.name = d.name i := by
  obtain ⟨-, -, -, hentry⟩ := h.others i p hi hp
  have hpending : s.pending = [] := by rw [Cluster.pending, hidle]; rfl
  rw [hpending] at hentry
  exact Entry.mk.inj hentry

/-- Processes know the servers that their controller has registered. -/
structure ServersAgree (resolve : CString → Option ι) (s : Cluster ι) (c : Process) : Prop where
  servers : ∀ a ∈ c.loop.servers, ∀ i p, resolve a = some i → s.processes i = some p →
    p.loop.servers = c.loop.servers
  others : ∀ i p, s.processes i = some p → p.loop.servers ⊆ c.loop.servers

theorem Refines.agree {d : Directory ι CString CString} {c : Process}
    (h : Refines resolve controller s d) (htold : Directory.Told resolve d)
    (hc : s.processes controller = some c) (hidle : s.handlers = []) :
    ServersAgree resolve s c := by
  obtain ⟨c₀, hc₀, -, hregistered⟩ := h.controller_eq
  obtain rfl : c = c₀ := Option.some.inj (hc.symm.trans hc₀)
  have hservers : c.loop.servers = d.registered .server := congrFun hregistered .server
  refine ⟨fun a ha i p hi hp ↦ ?_, fun i p hp ↦ ?_⟩
  · rw [hservers] at ha
    have hne : i ≠ controller := fun heq ↦ (h.addresses .server a ha).2 (heq ▸ hi)
    rw [(h.entry_eq hidle hne hp).1, hservers]
    exact htold.known_server a ha i hi
  · by_cases hi : i = controller
    · subst hi
      obtain rfl : c = p := Option.some.inj (hc.symm.trans hp)
      exact Finset.Subset.refl _
    · rw [(h.entry_eq hidle hi hp).1, hservers]
      exact htold.known_subset i

/-- Whenever the controller is not handling a request, all servers that run know exactly the servers
that are registered, and no process knows of others. -/
theorem serversAgree (hresolve : Unambiguous resolve) (hstart : start.JustStarted controller)
    (run : Run (Cluster.step resolve) (fun _ ↦ Cluster.Administered resolve controller) start s)
    {c : Process} (hc : s.processes controller = some c) (hidle : s.handlers = []) :
    ServersAgree resolve s c := by
  obtain ⟨names, d, hd, h⟩ := exists_directory hresolve hstart run
  exact h.agree (Directory.told_of_run hd) hc hidle

/-- The servers that run have the names of their places in the order, if they are not registered as
readers or writers as well. -/
def NumberedServers (resolve : CString → Option ι) (s : Cluster ι) (c : Process)
    (order : List CString) : Prop :=
  ∀ (k : ℕ) a i p, order[k]? = some a → resolve a = some i → s.processes i = some p →
    (∀ b ∈ c.params.readers ∪ c.params.writers, resolve b ≠ some i) →
      p.params.name = processName .server k

theorem Refines.numbered {d : Directory ι CString CString} {c : Process}
    (h : Refines resolve controller s d) (hnamed : Directory.Named resolve processName d)
    (hc : s.processes controller = some c) (hidle : s.handlers = []) :
    ∃ order, Enumerates order c.loop.servers ∧ NumberedServers resolve s c order := by
  obtain ⟨order, hnodup, horder, hnames⟩ := hnamed
  obtain ⟨c₀, hc₀, -, hregistered⟩ := h.controller_eq
  obtain rfl : c = c₀ := Option.some.inj (hc.symm.trans hc₀)
  have hkind : ∀ kind, c.registered kind = d.registered kind := congrFun hregistered
  refine ⟨order, ⟨hnodup, horder.trans (hkind .server).symm⟩, fun k a i p ha hi hp hclient ↦ ?_⟩
  have hmem : a ∈ d.registered .server := by
    rw [← horder, List.mem_toFinset]
    exact List.mem_of_getElem? ha
  have hne : i ≠ controller := fun heq ↦ (h.addresses .server a hmem).2 (heq ▸ hi)
  rw [(h.entry_eq hidle hne hp).2]
  refine hnames k a i ha hi fun ⟨b, hb, hbi⟩ ↦ hclient b ?_ hbi
  rwa [← hkind, ← hkind] at hb

/-- Whenever the controller is not handling a request, the servers are numbered from zero on. -/
theorem serversNumbered (hresolve : Unambiguous resolve) (hstart : start.JustStarted controller)
    (run : Run (Cluster.step resolve) (fun _ ↦ Cluster.Administered resolve controller) start s)
    {c : Process} (hc : s.processes controller = some c) (hidle : s.handlers = []) :
    ∃ order, Enumerates order c.loop.servers ∧ NumberedServers resolve s c order := by
  obtain ⟨names, d, hd, h⟩ := exists_directory hresolve hstart run
  exact h.numbered (Directory.named_of_run hresolve hd) hc hidle

end Runs

end Clusters

/-! ### A small cluster -/

/-- The processes of a small cluster. -/
inductive Host
  | controller
  | reader
  | left
  | right
  deriving DecidableEq

namespace Host

/-- Their addresses. -/
def address : Host → CString
  | controller => ascii ['0']
  | left => ascii ['1']
  | right => ascii ['2']
  | reader => ascii ['3']

/-- The process with an address. -/
def resolve (a : CString) : Option Host :=
  if a = address controller then some controller
  else if a = address left then some left
  else if a = address right then some right
  else if a = address reader then some reader
  else none

theorem unambiguous_resolve : Unambiguous resolve := by
  have haddress : ∀ {a i}, resolve a = some i → a = address i := by
    intro a i h
    rw [resolve] at h
    split_ifs at h with hcontroller hleft hright hreader
    · rwa [← Option.some.inj h]
    · rwa [← Option.some.inj h]
    · rwa [← Option.some.inj h]
    · rwa [← Option.some.inj h]
  exact fun a b i ha hb ↦ (haddress ha).trans (haddress hb).symm

/-- The processes have just been started. -/
def start : Cluster Host where
  processes
    | controller => some (.controller Text.sodaw)
    | reader => some (.reader (ascii ['r']) Text.sodaw)
    | left => some (.server Text.sodaw)
    | right => some (.server Text.sodaw)
  handlers := []

theorem justStarted_start : start.JustStarted controller where
  controller_eq := ⟨_, rfl⟩
  others := fun i p hi hp ↦ by
    cases i with
    | controller => exact absurd rfl hi
    | reader => exact ⟨_, _, Or.inl (Option.some.inj hp).symm⟩
    | left => exact ⟨[], _, Or.inr (Or.inr (Option.some.inj hp).symm)⟩
    | right => exact ⟨[], _, Or.inr (Or.inr (Option.some.inj hp).symm)⟩
  handlers := rfl

/-- The orders of the maps. -/
def choice (readers servers : List CString) : Choice := ⟨readers, [], servers, servers.reverse, []⟩

/-- The innermost handler makes as many calls, which make none. -/
def calls (number : ℕ) : List (Cluster.Action Host) :=
  (List.replicate number [.call (choice [] []), .done]).flatten ++ [.done]

/-- Two servers are registered, and then a reader. -/
def setup : List (Cluster.Action Host) :=
  let servers := [address right, address left]
  [.request controller .setServers (createServerListString servers) (choice [] servers)] ++
    calls 4 ++
    [.request controller .setReaders (address reader) (choice [address reader] servers)] ++ calls 2

/-- The cluster after these requests. -/
def registered : Option (Cluster Host) :=
  execute (Cluster.step resolve) (fun _ ↦ Cluster.Administered resolve controller) start setup

theorem exists_registered : ∃ s c, registered = some s ∧ s.processes controller = some c ∧
    s.handlers = [] ∧ c.loop.servers = {address left, address right} ∧
      ∃ p, s.processes left = some p := by
  have hsome : (registered.bind fun s ↦ (s.processes controller).map fun c ↦
      (decide (s.handlers.length = 0), c.loop.servers, (s.processes left).isSome)) =
        some (true, {address left, address right}, true) := by
    decide +kernel
  obtain ⟨s, hs, hrest⟩ := Option.bind_eq_some_iff.mp hsome
  obtain ⟨c, hc, hvalues⟩ := Option.map_eq_some_iff.mp hrest
  obtain ⟨hidle, hvalues⟩ := Prod.mk.inj hvalues
  obtain ⟨hservers, hleft⟩ := Prod.mk.inj hvalues
  exact ⟨s, c, hs, hc, List.length_eq_zero_iff.mp (of_decide_eq_true hidle), hservers,
    Option.isSome_iff_exists.mp hleft⟩

end Host

theorem serversAgree_registered : ∃ s c, Host.registered = some s ∧ c.loop.servers ≠ ∅ ∧
    ServersAgree Host.resolve s c := by
  obtain ⟨s, c, hs, hc, hidle, hservers, -⟩ := Host.exists_registered
  refine ⟨s, c, hs, ?_, serversAgree Host.unambiguous_resolve Host.justStarted_start
    (run_of_execute hs) hc hidle⟩
  rw [hservers]
  decide

theorem serversNumbered_registered : ∃ s c order, Host.registered = some s ∧
    Enumerates order c.loop.servers ∧ order.length = 2 ∧
      NumberedServers Host.resolve s c order := by
  obtain ⟨s, c, hs, hc, hidle, hservers, -⟩ := Host.exists_registered
  obtain ⟨order, horder, hnames⟩ := serversNumbered Host.unambiguous_resolve
    Host.justStarted_start (run_of_execute hs) hc hidle
  refine ⟨s, c, order, hs, horder, ?_, hnames⟩
  rw [← List.toFinset_card_of_nodup horder.1, horder.2, hservers]
  decide

end Colas.Daemons
