import Colas.Sodaw.Readers
import Colas.Sodaw.Relays

/-!
# How many elements a read takes

A server sends a reader one element when the reader registers, and one for each greater version that
it adopts while the reader is registered. `elements_le` counts: for one operation of a reader a
server sends at most one element more than it adopts writes in steps at which the reader is
registered with it for the operation. So a read that meets no write takes at most one element from
each server, and a read that meets many takes one more for each of them.

`noticeNames_eq` is about the notices. For every element a server tells each server once, itself
included, and it tells nothing else.
-/

set_option autoImplicit false
set_option relaxedAutoImplicit false

namespace Colas.Sodaw

open TransitionSystem

variable {n : ℕ} {config : Config n} {s t : State n} {guard : State n → Action n → Prop}

/-- The names of the requests for which a server has sent elements, one name for each element. -/
def State.elementNames (s : State n) (i : Fin n) : List (CallId Phase) :=
  s.elements.sent.filterMap fun m ↦ if m.1 = i then some m.2.1 else none

/-- The name of the request that a notice is about. -/
def Disperse.name (notice : Disperse) : CallId Phase := ⟨notice.readerid, notice.opnum, .readValue⟩

/-- The names of the requests about which a server has told another one. -/
def State.noticeNames (s : State n) (i j : Fin n) : List (CallId Phase) :=
  s.disperses.sent.filterMap fun m ↦
    if m.1 = i ∧ m.2.1 = j then some m.2.2.name else none

/-- The number of requests under the name that a server has handled. -/
def State.timesHandled (s : State n) (i : Fin n) (name : CallId Phase) : ℕ :=
  s.calls.requests.delivered.countP fun m ↦ m.1 = i ∧ m.2.1 = name

/-- In the step the server adopts a write and has the reader registered for the operation, with a
tag that is not greater. -/
def RelaysWrite (config : Config n) (i : Fin n) (readerid : CString) (opnum : ℕ)
    (entry : State n × Action n) : Bool :=
  match entry.2 with
  | .serve (j, name, frames) =>
    j = i && name.phase = .writePut &&
      entry.1.storedTag config frames.object i < frames.tagValue &&
      ((entry.1.servers i).tables.readingTable.lookup readerid).any fun reader ↦
        reader.opnum = opnum && reader.tr ≤ frames.tagValue
  | _ => false

/-! ### Elements and notices go together -/

section Handled

variable {strcmp : Strcmp} {args : ServerArgs} {version version' : CString → Tag × Frame}
  {tables tables' : Tables} {name : CallId Phase} {request : Body} {output : Output}

/-- A handler makes one notice for each element. -/
theorem Handles.disperse_names
    (h : Handles strcmp args version tables name request version' tables' output) :
    output.disperses.map Disperse.name = output.elements.map Prod.fst := by
  cases h with
  | adopt => simp [relayed, codedElement, Disperse.name]
  | serve => rfl
  | _ => rfl

variable {i j k : Fin n} {frames : Body} {server : Server}

/-- The elements that are sent on a request come from the server that handles it. -/
theorem elementNames_handle :
    (s.handle (i, name, frames) server output).elementNames j =
      (if j = i then output.elements.map Prod.fst else []) ++ s.elementNames j := by
  have hnew : (output.elements.map fun element ↦ (i, element)).filterMap
      (fun m ↦ if m.1 = j then some m.2.1 else none) =
        if j = i then output.elements.map Prod.fst else [] := by
    rw [List.filterMap_map]
    by_cases hj : j = i
    · subst hj
      simp
    · simp [hj, Ne.symm hj]
  rw [State.elementNames, State.handle, Network.sent_send, List.filterMap_append, hnew]
  rfl

/-- One of the copies of a notice goes to the server. -/
theorem filterMap_copies (notice : Disperse) :
    ((List.finRange n).map fun l ↦ (i, l, notice)).filterMap
        (fun m ↦ if m.1 = j ∧ m.2.1 = k then some m.2.2.name else none) =
      if j = i then [notice.name] else [] := by
  rw [List.filterMap_map]
  by_cases hj : j = i
  · subst hj
    have hself : (List.finRange n).filter (fun l ↦ l = k) = [k] :=
      filter_eq_singleton (f := id) (by simpa using List.nodup_finRange n) (List.mem_finRange k)
    have hone : (List.finRange n).filterMap (fun l ↦ if l = k then some notice.name else none) =
        ((List.finRange n).filter fun l ↦ l = k).map fun _ ↦ notice.name := by
      rw [← List.filterMap_eq_map, List.filterMap_filter]
      simp
    simpa [Function.comp_def, hself] using hone
  · simp [hj, Ne.symm hj]

/-- The notices that are sent on a request come from the server that handles it, and each of them
goes to the server once. -/
theorem noticeNames_handle :
    (s.handle (i, name, frames) server output).noticeNames j k =
      (if j = i then output.disperses.map Disperse.name else []) ++ s.noticeNames j k := by
  have hnew : (output.disperses.flatMap fun notice ↦
      (List.finRange n).map fun l ↦ (i, l, notice)).filterMap
        (fun m ↦ if m.1 = j ∧ m.2.1 = k then some m.2.2.name else none) =
          if j = i then output.disperses.map Disperse.name else [] := by
    rw [List.filterMap_flatMap]
    simp only [filterMap_copies]
    split_ifs
    · exact List.map_eq_flatMap.symm
    · simp
  rw [State.noticeNames, State.handle, Network.sent_send, List.filterMap_append, hnew]
  rfl

end Handled

/-- In every run, for each element that a server has sent it has told each server once, and nothing
else: the notices are about the same requests as the elements, in the same order. -/
theorem noticeNames_eq (run : Run (step config) guard State.initial s) (i j : Fin n) :
    s.noticeNames i j = s.elementNames i := by
  refine run.invariant_reach (P := fun s ↦ s.noticeNames i j = s.elementNames i) rfl
    fun s a t hrun h _ hstep ↦ ?_
  rcases step_cases hstep with hclient | hserver
  · rw [State.noticeNames, State.elementNames, hclient.serversKept.disperses,
      hclient.serversKept.elements]
    exact h
  · cases hserver.move (Shape.of_run hrun) with
    | serve k name frames server output hsent halive hwell hhandles =>
      rw [noticeNames_handle, elementNames_handle, hhandles.disperse_names, h]
    | serveNotice => exact h
    | stop => exact h

/-! ### Counting elements -/

/-- An element is the first one, which answers the request that is handled, or relays a write that
is adopted. -/
theorem Handles.relays_or_first (hsourced : Sourced config s) {i : Fin n} {name : CallId Phase}
    {frames : Body} {version' : CString → Tag × Frame} {tables' : Tables} {output : Output}
    (h : Handles config.strcmp (config.serverArgs i) ((s.servers i).version config.initData)
      (s.servers i).tables name frames version' tables' output) {readerid : CString} {opnum : ℕ}
    (hmem : (⟨readerid, opnum, .readValue⟩ : CallId Phase) ∈ output.elements.map Prod.fst) :
    name = ⟨readerid, opnum, .readValue⟩ ∨
      RelaysWrite config i readerid opnum (s, .serve (i, name, frames)) = true := by
  obtain ⟨⟨other, body⟩, hmem, rfl⟩ := List.mem_map.mp hmem
  generalize hother : (⟨readerid, opnum, .readValue⟩ : CallId Phase) = other at hmem
  cases h.sendsElement hmem with
  | relay key reader hphase hlt hreader hle =>
    obtain ⟨rfl, rfl, -⟩ := CallId.mk.inj hother
    obtain ⟨rfl, -⟩ := hsourced.registered hreader
    right
    simp [RelaysWrite, hphase, hreader, hle, State.storedTag, hlt]
  | first hphase hfresh hle =>
    obtain ⟨rfl, rfl, -⟩ := CallId.mk.inj hother
    exact Or.inl (by rw [← hphase])

/-- A step adds at most one element for an operation, and only if it handles a request that
registers the reader for it or relays a write to the reader. -/
theorem count_elementNames_step (hshape : Shape config s) (hsourced : Sourced config s)
    {a : Action n} (hstep : step config s a = some t) (i : Fin n) (readerid : CString)
    (opnum : ℕ) :
    (t.elementNames i).count ⟨readerid, opnum, .readValue⟩ +
        s.timesHandled i ⟨readerid, opnum, .readValue⟩ ≤
      (s.elementNames i).count ⟨readerid, opnum, .readValue⟩ +
        t.timesHandled i ⟨readerid, opnum, .readValue⟩ +
          (RelaysWrite config i readerid opnum (s, a)).toNat := by
  rcases step_cases hstep with hclient | hserver
  · have hkept := hclient.serversKept
    rw [State.elementNames, State.elementNames, State.timesHandled, State.timesHandled,
      hkept.elements, hkept.delivered]
    omega
  · cases hserver.move hshape with
    | serve j name frames server output hsent halive hwell hhandles =>
      have hhandled : (s.handle (j, name, frames) server output).timesHandled i
          ⟨readerid, opnum, .readValue⟩ = s.timesHandled i ⟨readerid, opnum, .readValue⟩ +
            if j = i ∧ name = ⟨readerid, opnum, .readValue⟩ then 1 else 0 := by
        rw [State.timesHandled, requests_delivered_handle, List.countP_cons]
        simp [State.timesHandled]
      rw [elementNames_handle, List.count_append, hhandled]
      by_cases hi : i = j
      · subst hi
        rw [if_pos rfl]
        have hnames := hhandles.nodup_names fun key reader hreader ↦
          (hsourced.registered hreader).1
        have hone := List.nodup_iff_count_le_one.mp hnames ⟨readerid, opnum, .readValue⟩
        by_cases hmem : ⟨readerid, opnum, .readValue⟩ ∈ output.elements.map Prod.fst
        · rcases hhandles.relays_or_first hsourced hmem with hname | hrelays
          · rw [if_pos ⟨rfl, hname⟩]
            omega
          · rw [hrelays, Bool.toNat_true]
            omega
        · rw [List.count_eq_zero.mpr hmem]
          omega
      · rw [if_neg hi, List.count_nil]
        omega
    | serveNotice => exact Nat.le_add_right _ _
    | stop => exact Nat.le_add_right _ _

/-- In every run, a server has sent at most as many elements for an operation as it has handled
requests that register the reader for it, and relayed writes. -/
theorem count_elementNames_le {s : Logged (State n) (Action n)}
    (run : Run (Logged.next (step config)) (fun s a ↦ guard s.state a)
      (Logged.start State.initial) s) (i : Fin n) (readerid : CString) (opnum : ℕ) :
    (s.state.elementNames i).count ⟨readerid, opnum, .readValue⟩ ≤
      s.state.timesHandled i ⟨readerid, opnum, .readValue⟩ +
        s.log.countP (RelaysWrite config i readerid opnum) := by
  refine run.invariant_reach (P := fun s ↦
    (s.state.elementNames i).count ⟨readerid, opnum, .readValue⟩ ≤
      s.state.timesHandled i ⟨readerid, opnum, .readValue⟩ +
        s.log.countP (RelaysWrite config i readerid opnum)) (Nat.zero_le _)
    fun s a t hrun h _ hstep ↦ ?_
  obtain ⟨later, hlater, rfl⟩ := Option.map_eq_some_iff.mp hstep
  have hbefore := Logged.run_state hrun
  have hadded := count_elementNames_step (Shape.of_run hbefore) (Sourced.of_run hbefore) hlater i
    readerid opnum
  rw [List.countP_cons]
  cases hrelays : RelaysWrite config i readerid opnum (s.state, a) with
  | false =>
    rw [hrelays, Bool.toNat_false] at hadded
    simp only [Bool.false_eq_true, if_false]
    omega
  | true =>
    rw [hrelays, Bool.toNat_true] at hadded
    simp only [if_true]
    omega

/-- No server handles a `READ_VALUE` for an operation twice. -/
theorem timesHandled_le_one (hfresh : ∀ s a, guard s a → FreshNumbers s a)
    (honce : ∀ s a, guard s a → ReadsOnce s a) (run : Run (step config) guard State.initial s)
    (i : Fin n) (readerid : CString) (opnum : ℕ) :
    s.timesHandled i ⟨readerid, opnum, .readValue⟩ ≤ 1 := by
  refine run.invariant_reach (P := fun s ↦ s.timesHandled i ⟨readerid, opnum, .readValue⟩ ≤ 1)
    (Nat.zero_le _) fun s a t hrun h hguard hstep ↦ ?_
  rcases step_cases hstep with hclient | hserver
  · rw [State.timesHandled, hclient.serversKept.delivered]
    exact h
  · cases hserver with
    | serve j name frames server output hsent halive hserver =>
      rw [State.timesHandled, requests_delivered_handle, List.countP_cons]
      split_ifs with hname
      · obtain ⟨rfl, rfl⟩ : j = i ∧ name = ⟨readerid, opnum, .readValue⟩ := by simpa using hname
        have hnone : s.timesHandled j ⟨readerid, opnum, .readValue⟩ = 0 := by
          refine List.countP_eq_zero.mpr fun m hm hsame ↦ ?_
          obtain ⟨k, other, earlier⟩ := m
          obtain ⟨rfl, rfl⟩ : k = j ∧ other = ⟨readerid, opnum, .readValue⟩ := by simpa using hsame
          have hunique := (Numbered.of_run hfresh hrun).unique hsent
            ((Shape.of_run hrun).served _ hm)
          exact honce _ _ hguard rfl (hunique ▸ hm)
        exact Nat.le_of_eq (by rw [← State.timesHandled, hnone])
      · exact h
    | serveNotice => exact h
    | stop => exact h

/-- What the environment of a run on which elements are counted promises: no operation number is
used twice, and no `READ_VALUE` is handled twice. -/
def Counted (s : State n) (a : Action n) : Prop := FreshNumbers s a ∧ ReadsOnce s a

instance (s : State n) (a : Action n) : Decidable (Counted s a) :=
  inferInstanceAs (Decidable (FreshNumbers s a ∧ ReadsOnce s a))

/-- In every run in which no operation number is used twice and no `READ_VALUE` is handled twice, a
server has sent at most one element for an operation of a reader, and one more for each write that
it has adopted while the reader was registered with it for the operation. It has told each server as
often that it has sent one. -/
theorem elements_le {s : Logged (State n) (Action n)}
    (run : Run (Logged.next (step config)) (fun s a ↦ Counted s.state a)
      (Logged.start State.initial) s) (i : Fin n) (readerid : CString) (opnum : ℕ) :
    (s.state.elementNames i).count ⟨readerid, opnum, .readValue⟩ ≤
        1 + s.log.countP (RelaysWrite config i readerid opnum) ∧
      ∀ j, (s.state.noticeNames i j).count ⟨readerid, opnum, .readValue⟩ =
        (s.state.elementNames i).count ⟨readerid, opnum, .readValue⟩ := by
  have hrun : Run (step config) Counted State.initial s.state := Logged.run_state run
  have hcount := count_elementNames_le run i readerid opnum
  have hone := timesHandled_le_one (fun _ _ h ↦ h.1) (fun _ _ h ↦ h.2) hrun i readerid opnum
  exact ⟨by omega, fun j ↦ by rw [noticeNames_eq hrun]⟩

/-- A read that registers with the first server, to which a write then comes. -/
def concurrentRead (first second : Fin 3) : List (Action 3) :=
  let object := ascii ['o']
  let reader := ascii ['r']
  let initial := tagToString initTag
  [ .invokeRead reader 1 object,
    .serve (first, ⟨reader, 1, .readGet⟩, ⟨object, [], []⟩),
    .serve (second, ⟨reader, 1, .readGet⟩, ⟨object, [], []⟩),
    .receive (first, ⟨reader, 1, .readGet⟩, ⟨object, initial, []⟩),
    .receive (second, ⟨reader, 1, .readGet⟩, ⟨object, initial, []⟩),
    .timeout reader,
    .serve (first, ⟨reader, 1, .readValue⟩, ⟨object, initial, []⟩) ] ++
  (sampleWrite [1, 2, 3, 4]).take 7

/-- A reader registers with the first server before a write comes there: it is sent the initial
version and the written one. -/
theorem elements_le_sample : ∃ s : Logged (State 3) (Action 3),
    (s.state.elementNames 0).count ⟨ascii ['r'], 1, .readValue⟩ = 2 ∧
      s.log.countP (RelaysWrite (sampleConfig 3) 0 (ascii ['r']) 1) = 1 ∧
      (s.state.elementNames 0).count ⟨ascii ['r'], 1, .readValue⟩ ≤
          1 + s.log.countP (RelaysWrite (sampleConfig 3) 0 (ascii ['r']) 1) ∧
        ∀ j, (s.state.noticeNames 0 j).count ⟨ascii ['r'], 1, .readValue⟩ =
          (s.state.elementNames 0).count ⟨ascii ['r'], 1, .readValue⟩ := by
  have hcounts : (execute (Logged.next (step (sampleConfig 3))) (fun s a ↦ Counted s.state a)
      (Logged.start State.initial) (concurrentRead 0 1)).map (fun s ↦
        ((s.state.elementNames 0).count ⟨ascii ['r'], 1, .readValue⟩,
          s.log.countP (RelaysWrite (sampleConfig 3) 0 (ascii ['r']) 1))) = some (2, 1) := by
    decide +kernel
  obtain ⟨s, hexecute, hs⟩ := Option.map_eq_some_iff.mp hcounts
  obtain ⟨helements, hrelayed⟩ := Prod.mk.inj hs
  exact ⟨s, helements, hrelayed, elements_le (run_of_execute hexecute) 0 (ascii ['r']) 1⟩

end Colas.Sodaw
