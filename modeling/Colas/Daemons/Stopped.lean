import Colas.Daemons.Opnums

/-!
# What a stopped reader sends

A start signal and a stop signal arrive on one channel, and `reader_daemon` handles them in one
case, which was written for the start: it fills the list of the servers, and it writes the initial
data. A stop signal therefore makes the reader write as a start signal does. `writer_daemon` has the
same case without the write.

`silent_iff` says when a reader is silent from a stop signal until the next start signal: if the
stop finds no server registered, or an algorithm that is neither ABD nor SODAW. A later stop signal
has the same effect, and a reset signal could make the process active, so the runs after the stop
are those in which neither happens.
-/

set_option autoImplicit false
set_option relaxedAutoImplicit false

namespace Colas.Daemons

open TransitionSystem

/-- `StartProcess` has sent the signal. -/
def Event.IsStart : Event → Prop
  | .signal active _ => active = true
  | _ => False

instance : DecidablePred Event.IsStart
  | .signal active _ => inferInstanceAs (Decidable (active = true))
  | .setServers _ | .setAlgorithm _ | .reset _ | .tick | .send | .finish => isFalse not_false

/-- A stop signal finds nothing to write, and a reset signal leaves the process stopped. -/
def Daemon.Quiet (d : Daemon) : Event → Prop
  | .signal active _ =>
    active = false → d.servers = ∅ ∨ d.algorithm ≠ Text.abd ∧ d.algorithm ≠ Text.sodaw
  | .reset active => active = false
  | _ => True

/-- The event is not a start signal, and the process is quiet in it. -/
def Daemon.StaysQuiet (d : Daemon) (event : Event) : Prop := d.Quiet event ∧ ¬ event.IsStart

/-- The process is stopped, no operation is going on, and this is what it has sent. -/
structure Daemon.Stopped (d : Daemon) (sent : List (CallId Phase)) : Prop where
  active_eq : d.active = false
  operation_eq : d.operation = none
  sent_eq : d.sent = sent

section Stopped

variable {d d' : Daemon} {event : Event} {order : List CString} {sent : List (CallId Phase)}

/-- A stop signal that finds nothing to write stops the process. -/
theorem stopped_of_signal (hquiet : d.Quiet (.signal false order)) (hidle : d.operation = none)
    (h : d.onSignal false order = some d') : d'.Stopped d.sent := by
  obtain ⟨-, rfl⟩ | ⟨hservers, -, cparameters, args, -, hargs, hrest⟩ := onSignal_cases h
  · exact ⟨rfl, hidle, rfl⟩
  · obtain ⟨habd, hsodaw⟩ := (hquiet rfl).resolve_left hservers
    obtain ⟨-, rfl⟩ | ⟨-, d₂, hwrite, rfl⟩ := hrest
    · exact ⟨rfl, hidle, rfl⟩
    · obtain ⟨hwrites, -⟩ | ⟨-, rfl⟩ := writeInitialData_cases hargs hwrite
      · exact absurd hwrites (not_or.mpr ⟨habd, hsodaw⟩)
      · exact ⟨rfl, hidle, rfl⟩

/-- A stop signal that finds something to write begins an operation of a reader. -/
theorem operation_ne_none_of_signal (hreader : d.processType = .reader) (hservers : d.servers ≠ ∅)
    (hwrites : d.algorithm = Text.abd ∨ d.algorithm = Text.sodaw)
    (h : d.onSignal false order = some d') : d'.operation ≠ none := by
  obtain ⟨hnone, -⟩ | ⟨-, -, cparameters, args, -, hargs, hrest⟩ := onSignal_cases h
  · exact absurd hnone hservers
  · obtain ⟨hwriter, -⟩ | ⟨-, d₂, hwrite, rfl⟩ := hrest
    · rw [hreader] at hwriter
      cases hwriter
    · obtain ⟨-, phases, -, hcall⟩ | ⟨⟨habd, hsodaw⟩, -⟩ := writeInitialData_cases hargs hwrite
      · obtain ⟨numServers, socket, rfl⟩ := call_eq hcall
        exact Option.some_ne_none _
      · exact absurd hwrites (not_or.mpr ⟨habd, hsodaw⟩)

/-- A stopped process stays stopped until the next start signal. -/
theorem Daemon.Stopped.step (h : d.Stopped sent) (hguard : d.StaysQuiet event)
    (hstep : d.step event = some d') : d'.Stopped sent := by
  obtain ⟨hquiet, hstart⟩ := hguard
  cases event with
  | setServers ip =>
    obtain rfl := Option.some.inj hstep
    exact { h with }
  | setAlgorithm id =>
    obtain rfl := Option.some.inj hstep
    exact { h with }
  | signal active order =>
    simp only [Daemon.step, Option.ite_none_right_eq_some] at hstep
    obtain rfl : active = false := eq_false_of_ne_true hstart
    exact h.sent_eq ▸ stopped_of_signal hquiet h.operation_eq hstep.2
  | reset active =>
    simp only [Daemon.step, Option.ite_none_right_eq_some, Option.some.injEq] at hstep
    obtain ⟨-, rfl⟩ := hstep
    exact { h with active_eq := hquiet }
  | tick =>
    simp only [Daemon.step, Daemon.onTick, Option.ite_none_right_eq_some, h.active_eq] at hstep
    obtain ⟨-, rfl⟩ : d.operation = none ∧ d = d' := by simpa using hstep
    exact h
  | send =>
    simp only [Daemon.step, Daemon.send, h.operation_eq] at hstep
    cases hstep
  | finish =>
    simp only [Daemon.step, Daemon.finish, h.operation_eq] at hstep
    cases hstep

/-- A reader stays a reader. -/
theorem isReader_of_run {guard : Daemon → Event → Prop} {clientId algorithm : CString}
    {ipList : List CString}
    (run : Run Daemon.step guard (Daemon.start .reader clientId ipList algorithm) d) :
    d.processType = .reader :=
  run.invariant (P := fun d ↦ d.processType = .reader) rfl fun _ _ _ hreader _ hstep ↦
    (step_follows hstep).processType_eq.trans hreader

/-- In every run of a reader, no operation is begun and no request is sent between a stop signal and
the next start signal exactly if the stop signal finds nothing to write. -/
theorem silent_iff {clientId algorithm : CString} {ipList : List CString}
    (run : Run Daemon.step (fun _ _ ↦ True) (Daemon.start .reader clientId ipList algorithm) d)
    (hstop : d.step (.signal false order) = some d') :
    (∀ later, Run Daemon.step Daemon.StaysQuiet d' later →
      later.operation = none ∧ later.sent = d.sent) ↔ d.Quiet (.signal false order) := by
  simp only [Daemon.step, Option.ite_none_right_eq_some, Option.isNone_iff_eq_none] at hstop
  obtain ⟨hidle, hsignal⟩ := hstop
  constructor
  · rintro hsilent -
    by_contra hwrites
    obtain ⟨hservers, halgorithm⟩ := not_or.mp hwrites
    rw [← not_or, not_not] at halgorithm
    exact operation_ne_none_of_signal (isReader_of_run run) hservers halgorithm hsignal
      (hsilent d' Run.refl).1
  · intro hquiet later hlater
    have hstopped : later.Stopped d.sent :=
      hlater.invariant (P := fun s ↦ s.Stopped d.sent)
        (stopped_of_signal hquiet hidle hsignal) fun _ _ _ hs hguard hstep ↦ hs.step hguard hstep
    exact ⟨hstopped.operation_eq, hstopped.sent_eq⟩

end Stopped

/-- A reader of ABD with one server, which has finished its initial write. -/
def readerOfAbd (events : List Event) : Option Daemon :=
  execute Daemon.step (fun _ _ ↦ True) (Daemon.start .reader (ascii ['r']) [] Text.abd)
    (.setServers (ascii ['a']) :: .signal true [ascii ['a']] :: .send :: .send :: .finish :: events)

/-- A reader that is told to run an algorithm which it does not know. -/
theorem silent_unknown_algorithm : ∃ d d',
    readerOfAbd [.setAlgorithm (ascii ['x']), .tick] = some d ∧
    d.step (.signal false [ascii ['a']]) = some d' ∧ d.servers ≠ ∅ ∧
      ∀ later, Run Daemon.step Daemon.StaysQuiet d' later →
        later.operation = none ∧ later.sent = d.sent := by
  have hsome : ((readerOfAbd [.setAlgorithm (ascii ['x']), .tick]).bind fun d ↦
      (d.step (.signal false [ascii ['a']])).map fun _ ↦ (d.servers, d.algorithm)) =
        some ({ascii ['a']}, ascii ['x']) := by
    decide +kernel
  obtain ⟨d, hd, hrest⟩ := Option.bind_eq_some_iff.mp hsome
  obtain ⟨d', hstop, hvalues⟩ := Option.map_eq_some_iff.mp hrest
  obtain ⟨hservers, halgorithm⟩ := Prod.mk.inj hvalues
  refine ⟨d, d', hd, hstop, ?_, ?_⟩
  · rw [hservers]
    decide
  · refine (silent_iff (run_of_execute hd) hstop).mpr fun _ ↦ Or.inr ?_
    rw [halgorithm]
    decide

/-- A reader of ABD that is started, has finished its initial write and is stopped writes again. -/
theorem not_silent : ∃ d d' later, readerOfAbd [] = some d ∧
    d.servers ≠ ∅ ∧ d.step (.signal false [ascii ['a']]) = some d' ∧
      Run Daemon.step (fun _ event ↦ ¬ event.IsStart) d' later ∧
        later.sent.head? = some ⟨ascii ['r'], 1, .abd .writeValue⟩ ∧
          later.sent.length = d.sent.length + 2 := by
  have hsome : ((readerOfAbd []).bind fun d ↦
      (d.step (.signal false [ascii ['a']])).bind fun d' ↦
        (execute Daemon.step (fun _ event ↦ ¬ event.IsStart) d' [.send, .send]).map fun later ↦
          (d.servers, later.sent.head?, decide (later.sent.length = d.sent.length + 2))) =
        some ({ascii ['a']}, some ⟨ascii ['r'], 1, .abd .writeValue⟩, true) := by
    decide +kernel
  obtain ⟨d, hd, hrest⟩ := Option.bind_eq_some_iff.mp hsome
  obtain ⟨d', hstop, hrest⟩ := Option.bind_eq_some_iff.mp hrest
  obtain ⟨later, hlater, hvalues⟩ := Option.map_eq_some_iff.mp hrest
  obtain ⟨hservers, hvalues⟩ := Prod.mk.inj hvalues
  obtain ⟨hhead, hlength⟩ := Prod.mk.inj hvalues
  refine ⟨d, d', later, hd, ?_, hstop, run_of_execute hlater, hhead, of_decide_eq_true hlength⟩
  rw [hservers]
  decide

end Colas.Daemons
