import Colas.Abd.Atomicity
import Colas.Sodaw.Atomicity

/-!
# The tags of writes in both registers

ABD and SODAW choose the tags of writes alike: one above the greatest version number that a majority
reports, with the id of the client. `writes_fresh` says for both that no two writes have the same
tag, and that a write which starts after an operation has finished chooses a greater version number.
In ABD an operation has finished when it returns. In SODAW a read has finished already when it has
decided which tag it decodes.
-/

set_option autoImplicit false
set_option relaxedAutoImplicit false

namespace Colas

open TransitionSystem

/-- No tag is used twice, and the version numbers of writes grow past those of the operations that
have finished. -/
structure WritesFresh (finished : List Event → CString → Tag → Prop) (history : List Event) :
    Prop where
  unique : TagsUnique history
  increase : WritesIncrease finished history

variable {n : ℕ}

/-- In every run of ABD, and in every run of SODAW on one object, the tags of writes are fresh and
grow. -/
theorem writes_fresh :
    (∀ {strcmp : Strcmp} {initData : Frame} {s : Abd.State n},
      Run (Abd.step strcmp initData) Abd.Guard Abd.State.initial s →
        WritesFresh Completed s.history) ∧
    ∀ {config : Sodaw.Config n} {object : CString} {s : Sodaw.State n},
      Run (Sodaw.step config) (Sodaw.OnObject object) Sodaw.State.initial s →
        WritesFresh Decided s.history :=
  ⟨fun run ↦ ⟨Abd.tagsUnique run, Abd.writesIncrease run⟩,
    fun run ↦ ⟨Sodaw.tagsUnique run, Sodaw.writesIncrease run⟩⟩

/-- The run of ABD with two writers that choose the same version number, and the run of SODAW on
three servers. -/
theorem writes_fresh_samples :
    (∃ s : Abd.State 3, s.history = Abd.raceHistory (Abd.hundredBytes 1) (Abd.hundredBytes 3)
        ⟨1, ascii ['w', '1']⟩ (Abd.hundredBytes 1) ∧ WritesFresh Completed s.history) ∧
      ∃ s : Sodaw.State 3, s.history = Sodaw.sampleHistory [1, 2, 3, 4] ∧
        WritesFresh Decided s.history := by
  have habd : (execute (Abd.step Strcmp.difference (Abd.hundredBytes 0)) Abd.Guard
      Abd.State.initial (Abd.raceSchedule 0 1 2 (Abd.hundredBytes 0) (Abd.hundredBytes 1)
        (Abd.hundredBytes 3) ⟨1, ascii ['w', '1']⟩ (Abd.hundredBytes 1))).map Abd.State.history =
      some (Abd.raceHistory (Abd.hundredBytes 1) (Abd.hundredBytes 3) ⟨1, ascii ['w', '1']⟩
        (Abd.hundredBytes 1)) := by
    decide +kernel
  have hsodaw : (execute (Sodaw.step (Sodaw.sampleConfig 3)) (Sodaw.OnObject (ascii ['o']))
      Sodaw.State.initial (Sodaw.sampleWrite [1, 2, 3, 4] ++ Sodaw.sampleRead [1, 2, 3, 4] ++
        [.timeout (ascii ['r'])])).map Sodaw.State.history =
      some (Sodaw.sampleHistory [1, 2, 3, 4]) := by
    decide +kernel
  obtain ⟨s, hs, hhistory⟩ := Option.map_eq_some_iff.mp habd
  obtain ⟨t, ht, hhistory'⟩ := Option.map_eq_some_iff.mp hsodaw
  exact ⟨⟨s, hhistory, writes_fresh.1 (run_of_execute hs)⟩,
    ⟨t, hhistory', writes_fresh.2 (run_of_execute ht)⟩⟩

end Colas
