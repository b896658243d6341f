import Mathlib.Order.Bounds.Basic
import Mathlib.Data.List.Basic

/-!
# Registers that keep the greatest version

A version is a timestamp with a value. A register starts with an initial version and receives
others; it is to hold, at every moment, one with the greatest timestamp that it has seen. `IsLatest`
says so: the version it holds is the initial one, or a received one with a greater timestamp than
that, and no timestamp exceeds its timestamp.

`IsLatest.adopt` and `IsLatest.refuse` are the two ways in which a register keeps it when a version
arrives, and `IsLatest.not_of_lt` says that it is lost by refusing a greater version. If equal
timestamps come with equal values, the version that a register holds depends only on the set of
versions received, not on their order or repetition (`IsLatest.unique`).
-/

set_option autoImplicit false
set_option relaxedAutoImplicit false

namespace Register

variable {τ α : Type*} [LinearOrder τ]

/-- The version is one with the greatest timestamp among the initial version and the received
ones. -/
structure IsLatest (initial : τ × α) (received : List (τ × α)) (version : τ × α) : Prop where
  /-- It is the initial version or a received one that is greater. -/
  source : version = initial ∨ version ∈ received ∧ initial.1 < version.1
  /-- No timestamp exceeds its timestamp. -/
  le : ∀ other ∈ received, other.1 ≤ version.1

variable {initial version other : τ × α} {received received' : List (τ × α)}

theorem isLatest_nil (initial : τ × α) : IsLatest initial [] initial where
  source := Or.inl rfl
  le := fun _ h ↦ absurd h List.not_mem_nil

/-- The timestamp is not smaller than the initial one. -/
theorem IsLatest.initial_le (h : IsLatest initial received version) : initial.1 ≤ version.1 := by
  rcases h.source with rfl | ⟨-, hlt⟩
  · exact le_rfl
  · exact hlt.le

/-- A register that takes a greater version holds the latest one. -/
theorem IsLatest.adopt (h : IsLatest initial received version) (hlt : version.1 < other.1) :
    IsLatest initial (received ++ [other]) other where
  source := Or.inr ⟨List.mem_append_right _ (List.mem_singleton_self _),
    lt_of_le_of_lt h.initial_le hlt⟩
  le := fun w hw ↦ by
    rcases List.mem_append.mp hw with hold | hnew
    · exact (h.le w hold).trans hlt.le
    · rw [List.mem_singleton.mp hnew]

/-- A register that refuses a version which is not greater holds the latest one. -/
theorem IsLatest.refuse (h : IsLatest initial received version) (hle : other.1 ≤ version.1) :
    IsLatest initial (received ++ [other]) version where
  source := h.source.imp_right fun ⟨hmem, hlt⟩ ↦ ⟨List.mem_append_left _ hmem, hlt⟩
  le := fun w hw ↦ by
    rcases List.mem_append.mp hw with hold | hnew
    · exact h.le w hold
    · rwa [List.mem_singleton.mp hnew]

/-- A register that holds a version smaller than a received one does not hold the latest one. -/
theorem IsLatest.not_of_lt (hmem : other ∈ received) (hlt : version.1 < other.1) :
    ¬ IsLatest initial received version :=
  fun h ↦ not_lt.mpr (h.le other hmem) hlt

/-- If equal timestamps come with equal values, two registers that have received the same versions,
in whatever order and how often, hold the same one. -/
theorem IsLatest.unique (h : IsLatest initial received version)
    (h' : IsLatest initial received' other) (hsame : ∀ w, w ∈ received ↔ w ∈ received')
    (hvalues : ∀ w ∈ received, ∀ w' ∈ received, w.1 = w'.1 → w = w') : version = other := by
  have hle : version.1 ≤ other.1 := by
    rcases h.source with rfl | ⟨hmem, -⟩
    · exact h'.initial_le
    · exact h'.le version ((hsame version).mp hmem)
  have hge : other.1 ≤ version.1 := by
    rcases h'.source with rfl | ⟨hmem, -⟩
    · exact h.initial_le
    · exact h.le other ((hsame other).mpr hmem)
  have heq : version.1 = other.1 := le_antisymm hle hge
  rcases h.source with rfl | ⟨hmem, hlt⟩ <;> rcases h'.source with rfl | ⟨hmem', hlt'⟩
  · rfl
  · exact absurd heq hlt'.ne
  · exact absurd heq hlt.ne'
  · exact hvalues version hmem other ((hsame other).mpr hmem') heq

end Register
