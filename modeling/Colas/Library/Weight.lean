import Mathlib.Data.List.AList
import Mathlib.Algebra.BigOperators.Group.List.Basic
import Mathlib.Algebra.GroupWithZero.Nat

/-!
# Weights of association lists

Every entry of an association list has a weight, and the weight of the list is their sum. An entry
that is inserted takes the place of the one that has stood under its key, and the weight of the list
changes by the difference (`weight_insert`). That is what a counter has to do that is kept beside a
table.
-/

set_option autoImplicit false
set_option relaxedAutoImplicit false

namespace AList

variable {α : Type*} {β : α → Type*} (w : ∀ a, β a → ℕ)

/-- The sum of the weights of the entries. -/
def weight (s : AList β) : ℕ := (s.entries.map fun e ↦ w e.1 e.2).sum

@[simp]
theorem weight_empty : weight w (∅ : AList β) = 0 := rfl

@[simp]
theorem weight_singleton (a : α) (b : β a) : weight w (AList.singleton a b) = w a b := by
  simp [weight]

variable [DecidableEq α]

/-- An entry that is found is one summand. -/
theorem weight_erase {s : AList β} {a : α} {b : β a} (h : s.lookup a = some b) :
    weight w (s.erase a) + w a b = weight w s := by
  have hkey : a ∈ s.entries.keys := List.dlookup_isSome.mp (by rw [← lookup, h]; rfl)
  obtain ⟨b', before, after, -, hentries, herase⟩ := List.exists_of_kerase hkey
  have hmem : Sigma.mk a b ∈ s.entries := mem_lookup_iff.mp h
  have hmem' : Sigma.mk a b' ∈ s.entries := by
    rw [hentries]
    exact List.mem_append_right _ List.mem_cons_self
  obtain rfl := s.nodupKeys.eq_of_mk_mem hmem hmem'
  have hleft : (s.erase a).entries = before ++ after := herase
  simp only [weight, hleft, hentries, List.map_append, List.map_cons, List.sum_append,
    List.sum_cons]
  omega

/-- The weight of a new entry is added, and that of the entry under its key is subtracted. -/
theorem weight_insert (s : AList β) (a : α) (b : β a) :
    weight w (s.insert a b) + (s.lookup a).elim 0 (w a) = weight w s + w a b := by
  have hkept : (s.erase a).entries = s.entries.kerase a := rfl
  have hinsert : weight w (s.insert a b) = w a b + weight w (s.erase a) := by
    simp [weight, hkept]
  cases hlookup : s.lookup a with
  | none =>
    have hkey : a ∉ s.entries.keys := fun hmem ↦ by
      have hsome := List.dlookup_isSome.mpr hmem
      rw [← lookup, hlookup] at hsome
      cases hsome
    have herase : weight w (s.erase a) = weight w s := by
      simp [weight, hkept, List.kerase_of_notMem_keys hkey]
    rw [hinsert, herase, Option.elim_none, add_zero, add_comm]
  | some old =>
    rw [hinsert, Option.elim_some, ← weight_erase w hlookup]
    omega

end AList
