import Mathlib.Data.List.Induction

/-!
# Windows of a list

A list is read from its front and cut into windows. The first element opens a window, and an element
that `closes` a window, which depends on the first element of the window and on the element alone,
opens the next one. `windows` are the windows of a list that has a first element.

No element is lost and none is moved (`flatten_all_windows`). The windows of a longer list arise
from those of a shorter one by `push` (`windows_concat`), and there is one window exactly if no
element closes the first one (`closed_windows_eq_nil_iff`).
-/

set_option autoImplicit false
set_option relaxedAutoImplicit false

/-- The windows that have been closed, and the one that is open, which has a first element. -/
structure Windows (α : Type*) where
  /-- The closed windows, oldest first. -/
  closed : List (List α)
  /-- The first element of the open window. -/
  first : α
  /-- The other elements of the open window. -/
  rest : List α

namespace Windows

variable {α : Type*} {w : Windows α} {x y : α} {xs : List α}

/-- All windows, the open one last. -/
def all (w : Windows α) : List (List α) := w.closed ++ [w.first :: w.rest]

/-- The number of elements. -/
def size (w : Windows α) : ℕ := w.all.flatten.length

variable (closes : α → α → Prop) [DecidableRel closes]

/-- The next element joins the open window or closes it and opens another one. -/
def push (w : Windows α) (x : α) : Windows α :=
  if closes w.first x then ⟨w.all, x, []⟩ else ⟨w.closed, w.first, w.rest ++ [x]⟩

/-- The windows of the list `x :: xs`. -/
def windows (x : α) (xs : List α) : Windows α := xs.foldl (push closes) ⟨[], x, []⟩

theorem windows_concat (x : α) (xs : List α) (y : α) :
    windows closes x (xs ++ [y]) = (windows closes x xs).push closes y := by
  rw [windows, List.foldl_append, List.foldl_cons, List.foldl_nil, ← windows]

theorem push_of_closes (h : closes w.first x) : w.push closes x = ⟨w.all, x, []⟩ := if_pos h

theorem push_of_not_closes (h : ¬ closes w.first x) :
    w.push closes x = ⟨w.closed, w.first, w.rest ++ [x]⟩ := if_neg h

theorem flatten_all_push : (w.push closes x).all.flatten = w.all.flatten ++ [x] := by
  by_cases h : closes w.first x
  · rw [push_of_closes closes h]
    simp [all]
  · rw [push_of_not_closes closes h]
    simp [all]

theorem size_push : (w.push closes x).size = w.size + 1 := by
  rw [size, flatten_all_push, List.length_append, ← size, List.length_singleton]

/-- The windows are a partition of the list. -/
theorem flatten_all_windows : (windows closes x xs).all.flatten = x :: xs := by
  induction xs using List.reverseRecOn with
  | nil => rfl
  | append_singleton xs y ih => rw [windows_concat, flatten_all_push, ih, List.cons_append]

theorem size_windows : (windows closes x xs).size = xs.length + 1 := by
  rw [size, flatten_all_windows, List.length_cons]

/-- The first element of the open window is an element of the list. -/
theorem first_windows_mem (x : α) (xs : List α) :
    (windows closes x xs).first ∈ x :: xs := by
  rw [← flatten_all_windows closes]
  simp [all]

/-- As long as no window is closed, the open one is the first. -/
theorem first_windows_of_closed_eq_nil (x : α) (xs : List α)
    (h : (windows closes x xs).closed = []) :
    (windows closes x xs).first = x := by
  induction xs using List.reverseRecOn with
  | nil => rfl
  | append_singleton xs y ih =>
    rw [windows_concat] at h ⊢
    by_cases hcloses : closes (windows closes x xs).first y
    · rw [push_of_closes closes hcloses] at h
      exact absurd h (by simp [all])
    · rw [push_of_not_closes closes hcloses] at h ⊢
      exact ih h

/-- The first window is never closed exactly if no element closes it. -/
theorem closed_windows_eq_nil_iff :
    (windows closes x xs).closed = [] ↔ ∀ y ∈ xs, ¬ closes x y := by
  induction xs using List.reverseRecOn with
  | nil => simp [windows]
  | append_singleton xs y ih =>
    have hfirst := first_windows_of_closed_eq_nil closes x xs
    rw [windows_concat, List.forall_mem_append, List.forall_mem_singleton, ← ih]
    by_cases hcloses : closes (windows closes x xs).first y
    · rw [push_of_closes closes hcloses]
      refine ⟨fun h ↦ absurd h (by simp [all]), ?_⟩
      rintro ⟨hnil, hnot⟩
      exact absurd (hfirst hnil ▸ hcloses) hnot
    · rw [push_of_not_closes closes hcloses]
      exact ⟨fun hnil ↦ ⟨hnil, hfirst hnil ▸ hcloses⟩, And.left⟩

end Windows
