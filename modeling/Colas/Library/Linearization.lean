import Mathlib.Data.List.Sort
import Mathlib.Data.Prod.Lex

/-!
# Linearizing a register by its timestamps

Operations on a register overlap in time. They are linearizable if they can be put into one order
that a register could have followed (`Legal`), and in which no operation stands before one that had
returned when it started.

The protocols that are studied here give every operation a timestamp. `Stamps.Consistent` lists what
a protocol has to guarantee of the timestamps: writes have timestamps of their own, a read has the
timestamp of the write whose value it returns, and an operation that starts after another one has
returned has a timestamp which is not smaller, and is greater if it is a write. Then the order by
timestamps, with each write before the reads of its timestamp and the reads by the time at which
they start, is a linearization (`Stamps.legal_order`, `Stamps.pairwise_order`).
-/

set_option autoImplicit false
set_option relaxedAutoImplicit false

namespace Linearization

/-- What an operation does with a register. -/
inductive Effect (α : Type*)
  | write (value : α)
  | read (value : α)
  deriving DecidableEq

variable {ω τ α : Type*}

/-- A register that holds the value can do this: every read returns the value that was written
last. -/
def Legal (value : α) : List (Effect α) → Prop
  | [] => True
  | .write written :: rest => Legal written rest
  | .read returned :: rest => returned = value ∧ Legal value rest

instance decidableLegal [DecidableEq α] :
    (value : α) → (effects : List (Effect α)) → Decidable (Legal value effects)
  | _, [] => isTrue trivial
  | _, .write written :: rest => decidableLegal written rest
  | value, .read returned :: rest =>
    haveI := decidableLegal value rest
    inferInstanceAs (Decidable (returned = value ∧ Legal value rest))

/-- What a protocol says of operations: what they do, their timestamps, and when they start. -/
structure Stamps (ω τ α : Type*) where
  /-- What the operation does. -/
  effect : ω → Effect α
  /-- The timestamp of the operation. -/
  tag : ω → τ
  /-- The time at which the operation starts. -/
  start : ω → ℕ

/-- Whether the operation is a read. -/
def Effect.isRead : Effect α → Bool
  | .write _ => false
  | .read _ => true

namespace Stamps

variable [LinearOrder τ] (stamps : Stamps ω τ α)

/-- The place of an operation: by its timestamp, writes before reads, and then by its start. -/
def place (a : ω) : τ ×ₗ Bool ×ₗ ℕ :=
  toLex (stamps.tag a, toLex ((stamps.effect a).isRead, stamps.start a))

/-- The operations by their places. -/
def order (operations : List ω) : List ω :=
  operations.insertionSort fun a b ↦ stamps.place a ≤ stamps.place b

/-- The timestamps agree with the values, and with the operations that are before others. -/
structure Consistent (initial : τ × α) (before : ω → ω → Prop) (operations : List ω) : Prop where
  /-- Writes are above the initial version. -/
  above : ∀ a ∈ operations, ∀ v, stamps.effect a = .write v → initial.1 < stamps.tag a
  /-- No two writes have the same timestamp. -/
  unique : ∀ a ∈ operations, ∀ b ∈ operations, ∀ v w, stamps.effect a = .write v →
    stamps.effect b = .write w → stamps.tag a = stamps.tag b → a = b
  /-- A read returns the initial version, or the value of the write with its timestamp. -/
  source : ∀ a ∈ operations, ∀ v, stamps.effect a = .read v → (stamps.tag a, v) = initial ∨
    ∃ b ∈ operations, stamps.effect b = .write v ∧ stamps.tag b = stamps.tag a
  /-- Timestamps do not decrease. -/
  le : ∀ a ∈ operations, ∀ b ∈ operations, before a b → stamps.tag a ≤ stamps.tag b
  /-- Writes increase them. -/
  lt : ∀ a ∈ operations, ∀ b ∈ operations, before a b →
    ∀ v, stamps.effect b = .write v → stamps.tag a < stamps.tag b
  /-- What is before starts earlier. -/
  start_lt : ∀ a ∈ operations, ∀ b ∈ operations, before a b → stamps.start a < stamps.start b

variable {stamps} {a b : ω}

/-- The place decides first by the timestamp. -/
theorem tag_le_of_place_le (h : stamps.place a ≤ stamps.place b) :
    stamps.tag a ≤ stamps.tag b := by
  rcases Prod.Lex.toLex_le_toLex.mp h with hlt | ⟨heq, -⟩
  · exact hlt.le
  · exact heq.le

theorem place_lt_of_tag_lt (h : stamps.tag a < stamps.tag b) : stamps.place a < stamps.place b :=
  Prod.Lex.toLex_lt_toLex.mpr (Or.inl h)

/-- A write stands before the reads with its timestamp. -/
theorem place_lt_of_write_read {v w : α} (htag : stamps.tag a = stamps.tag b)
    (ha : stamps.effect a = .write v) (hb : stamps.effect b = .read w) :
    stamps.place a < stamps.place b := by
  refine Prod.Lex.toLex_lt_toLex.mpr (Or.inr ⟨htag, Prod.Lex.toLex_lt_toLex.mpr (Or.inl ?_)⟩)
  rw [ha, hb]
  exact Bool.false_lt_true

/-- Reads with one timestamp stand in the order in which they start. -/
theorem place_lt_of_start_lt {v w : α} (htag : stamps.tag a = stamps.tag b)
    (ha : stamps.effect a = .read v) (hb : stamps.effect b = .read w)
    (hstart : stamps.start a < stamps.start b) : stamps.place a < stamps.place b := by
  refine Prod.Lex.toLex_lt_toLex.mpr (Or.inr ⟨htag, Prod.Lex.toLex_lt_toLex.mpr (Or.inr ⟨?_,
    hstart⟩)⟩)
  rw [ha, hb]
  rfl

theorem perm_order (operations : List ω) : (stamps.order operations).Perm operations :=
  List.perm_insertionSort _ operations

theorem mem_order {operations : List ω} : a ∈ stamps.order operations ↔ a ∈ operations :=
  (perm_order operations).mem_iff

theorem sorted_order (operations : List ω) :
    (stamps.order operations).Pairwise fun a b ↦ stamps.place a ≤ stamps.place b := by
  have : Std.Total fun a b ↦ stamps.place a ≤ stamps.place b :=
    ⟨fun a b ↦ le_total (stamps.place a) (stamps.place b)⟩
  have : IsTrans ω fun a b ↦ stamps.place a ≤ stamps.place b := ⟨fun _ _ _ ↦ le_trans⟩
  exact List.pairwise_insertionSort _ operations

variable {initial : τ × α} {before : ω → ω → Prop} {operations : List ω}

/-- What is before another operation has a smaller place. -/
theorem Consistent.place_lt (h : stamps.Consistent initial before operations)
    (ha : a ∈ operations) (hb : b ∈ operations) (hab : before a b) :
    stamps.place a < stamps.place b := by
  rcases (h.le a ha b hb hab).lt_or_eq with hlt | htag
  · exact place_lt_of_tag_lt hlt
  · cases hreads : stamps.effect b with
    | write w => exact absurd htag (h.lt a ha b hb hab w hreads).ne
    | read w =>
      cases hwrites : stamps.effect a with
      | write v => exact place_lt_of_write_read htag hwrites hreads
      | read v => exact place_lt_of_start_lt htag hwrites hreads (h.start_lt a ha b hb hab)

/-- No operation stands before one that is before it. -/
theorem Consistent.pairwise_order (h : stamps.Consistent initial before operations) :
    (stamps.order operations).Pairwise fun a b ↦ ¬ before b a := by
  refine (sorted_order operations).imp_of_mem fun {a b} ha hb hle hba ↦ ?_
  exact absurd (h.place_lt (mem_order.mp hb) (mem_order.mp ha) hba) (not_lt.mpr hle)

/-- The value is that of the latest of the writes, or the initial one if there is none. -/
def Holds (stamps : Stamps ω τ α) (initial : τ × α) (done : List ω) (value : α) : Prop :=
  ((∀ a ∈ done, ∀ v, stamps.effect a ≠ .write v) ∧ value = initial.2) ∨
    ∃ a ∈ done, stamps.effect a = .write value ∧
      ∀ b ∈ done, ∀ v, stamps.effect b = .write v → stamps.tag b ≤ stamps.tag a

/-- After operations with smaller places, a read returns the value that the register holds. -/
theorem Consistent.read_eq (h : stamps.Consistent initial before operations) {done : List ω}
    {value returned : α} (hholds : Holds stamps initial done value) {a : ω} (ha : a ∈ operations)
    (hdone : ∀ b ∈ done, b ∈ operations ∧ stamps.place b ≤ stamps.place a)
    (hrest : ∀ b ∈ operations, stamps.place b < stamps.place a → b ∈ done)
    (hread : stamps.effect a = .read returned) : returned = value := by
  rcases h.source a ha returned hread with hinitial | ⟨b, hb, hwrite, htag⟩
  · -- a write that is done would have a timestamp above that of the read
    rcases hholds with ⟨-, hvalue⟩ | ⟨w, hw, hwrite, -⟩
    · rw [hvalue, ← hinitial]
    · have hle := tag_le_of_place_le (hdone w hw).2
      have hlt := h.above w (hdone w hw).1 value hwrite
      rw [← hinitial] at hlt
      exact absurd hlt (not_lt.mpr hle)
  · -- the write of the read is done, and it is the latest one
    have hbdone := hrest b hb (place_lt_of_write_read htag hwrite hread)
    rcases hholds with ⟨hnone, -⟩ | ⟨w, hw, hlast, hmax⟩
    · exact absurd hwrite (hnone b hbdone returned)
    · have hle := tag_le_of_place_le (hdone w hw).2
      have hge := hmax b hbdone returned hwrite
      obtain rfl : w = b :=
        h.unique w (hdone w hw).1 b hb value returned hlast hwrite (le_antisymm (htag ▸ hle) hge)
      exact Effect.write.inj (hwrite.symm.trans hlast)

/-- From any point on, the operations in order are legal. -/
theorem Consistent.legal_of_append (h : stamps.Consistent initial before operations)
    (done rest : List ω) {value : α} (hholds : Holds stamps initial done value)
    (horder : done ++ rest = stamps.order operations) : Legal value (rest.map stamps.effect) := by
  induction rest generalizing done value with
  | nil => trivial
  | cons a rest ih =>
    have hsorted : (done ++ a :: rest).Pairwise fun a b ↦ stamps.place a ≤ stamps.place b := by
      rw [horder]
      exact sorted_order operations
    obtain ⟨-, hlater, hcross⟩ := List.pairwise_append.mp hsorted
    have hmem : ∀ b ∈ done ++ a :: rest, b ∈ operations := fun b hb ↦ by
      rw [horder] at hb
      exact mem_order.mp hb
    have hdone : ∀ b ∈ done, b ∈ operations ∧ stamps.place b ≤ stamps.place a := fun b hb ↦
      ⟨hmem b (List.mem_append_left _ hb), hcross b hb a List.mem_cons_self⟩
    have hnext : (done ++ [a]) ++ rest = stamps.order operations := by
      rw [List.append_assoc, List.singleton_append, horder]
    have ha : a ∈ operations := hmem a (List.mem_append_right _ List.mem_cons_self)
    rw [List.map_cons]
    cases heffect : stamps.effect a with
    | write written =>
      refine ih (done ++ [a]) (Or.inr ⟨a, by simp, heffect, fun b hb v hwrite ↦ ?_⟩) hnext
      rcases List.mem_append.mp hb with hold | hnew
      · exact tag_le_of_place_le (hdone b hold).2
      · rw [List.mem_singleton.mp hnew]
    | read returned =>
      have hvalue : returned = value := by
        refine h.read_eq hholds ha hdone (fun b hb hlt ↦ ?_) heffect
        have hbmem : b ∈ done ++ a :: rest := horder ▸ mem_order.mpr hb
        rcases List.mem_append.mp hbmem with hold | hnew
        · exact hold
        · rcases List.mem_cons.mp hnew with rfl | hrest
          · exact absurd hlt (lt_irrefl _)
          · exact absurd hlt (not_lt.mpr ((List.pairwise_cons.mp hlater).1 b hrest))
      refine ⟨hvalue, ih (done ++ [a]) ?_ hnext⟩
      rcases hholds with ⟨hnone, hinitial⟩ | ⟨w, hw, hwrite, hmax⟩
      · refine Or.inl ⟨fun b hb v ↦ ?_, hinitial⟩
        rcases List.mem_append.mp hb with hold | hnew
        · exact hnone b hold v
        · simp [List.mem_singleton.mp hnew, heffect]
      · refine Or.inr ⟨w, List.mem_append_left _ hw, hwrite, fun b hb v hwrite' ↦ ?_⟩
        rcases List.mem_append.mp hb with hold | hnew
        · exact hmax b hold v hwrite'
        · simp [List.mem_singleton.mp hnew, heffect] at hwrite'

/-- The operations in order are legal. -/
theorem Consistent.legal_order (h : stamps.Consistent initial before operations) :
    Legal initial.2 ((stamps.order operations).map stamps.effect) :=
  h.legal_of_append [] _ (Or.inl ⟨fun _ hmem ↦ absurd hmem List.not_mem_nil, rfl⟩) rfl

end Stamps

end Linearization
