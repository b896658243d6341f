import Mathlib.Data.Fintype.Card
import Mathlib.Data.Finset.Card
import Mathlib.Tactic.Linarith

/-!
# Majorities and what a majority holds

A set of members is a majority when twice its size exceeds the number of members. Two majorities
meet (`IsMajority.exists_mem_inter`). A value `t` is `HeldByMajority` under a level function when a
majority of members has level at least `t`; it stays held while levels grow. This is the quorum
argument for timestamped registers, over any type of levels.

`isMajority_of_sources` turns a count of messages into a majority: a list of messages from pairwise
different members, long enough, names a majority. `exists_members_of_nodup` counts members through
items of which no two belong to the same member.

A sample is taken while levels grow, so its reports are older than the moment at which a bound is
needed. `Fenced` is the invariant that makes sampling sound over a run: a majority has level at
least `t`, and every report that one of its members has made under a name is at least `t`. It holds
when a majority holds `t` and nothing has been reported under the name (`HeldByMajority.fenced`), it
is kept while levels grow and members report at least their level (`Fenced.step`), and it bounds
every majority of reports (`Fenced.le_of_reported`).
-/

set_option autoImplicit false
set_option relaxedAutoImplicit false

namespace Quorum

variable {ι : Type*} [Fintype ι] [DecidableEq ι]

/-- More than half of the members. -/
def IsMajority (members : Finset ι) : Prop :=
  Fintype.card ι < 2 * members.card

/-- Two majorities have a member in common. -/
theorem IsMajority.exists_mem_inter {first second : Finset ι} (hfirst : IsMajority first)
    (hsecond : IsMajority second) : ∃ i, i ∈ first ∧ i ∈ second := by
  have hcard : Fintype.card ι < first.card + second.card := by
    unfold IsMajority at hfirst hsecond
    omega
  by_contra hnone
  have hdisjoint : Disjoint first second :=
    Finset.disjoint_left.mpr fun i hi hi' ↦ hnone ⟨i, hi, hi'⟩
  have hunion := Finset.card_le_univ (first ∪ second)
  rw [Finset.card_union_of_disjoint hdisjoint] at hunion
  omega

omit [DecidableEq ι] in
/-- A set that contains a majority is a majority. -/
theorem IsMajority.mono {first second : Finset ι} (hfirst : IsMajority first)
    (hsubset : first ⊆ second) : IsMajority second := by
  have hcard := Finset.card_le_card hsubset
  unfold IsMajority at hfirst ⊢
  omega

omit [DecidableEq ι] in
/-- A majority has a member. -/
theorem IsMajority.nonempty {members : Finset ι} (h : IsMajority members) : members.Nonempty := by
  rw [← Finset.card_pos]
  unfold IsMajority at h
  omega

/-- Messages from pairwise different members, more than half as many as there are members, come
from a majority. -/
theorem isMajority_of_sources {μ : Type*} {messages : List μ} {source : μ → ι}
    (hnodup : (messages.map source).Nodup) (hcount : Fintype.card ι < 2 * messages.length) :
    IsMajority (messages.map source).toFinset := by
  unfold IsMajority
  rw [List.toFinset_card_of_nodup hnodup, List.length_map]
  exact hcount

omit [Fintype ι] in
/-- If every member of a set has sent a message, there are at least as many messages as members. -/
theorem card_le_of_sources {α : Type*} {members : Finset ι} {messages : List (ι × α)}
    (hsent : ∀ i ∈ members, ∃ a, (i, a) ∈ messages) : members.card ≤ messages.length := by
  have hsub : members ⊆ (messages.map Prod.fst).toFinset := by
    intro i hi
    obtain ⟨a, ha⟩ := hsent i hi
    exact List.mem_toFinset.mpr (List.mem_map_of_mem (f := Prod.fst) ha)
  calc members.card ≤ (messages.map Prod.fst).toFinset.card := Finset.card_le_card hsub
    _ ≤ (messages.map Prod.fst).length := List.toFinset_card_le _
    _ = messages.length := List.length_map _

omit [Fintype ι] in
/-- Different items that belong to members, no two of them to the same one, belong to as many
members. -/
theorem exists_members_of_nodup {μ : Type*} {items : List μ} (hnodup : items.Nodup)
    {belongs : μ → ι → Prop} (hmember : ∀ x ∈ items, ∃ i, belongs x i)
    (hunique : ∀ x ∈ items, ∀ y ∈ items, ∀ i, belongs x i → belongs y i → x = y) :
    ∃ members : Finset ι, members.card = items.length ∧
      ∀ i ∈ members, ∃ x ∈ items, belongs x i := by
  induction items with
  | nil => exact ⟨∅, rfl, fun i hi ↦ absurd hi (Finset.notMem_empty i)⟩
  | cons x rest ih =>
    obtain ⟨hx, hrest⟩ := List.nodup_cons.mp hnodup
    obtain ⟨members, hcard, hbelongs⟩ := ih hrest
      (fun y hy ↦ hmember y (List.mem_cons_of_mem _ hy))
      fun y hy z hz ↦ hunique y (List.mem_cons_of_mem _ hy) z (List.mem_cons_of_mem _ hz)
    obtain ⟨i, hi⟩ := hmember x List.mem_cons_self
    have hnew : i ∉ members := fun hold ↦ by
      obtain ⟨y, hy, hyi⟩ := hbelongs i hold
      exact hx (hunique x List.mem_cons_self y (List.mem_cons_of_mem _ hy) i hi hyi ▸ hy)
    refine ⟨insert i members, by rw [Finset.card_insert_of_notMem hnew, hcard, List.length_cons],
      fun j hj ↦ ?_⟩
    rcases Finset.mem_insert.mp hj with rfl | hold
    · exact ⟨x, List.mem_cons_self, hi⟩
    · obtain ⟨y, hy, hyj⟩ := hbelongs j hold
      exact ⟨y, List.mem_cons_of_mem _ hy, hyj⟩

variable {L : Type*} [Preorder L]

/-- A majority of members has level at least `t`. -/
def HeldByMajority (level : ι → L) (t : L) : Prop :=
  ∃ members : Finset ι, IsMajority members ∧ ∀ i ∈ members, t ≤ level i

omit [DecidableEq ι] in
/-- What a majority holds it still holds after the levels have grown. -/
theorem HeldByMajority.mono {level level' : ι → L} {t : L} (hheld : HeldByMajority level t)
    (hgrow : ∀ i, level i ≤ level' i) : HeldByMajority level' t := by
  obtain ⟨members, hmajority, hlevel⟩ := hheld
  exact ⟨members, hmajority, fun i hi ↦ (hlevel i hi).trans (hgrow i)⟩

omit [DecidableEq ι] in
/-- What a majority holds it holds also by a rank of the levels. -/
theorem HeldByMajority.map {L' : Type*} [Preorder L'] {rank : L → L'} (hrank : Monotone rank)
    {level : ι → L} {t : L} (hheld : HeldByMajority level t) :
    HeldByMajority (fun i ↦ rank (level i)) (rank t) := by
  obtain ⟨members, hmajority, hlevel⟩ := hheld
  exact ⟨members, hmajority, fun i hi ↦ hrank (hlevel i hi)⟩

/-! ### Reports -/

section Reports

variable {κ α : Type*}

/-- A majority of members has sent a message under the name, each one that satisfies `P`. -/
def ReportedByMajority (sent : List (ι × κ × α)) (name : κ) (P : ι → α → Prop) : Prop :=
  ∃ members : Finset ι, IsMajority members ∧
    ∀ i ∈ members, ∃ a, (i, name, a) ∈ sent ∧ P i a

/-- Enough messages from pairwise different members are the reports of a majority. -/
theorem ReportedByMajority.of_messages {sent : List (ι × κ × α)} {name : κ} {P : ι → α → Prop}
    {messages : List (ι × α)} (hnodup : (messages.map Prod.fst).Nodup)
    (hcount : Fintype.card ι < 2 * messages.length)
    (hsent : ∀ m ∈ messages, (m.1, name, m.2) ∈ sent ∧ P m.1 m.2) :
    ReportedByMajority sent name P := by
  refine ⟨(messages.map Prod.fst).toFinset, isMajority_of_sources hnodup hcount, fun i hi ↦ ?_⟩
  obtain ⟨m, hm, rfl⟩ := List.mem_map.mp (List.mem_toFinset.mp hi)
  exact ⟨m.2, hsent m hm⟩

omit [DecidableEq ι] in
/-- The reports of a majority stay reported, also under a weaker requirement. -/
theorem ReportedByMajority.mono {sent sent' : List (ι × κ × α)} {name : κ} {P P' : ι → α → Prop}
    (h : ReportedByMajority sent name P) (hsent : ∀ m ∈ sent, m ∈ sent')
    (hweaker : ∀ i a, (i, name, a) ∈ sent → P i a → P' i a) :
    ReportedByMajority sent' name P' := by
  obtain ⟨members, hmajority, hreport⟩ := h
  refine ⟨members, hmajority, fun i hi ↦ ?_⟩
  obtain ⟨a, ha, hP⟩ := hreport i hi
  exact ⟨a, hsent _ ha, hweaker i a ha hP⟩

omit [DecidableEq ι] in
/-- If every report of a majority bounds the level of its member from below by `t`, a majority
holds `t`. -/
theorem ReportedByMajority.held {sent : List (ι × κ × α)} {name : κ} {P : ι → α → Prop}
    {level : ι → L} {t : L} (h : ReportedByMajority sent name P)
    (hlevel : ∀ i a, (i, name, a) ∈ sent → P i a → t ≤ level i) : HeldByMajority level t := by
  obtain ⟨members, hmajority, hreport⟩ := h
  refine ⟨members, hmajority, fun i hi ↦ ?_⟩
  obtain ⟨a, ha, hP⟩ := hreport i hi
  exact hlevel i a ha hP

/-- A majority of members has level at least `t`, and whatever they reported under the name is at
least `t`. The relation `report` says which level a message reports. -/
def Fenced (sent : List (ι × κ × α)) (name : κ) (report : α → L → Prop) (level : ι → L) (t : L) :
    Prop :=
  ∃ members : Finset ι, IsMajority members ∧
    ∀ i ∈ members, t ≤ level i ∧ ∀ a, (i, name, a) ∈ sent → ∀ l, report a l → t ≤ l

variable {sent sent' : List (ι × κ × α)} {name : κ} {report : α → L → Prop} {level level' : ι → L}
  {t : L}

omit [DecidableEq ι] in
/-- What a majority holds is fenced under a name that was not used. -/
theorem HeldByMajority.fenced (h : HeldByMajority level t) (hnew : ∀ i a, (i, name, a) ∉ sent) :
    Fenced sent name report level t := by
  obtain ⟨members, hmajority, hlevel⟩ := h
  exact ⟨members, hmajority, fun i hi ↦ ⟨hlevel i hi, fun a ha ↦ absurd ha (hnew i a)⟩⟩

omit [DecidableEq ι] in
/-- A value stays fenced while levels grow and every new report is at least the level that its
member had. -/
theorem Fenced.step (h : Fenced sent name report level t) (hgrow : ∀ i, level i ≤ level' i)
    (hnew : ∀ i a, (i, name, a) ∈ sent' → (i, name, a) ∉ sent → ∀ l, report a l → level i ≤ l) :
    Fenced sent' name report level' t := by
  obtain ⟨members, hmajority, hfence⟩ := h
  refine ⟨members, hmajority, fun i hi ↦ ?_⟩
  obtain ⟨hlevel, hreported⟩ := hfence i hi
  refine ⟨hlevel.trans (hgrow i), fun a ha l hl ↦ ?_⟩
  by_cases hold : (i, name, a) ∈ sent
  · exact hreported a hold l hl
  · exact hlevel.trans (hnew i a ha hold l hl)

/-- A bound above the reports of a majority is above every fenced value. -/
theorem Fenced.le_of_reported (h : Fenced sent name report level t) {bound : L}
    (hreported : ReportedByMajority sent name fun _ a ↦ ∃ l, report a l ∧ l ≤ bound) :
    t ≤ bound := by
  obtain ⟨members, hmajority, hfence⟩ := h
  obtain ⟨members', hmajority', hreport⟩ := hreported
  obtain ⟨i, hi, hi'⟩ := hmajority.exists_mem_inter hmajority'
  obtain ⟨a, ha, l, hl, hbound⟩ := hreport i hi'
  exact ((hfence i hi).2 a ha l hl).trans hbound

end Reports

end Quorum
