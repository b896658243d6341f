import Mathlib.Data.Finset.Dedup
import Colas.Library.Simulation
import Colas.Daemons.Routes

/-!
# What a controller is for

A controller keeps a directory of processes. When processes of one kind are registered, every
registered process of that kind is told all servers and is given a name of its own, by its place in
some order. A `Directory` does this in one step; the processes and their addresses are of any types,
and `host` says which process has an address.

`Told` is what every server can rely on: it knows exactly the servers that are registered. It holds
of the processes of all kinds if the servers are registered first (`AllTold`). `Named` says that the
servers are numbered from zero on without gaps and without repetition, except for those that are
readers or writers as well.
-/

set_option autoImplicit false
set_option relaxedAutoImplicit false

namespace Colas.Daemons

open TransitionSystem

/-- A directory, and what the processes have been told. -/
structure Directory (ι α ν : Type*) where
  /-- The addresses that are registered. -/
  registered : Kind → Finset α
  /-- The servers of which a process has been told. -/
  known : ι → Finset α
  /-- The name of a process. -/
  name : ι → ν

/-- What is done to a directory. -/
inductive Directory.Operation (ι α ν : Type*)
  /-- Processes of a kind are registered, and those of this kind are told in this order. -/
  | register (kind : Kind) (ips : Finset α) (order : List α)
  /-- The readers and the writers get other names. -/
  | rename (names : ι → ν)

/-- A process has one address. -/
def Unambiguous {ι α : Type*} (host : α → Option ι) : Prop :=
  ∀ a b i, host a = some i → host b = some i → a = b

namespace Directory

section Operations

variable {ι α ν : Type*} [DecidableEq ι] [DecidableEq α] (host : α → Option ι)
  (naming : Kind → ℕ → ν)

/-- One operation. -/
def step (d : Directory ι α ν) : Operation ι α ν → Option (Directory ι α ν)
  | .register kind ips order =>
    if order.Nodup ∧ order.toFinset = d.registered kind ∪ ips then
      let registered := Function.update d.registered kind (d.registered kind ∪ ips)
      some
        { registered := registered
          known := fun i ↦
            if ∃ a ∈ order, host a = some i then d.known i ∪ registered .server else d.known i
          name := fun i ↦
            match order.findIdx? fun a ↦ host a = some i with
            | some j => naming kind j
            | none => d.name i }
    else none
  | .rename names =>
    some { d with
      name := fun i ↦
        if ∃ a ∈ d.registered .reader ∪ d.registered .writer, host a = some i then names i
        else d.name i }

/-- Nothing is registered. -/
def start (names : ι → ν) : Directory ι α ν := ⟨fun _ ↦ ∅, fun _ ↦ ∅, names⟩

/-- Every server has been told of all servers, and no process of anything else. -/
structure Told (d : Directory ι α ν) : Prop where
  known_subset : ∀ i, d.known i ⊆ d.registered .server
  known_server : ∀ a ∈ d.registered .server, ∀ i, host a = some i →
    d.known i = d.registered .server

/-- Every process that is registered has been told of all servers. -/
def AllTold (d : Directory ι α ν) : Prop :=
  ∀ kind, ∀ a ∈ d.registered kind, ∀ i, host a = some i → d.known i = d.registered .server

/-- No new server is registered after a reader or a writer. -/
def ServersFirst (d : Directory ι α ν) : Operation ι α ν → Prop
  | .register kind ips _ => kind = .server →
    ips ⊆ d.registered .server ∨ d.registered .reader = ∅ ∧ d.registered .writer = ∅
  | .rename _ => True

/-- The process is registered as a reader or as a writer. -/
def IsClient (d : Directory ι α ν) (i : ι) : Prop :=
  ∃ a ∈ d.registered .reader ∪ d.registered .writer, host a = some i

/-- The servers are numbered, and their names are those of their numbers. -/
def Named (d : Directory ι α ν) : Prop :=
  ∃ order : List α, order.Nodup ∧ order.toFinset = d.registered .server ∧
    ∀ (j : ℕ) a i, order[j]? = some a → host a = some i → ¬ d.IsClient host i →
      d.name i = naming .server j

variable {host naming} {d d' : Directory ι α ν} {operation : Operation ι α ν}

omit [DecidableEq ι] [DecidableEq α] in
theorem told_start (names : ι → ν) : Told host (start names : Directory ι α ν) :=
  ⟨fun _ ↦ Finset.Subset.refl _, fun _ h ↦ absurd h (Finset.notMem_empty _)⟩

theorem register_cases {kind : Kind} {ips : Finset α} {order : List α}
    (h : d.step host naming (.register kind ips order) = some d') :
    order.Nodup ∧ order.toFinset = d'.registered kind ∧
      d'.registered kind = d.registered kind ∪ ips ∧
      (∀ kind', kind' ≠ kind → d'.registered kind' = d.registered kind') ∧
      ∀ i, (∃ a ∈ d'.registered kind, host a = some i) ∧
          d'.known i = d.known i ∪ d'.registered .server ∨
        (∀ a ∈ d'.registered kind, host a ≠ some i) ∧ d'.known i = d.known i ∧
          d'.name i = d.name i := by
  simp only [step, Option.ite_none_right_eq_some] at h
  obtain ⟨⟨hnodup, horder⟩, h⟩ := h
  obtain rfl := Option.some.inj h
  have hmem : ∀ a, a ∈ order ↔ a ∈ d.registered kind ∪ ips := fun a ↦ by
    rw [← horder, List.mem_toFinset]
  refine ⟨hnodup, by simpa using horder, by simp, fun kind' hne ↦ by simp [hne], fun i ↦ ?_⟩
  by_cases hhost : ∃ a ∈ order, host a = some i
  · obtain ⟨a, ha, hi⟩ := hhost
    refine Or.inl ⟨⟨a, by simpa using (hmem a).mp ha, hi⟩, ?_⟩
    exact if_pos ⟨a, ha, hi⟩
  · have hnone : ∀ a ∈ order, host a ≠ some i := fun a ha hi ↦ hhost ⟨a, ha, hi⟩
    refine Or.inr ⟨fun a ha ↦ hnone a ((hmem a).mpr (by simpa using ha)), if_neg hhost, ?_⟩
    have hfind : order.findIdx? (fun a ↦ decide (host a = some i)) = none :=
      List.findIdx?_eq_none_iff.mpr fun a ha ↦ decide_eq_false (hnone a ha)
    simp only [hfind]

theorem register_name {kind : Kind} {ips : Finset α} {order : List α} {a : α} {i : ι} {j : ℕ}
    (hhost : Unambiguous host) (h : d.step host naming (.register kind ips order) = some d')
    (ha : order[j]? = some a) (hi : host a = some i) : d'.name i = naming kind j := by
  obtain ⟨hnodup, -⟩ := register_cases h
  simp only [step, Option.ite_none_right_eq_some] at h
  obtain ⟨-, h⟩ := h
  obtain rfl := Option.some.inj h
  have hfind : order.findIdx? (fun a ↦ decide (host a = some i)) = some j := by
    obtain ⟨hlt, hget⟩ := List.getElem?_eq_some_iff.mp ha
    refine List.findIdx?_eq_some_iff_getElem.mpr ⟨hlt, by simp [hget, hi], fun k hk ↦ ?_⟩
    simp only [decide_eq_true_eq]
    intro heq
    have hsame : order[k] = order[j] := (hhost _ _ _ heq hi).trans hget.symm
    exact absurd ((hnodup.getElem_inj_iff).mp hsame) (Nat.ne_of_lt hk)
  simp only [hfind]

theorem Told.step (h : Told host d) (hstep : d.step host naming operation = some d') :
    Told host d' := by
  cases operation with
  | register kind ips order =>
    obtain ⟨-, -, hkind, hothers, hknown⟩ := register_cases hstep
    have hmono : d.registered .server ⊆ d'.registered .server := by
      by_cases hserver : Kind.server = kind
      · rw [hserver, hkind]
        exact Finset.subset_union_left
      · rw [hothers _ hserver]
    refine ⟨fun i ↦ ?_, fun a ha i hi ↦ ?_⟩
    · obtain ⟨-, heq⟩ | ⟨-, heq, -⟩ := hknown i
      · rw [heq]
        exact Finset.union_subset ((h.known_subset i).trans hmono) (Finset.Subset.refl _)
      · rw [heq]
        exact (h.known_subset i).trans hmono
    · obtain ⟨-, heq⟩ | ⟨hnone, heq, -⟩ := hknown i
      · rw [heq]
        exact Finset.union_eq_right.mpr ((h.known_subset i).trans hmono)
      · have hne : Kind.server ≠ kind := by
          rintro rfl
          exact hnone a ha hi
        rw [heq, hothers _ hne]
        exact h.known_server a (hothers _ hne ▸ ha) i hi
  | rename names =>
    obtain rfl := Option.some.inj hstep
    exact ⟨h.known_subset, h.known_server⟩

theorem AllTold.step (h : AllTold host d) (htold : Told host d)
    (hfirst : d.ServersFirst operation) (hstep : d.step host naming operation = some d') :
    AllTold host d' := by
  cases operation with
  | register kind ips order =>
    have htold' := htold.step hstep
    obtain ⟨-, -, hkind, hothers, hknown⟩ := register_cases hstep
    intro kind' a ha i hi
    obtain ⟨⟨b, -, -⟩, heq⟩ | ⟨hnone, heq, -⟩ := hknown i
    · refine Finset.Subset.antisymm (htold'.known_subset i) ?_
      rw [heq]
      exact Finset.subset_union_right
    · have hne : kind' ≠ kind := by
        rintro rfl
        exact hnone a ha hi
      have hold : a ∈ d.registered kind' := hothers _ hne ▸ ha
      have hsame : d'.registered .server = d.registered .server := by
        by_cases hserver : kind = .server
        · subst hserver
          rcases hfirst rfl with hsubset | ⟨hreaders, hwriters⟩
          · rw [hkind, Finset.union_eq_left.mpr hsubset]
          · cases kind' with
            | reader => exact absurd (hreaders ▸ hold) (Finset.notMem_empty _)
            | writer => exact absurd (hwriters ▸ hold) (Finset.notMem_empty _)
            | server => exact absurd rfl hne
        · exact hothers _ fun heq ↦ hserver heq.symm
      rw [heq, hsame]
      exact h kind' a hold i hi
  | rename names =>
    obtain rfl := Option.some.inj hstep
    exact h

theorem Named.step (hhost : Unambiguous host) (h : Named host naming d)
    (hstep : d.step host naming operation = some d') : Named host naming d' := by
  obtain ⟨numbers, hnodup, hall, hnames⟩ := h
  cases operation with
  | register kind ips order =>
    obtain ⟨hnodup', horder, hkind, hothers, hknown⟩ := register_cases hstep
    by_cases hserver : kind = .server
    · subst hserver
      exact ⟨order, hnodup', horder, fun j a i ha hi _ ↦ register_name hhost hstep ha hi⟩
    · refine ⟨numbers, hnodup, by rw [hall, hothers _ fun heq ↦ hserver heq.symm], ?_⟩
      intro j a i ha hi hclient
      have hsubset : ∀ kind', d.registered kind' ⊆ d'.registered kind' := fun kind' ↦ by
        by_cases heq : kind' = kind
        · rw [heq, hkind]
          exact Finset.subset_union_left
        · rw [hothers _ heq]
      have hold : ¬ d.IsClient host i := fun ⟨b, hb, hbi⟩ ↦ hclient
        ⟨b, Finset.union_subset_union (hsubset _) (hsubset _) hb, hbi⟩
      obtain ⟨⟨b, hb, hbi⟩, -⟩ | ⟨-, -, heq⟩ := hknown i
      · refine absurd ⟨b, ?_, hbi⟩ hclient
        rw [Finset.mem_union]
        cases kind with
        | reader => exact Or.inl hb
        | writer => exact Or.inr hb
        | server => exact absurd rfl hserver
      · rw [heq]
        exact hnames j a i ha hi hold
  | rename names =>
    obtain rfl := Option.some.inj hstep
    refine ⟨numbers, hnodup, hall, fun j a i ha hi hclient ↦ ?_⟩
    rw [← hnames j a i ha hi hclient]
    exact if_neg hclient

omit [DecidableEq ι] in
theorem named_start (names : ι → ν) : Named host naming (start names : Directory ι α ν) :=
  ⟨[], List.nodup_nil, rfl, fun _ _ _ h ↦ by simp at h⟩

/-- In every run a server knows all servers. -/
theorem told_of_run {names : ι → ν} (run : Run (step host naming) (fun _ _ ↦ True)
    (start names) d) : Told host d :=
  run.invariant (told_start names) fun _ _ _ h _ hstep ↦ h.step hstep

/-- In every run the servers are numbered. -/
theorem named_of_run (hhost : Unambiguous host) {names : ι → ν}
    (run : Run (step host naming) (fun _ _ ↦ True) (start names) d) : Named host naming d :=
  run.invariant (named_start names) fun _ _ _ h _ hstep ↦ h.step hhost hstep

/-- If the servers are registered first, all processes know them. -/
theorem allTold_of_run {names : ι → ν}
    (run : Run (step host naming) ServersFirst (start names) d) : AllTold host d :=
  run.invariant_reach (P := AllTold host) (fun _ _ h ↦ absurd h (Finset.notMem_empty _))
    fun _ _ _ hs h hfirst hstep ↦
      h.step (told_of_run (hs.weaken fun _ _ _ ↦ trivial)) hfirst hstep

end Operations

end Directory

end Colas.Daemons
