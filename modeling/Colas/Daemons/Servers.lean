import Mathlib.Data.List.Basic
import Colas.Utilities.Tag

/-!
# The way of the servers from the daemons to the socket

The daemons keep the names of the servers in `parameters.Ip_list`. `copyGoParamToCParam` copies them
to C, `get_servers_str` joins them with blanks, `count_num_servers` counts the names in the string,
`create_server_names` takes it apart, and `get_socket_servers` connects one socket to the names, the
first time it is called.

A write outside a buffer and a read of a name that is not there are the absence of a result. For
names that are not empty and have no blank, the way ends with the names with which it has begun
(`getSocketServers_joinNames`). A string of short names is parsed completely exactly if it does not
end with a blank (`parsedAll_iff`).
-/

set_option autoImplicit false
set_option relaxedAutoImplicit false

namespace Colas.Daemons

/-- A blank. -/
def blank : Byte := 32

/-- The fields of `Parameters` for the servers. -/
structure Parameters where
  /-- `Ip_list`. -/
  ipList : List CString
  /-- `Num_servers`. -/
  numServers : ℕ

/-- The fields of `C.Parameters` for the servers. -/
structure CParameters where
  /-- `num_servers`. -/
  numServers : ℕ
  /-- `ipaddresses`. -/
  ipaddresses : List CString

/-- `C.CString`: C takes the bytes before the first terminator. -/
def cString (s : CString) : CString := s.takeWhile (· ≠ 0)

/-- `strcpy` of a name to its buffer, which has 16 bytes. -/
def copyName (name : CString) : Option CString :=
  if (cString name).length < 16 then some (cString name) else none

/-- The loop of `copyGoParamToCParam` over the servers. -/
def copyGoParamToCParam (parameters : Parameters) : Option CParameters :=
  if parameters.numServers ≤ parameters.ipList.length then do
    let ipaddresses ← (parameters.ipList.take parameters.numServers).mapM copyName
    some ⟨parameters.numServers, ipaddresses⟩
  else none

/-- What `get_servers_str` writes: the names with blanks between them. -/
def joinNames : List CString → CString
  | [] => []
  | name :: rest => name ++ rest.flatMap (blank :: ·)

/-- `get_servers_str`, which reads the first name in any case. -/
def getServersStr (parameters : CParameters) : Option CString :=
  if parameters.ipaddresses = [] then none else some (joinNames parameters.ipaddresses)

/-- The field of `ClientArgs` for the servers. -/
structure ClientArgs where
  /-- `servers_str`. -/
  serversStr : CString

/-- `create_ClientArgs`. -/
def createClientArgs (parameters : CParameters) : Option ClientArgs := do
  let serversStr ← getServersStr parameters
  some ⟨serversStr⟩

/-- `count_num_servers`. -/
def countNumServers (serversStr : CString) : ℕ :=
  if serversStr = [] then 0 else 1 + serversStr.count blank

/-- The loops of `create_server_names`: the rest of the string, and what has been copied of the
name. -/
def copyServerNames (name : CString) : CString → List CString
  | [] => [name]
  | b :: rest =>
    if b = blank then name :: if rest = [] then [] else copyServerNames [] rest
    else copyServerNames (name ++ [b]) rest

/-- `create_server_names`: the names that are written. -/
def createServerNames (serversStr : CString) : List CString :=
  if serversStr = [] then [] else copyServerNames [] serversStr

/-- `get_socket_servers`, with the servers to which the socket is connected if there is one. -/
def getSocketServers (socket : Option (List CString)) (args : ClientArgs) :
    Option (List CString) :=
  match socket with
  | some endpoints => some endpoints
  | none =>
    let names := createServerNames args.serversStr
    let numServers := countNumServers args.serversStr
    if numServers ≤ names.length then some (names.take numServers) else none

/-! ### Names that arrive -/

section Names

variable {name : CString} {names rest : List CString}

/-- C finds the name of a server in a string in which it is joined with others. -/
def IsHost (name : CString) : Prop := cString name ≠ [] ∧ blank ∉ cString name

instance (name : CString) : Decidable (IsHost name) :=
  inferInstanceAs (Decidable (cString name ≠ [] ∧ blank ∉ cString name))

theorem countNumServers_joinNames (hne : names ≠ []) (hempty : ∀ name ∈ names, name ≠ [])
    (hblank : ∀ name ∈ names, blank ∉ name) : countNumServers (joinNames names) = names.length := by
  cases names with
  | nil => exact absurd rfl hne
  | cons name rest =>
    have hjoined : joinNames (name :: rest) ≠ [] := by
      simp [joinNames, hempty name List.mem_cons_self]
    have hname : name.count blank = 0 :=
      List.count_eq_zero.mpr (hblank name List.mem_cons_self)
    have hrest : (rest.flatMap (blank :: ·)).count blank = rest.length := by
      have hblank' : ∀ other ∈ rest, blank ∉ other := fun other hother ↦
        hblank other (List.mem_cons_of_mem _ hother)
      clear hjoined hne hempty hblank
      induction rest with
      | nil => rfl
      | cons other rest ih =>
        have hother : other.count blank = 0 :=
          List.count_eq_zero.mpr (hblank' other List.mem_cons_self)
        rw [List.flatMap_cons, List.count_append, List.count_cons_self, hother,
          ih fun other' h ↦ hblank' other' (List.mem_cons_of_mem _ h), List.length_cons]
        omega
    rw [countNumServers, if_neg hjoined, joinNames, List.count_append, hname, hrest,
      List.length_cons]
    omega

/-- The loops copy a name up to the blank behind it. -/
theorem copyServerNames_append (copied : CString) (hblank : blank ∉ name) (tail : CString) :
    copyServerNames copied (name ++ tail) = copyServerNames (copied ++ name) tail := by
  induction name generalizing copied with
  | nil => simp
  | cons b name ih =>
    have hb : ¬ b = blank := fun heq ↦ hblank (heq ▸ List.mem_cons_self)
    rw [List.cons_append, copyServerNames, if_neg hb,
      ih (copied ++ [b]) fun hmem ↦ hblank (List.mem_cons_of_mem _ hmem)]
    simp

theorem createServerNames_joinNames (hempty : ∀ name ∈ names, name ≠ [])
    (hblank : ∀ name ∈ names, blank ∉ name) : createServerNames (joinNames names) = names := by
  have hcopy : ∀ (rest : List CString) (name : CString), (∀ other ∈ name :: rest, other ≠ []) →
      (∀ other ∈ name :: rest, blank ∉ other) →
        copyServerNames [] (joinNames (name :: rest)) = name :: rest := by
    intro rest
    induction rest with
    | nil =>
      intro name _ hblank
      rw [joinNames, copyServerNames_append _ (hblank name List.mem_cons_self)]
      rfl
    | cons other rest ih =>
      intro name hempty hblank
      have hrest := ih other (fun x hx ↦ hempty x (List.mem_cons_of_mem _ hx))
        fun x hx ↦ hblank x (List.mem_cons_of_mem _ hx)
      obtain ⟨b, tail, htail⟩ := List.exists_cons_of_ne_nil
        (hempty other (List.mem_cons_of_mem _ List.mem_cons_self))
      rw [joinNames, copyServerNames_append _ (hblank name List.mem_cons_self)]
      rw [joinNames, htail] at hrest
      rw [List.flatMap_cons, htail, List.nil_append, List.cons_append, copyServerNames,
        if_pos rfl, if_neg (by simp), hrest]
  cases names with
  | nil => rfl
  | cons name rest =>
    have hjoined : joinNames (name :: rest) ≠ [] := by
      simp [joinNames, hempty name List.mem_cons_self]
    rw [createServerNames, if_neg hjoined, hcopy rest name hempty hblank]

/-- What C holds of the servers after all of them have been copied. -/
theorem copyGoParamToCParam_eq {cparameters : CParameters}
    (h : copyGoParamToCParam ⟨names, names.length⟩ = some cparameters) :
    cparameters = ⟨names.length, names.map cString⟩ := by
  have hcopy : ∀ {names copies : List CString}, names.mapM copyName = some copies →
      copies = names.map cString := by
    intro names
    induction names with
    | nil =>
      intro copies h
      simpa using h.symm
    | cons name names ih =>
      intro copies h
      simp only [List.mapM_cons, copyName, Option.bind_eq_bind, Option.bind_eq_some_iff,
        Option.ite_none_right_eq_some, Option.some.injEq, Option.pure_def] at h
      obtain ⟨_, ⟨-, rfl⟩, copies', hcopies, rfl⟩ := h
      rw [ih hcopies, List.map_cons]
  simp only [copyGoParamToCParam, le_refl, if_true, List.take_length, Option.bind_eq_bind,
    Option.bind_eq_some_iff, Option.some.injEq] at h
  obtain ⟨copies, hcopies, rfl⟩ := h
  rw [hcopy hcopies]

/-- The socket is connected to the names that have been joined. -/
theorem getSocketServers_joinNames (hhost : ∀ name ∈ names, IsHost name) (hne : names ≠ []) :
    getSocketServers none ⟨joinNames (names.map cString)⟩ = some (names.map cString) ∧
      countNumServers (joinNames (names.map cString)) = names.length := by
  have hempty : ∀ name ∈ names.map cString, name ≠ [] :=
    List.forall_mem_map.mpr fun name hname ↦ (hhost name hname).1
  have hblank : ∀ name ∈ names.map cString, blank ∉ name :=
    List.forall_mem_map.mpr fun name hname ↦ (hhost name hname).2
  have hcount := countNumServers_joinNames (by simpa using hne) hempty hblank
  rw [getSocketServers, createServerNames_joinNames hempty hblank, hcount]
  simp

end Names

/-! ### All strings -/

section Strings

variable {serversStr : CString}

theorem length_splitOn_blank (s : CString) : (s.splitOn blank).length = s.count blank + 1 := by
  induction s with
  | nil => rfl
  | cons b rest ih =>
    rw [List.splitOn_cons_eq_if_modifyHead, List.count_cons]
    split_ifs with hb
    · rw [List.length_cons, ih]
    · rw [List.length_modifyHead, ih]

theorem modifyHead_nil_append (pieces : List CString) : pieces.modifyHead ([] ++ ·) = pieces := by
  cases pieces <;> rfl

/-- A string that does not end with a blank is taken apart at its blanks. -/
theorem copyServerNames_eq_splitOn (copied : CString) {s : CString} (h : s.getLast? ≠ some blank) :
    copyServerNames copied s = (s.splitOn blank).modifyHead (copied ++ ·) := by
  induction s generalizing copied with
  | nil => simp [copyServerNames]
  | cons b rest ih =>
    have hrest : rest.getLast? ≠ some blank := fun hlast ↦ h (by
      rw [List.getLast?_cons, hlast, Option.getD_some])
    rw [List.splitOn_cons_eq_if_modifyHead, copyServerNames]
    by_cases hb : b = blank
    · have hne : rest ≠ [] := by
        rintro rfl
        exact h (by rw [hb]; rfl)
      rw [if_pos hb, if_neg hne, if_pos (by simpa using hb), ih [] hrest, modifyHead_nil_append]
      simp
    · rw [if_neg hb, if_neg (by simpa using hb), ih _ hrest, List.modifyHead_modifyHead]
      simp [Function.comp_def]

/-- A blank at the end is dropped. -/
theorem copyServerNames_concat_blank (copied s : CString) :
    copyServerNames copied (s ++ [blank]) = (s.splitOn blank).modifyHead (copied ++ ·) := by
  induction s generalizing copied with
  | nil => simp [copyServerNames]
  | cons b rest ih =>
    rw [List.cons_append, List.splitOn_cons_eq_if_modifyHead, copyServerNames]
    by_cases hb : b = blank
    · rw [if_pos hb, if_neg (by simp), if_pos (by simpa using hb), ih [], modifyHead_nil_append]
      simp
    · rw [if_neg hb, if_neg (by simpa using hb), ih, List.modifyHead_modifyHead]
      simp [Function.comp_def]

theorem joinNames_eq_intercalate (names : List CString) :
    joinNames names = [blank].intercalate names := by
  cases names with
  | nil => rfl
  | cons name rest =>
    rw [joinNames]
    induction rest generalizing name with
    | nil => simp
    | cons other rest ih =>
      rw [List.flatMap_cons, List.intercalate_cons_cons, ← ih other]
      simp

/-- The names of a string that does not end with a blank. -/
theorem createServerNames_eq_splitOn (hne : serversStr ≠ [])
    (hlast : serversStr.getLast? ≠ some blank) :
    createServerNames serversStr = serversStr.splitOn blank := by
  rw [createServerNames, if_neg hne, copyServerNames_eq_splitOn [] hlast, modifyHead_nil_append]

/-- A blank at the end is counted, but no name is made behind it. -/
theorem countNumServers_concat_blank (s : CString) :
    countNumServers (s ++ [blank]) = (createServerNames (s ++ [blank])).length + 1 := by
  rw [countNumServers, if_neg (by simp), createServerNames, if_neg (by simp),
    copyServerNames_concat_blank, modifyHead_nil_append, length_splitOn_blank, List.count_append]
  simp
  omega

/-- All names that `count_num_servers` counts are made, they fit into their 16 bytes, and joined
they are the string again. -/
structure ParsedAll (serversStr : CString) : Prop where
  /-- The entries that `destroy_server_names` frees are those that have been made. -/
  counted : (createServerNames serversStr).length = countNumServers serversStr
  /-- A name and its terminator fit. -/
  fits : ∀ name ∈ createServerNames serversStr, name.length < 16
  /-- The names are the pieces of the string. -/
  joined : joinNames (createServerNames serversStr) = serversStr

/-- Strings with pieces of at most 15 bytes are parsed completely exactly if they do not end with a
blank. -/
theorem parsedAll_iff (hpieces : ∀ piece ∈ serversStr.splitOn blank, piece.length ≤ 15) :
    ParsedAll serversStr ↔ serversStr.getLast? ≠ some blank := by
  constructor
  · intro h hlast
    obtain ⟨s, rfl⟩ := List.getLast?_eq_some_iff.mp hlast
    have hcounted := h.counted
    rw [countNumServers_concat_blank] at hcounted
    omega
  · intro hlast
    by_cases hne : serversStr = []
    · subst hne
      exact ⟨rfl, fun _ h ↦ absurd h List.not_mem_nil, rfl⟩
    · have hnames := createServerNames_eq_splitOn hne hlast
      refine ⟨?_, ?_, ?_⟩
      · rw [hnames, length_splitOn_blank, countNumServers, if_neg hne, add_comm]
      · rw [hnames]
        exact fun name hname ↦ Nat.lt_succ_of_le (hpieces name hname)
      · rw [hnames, joinNames_eq_intercalate, List.intercalate_splitOn]

theorem parsedAll_doubled_blanks : ParsedAll (ascii [' ', 'a', ' ', ' ', 'b']) :=
  (parsedAll_iff (by decide +kernel)).mpr (by decide)

/-- Of the two names that are counted in a string that ends with a blank, one is made. -/
theorem not_parsedAll : (∀ piece ∈ (ascii ['a', ' ']).splitOn blank, piece.length ≤ 15) ∧
    countNumServers (ascii ['a', ' ']) = 2 ∧ createServerNames (ascii ['a', ' ']) = [ascii ['a']] ∧
      ¬ ParsedAll (ascii ['a', ' ']) :=
  ⟨by decide +kernel, by decide, by decide, fun h ↦ absurd h.counted (by decide)⟩

end Strings

end Colas.Daemons
