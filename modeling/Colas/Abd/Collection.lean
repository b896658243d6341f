import Colas.Abd.Client
import Colas.Sodaw.Server

/-!
# The collection phase of an ABD read

`ABD_get_max_tag_value_phase` receives messages until a majority of them are responses to its own
request. `collect` is its loop over a sequence of messages, which may be responses of either
protocol to any operation of the process; a turn on a response of the ABD protocol is
`abdGetMaxTagValuePhase`.

Every turn calls `print_out_hash_in_order` on the message before the message is compared with the
request, and that function ends the process if the message has a payload of less than 100 bytes.
`collect_eq_left` and `collect_eq_exited` say what the loop does without and with such a message;
`collect_returns_iff` puts them together: the phase returns after the response that makes a
majority, with a version that no other response exceeds, exactly if all payloads that it received
have at least 100 bytes.
-/

set_option autoImplicit false
set_option relaxedAutoImplicit false

namespace Colas.Abd

/-- A message that the client process receives: the response of a server of either protocol. -/
inductive Received
  | abd (round : ℕ) (phase : Phase) (frames : Body)
  | sodaw (round : ℕ) (phase : Sodaw.Phase) (frames : Body)
  deriving DecidableEq

namespace Received

/-- The frames of a message. -/
def frames : Received → Body
  | abd _ _ frames => frames
  | sodaw _ _ frames => frames

/-- The message has a payload frame. -/
def HasPayload : Received → Prop
  | abd _ phase _ => phase = .getTagValue
  | sodaw _ phase _ => phase = .readValue

/-- The message is a response to the request of the phase. -/
def Matches (opNum : ℕ) : Received → Prop
  | abd round phase _ => round = opNum ∧ phase = .getTagValue
  | sodaw _ _ _ => False

instance (m : Received) : Decidable m.HasPayload := by
  cases m <;> unfold HasPayload <;> infer_instance

instance (opNum : ℕ) (m : Received) : Decidable (m.Matches opNum) := by
  cases m <;> unfold Matches <;> infer_instance

/-- `print_out_hash_in_order` lets the process go on. -/
def Printable (m : Received) : Prop := m.HasPayload → 100 ≤ m.frames.payload.length

instance (m : Received) : Decidable m.Printable := by
  unfold Printable
  infer_instance

/-- The tag and the payload of a message. -/
def version (m : Received) : Tag × Frame := (m.frames.tagValue, m.frames.payload)

end Received

/-- The variables of the loop: the number of responses, the greatest tag, and its data. -/
abbrev LoopState := ℕ × Tag × Option Frame

/-- One turn of the loop of `ABD_get_max_tag_value_phase` on any message. -/
def collectTurn (strcmp : Strcmp) (numServers opNum : ℕ) (s : LoopState) :
    Received → Option (Loop LoopState (Tag × Frame))
  | .abd round phase frames =>
    abdGetMaxTagValuePhase strcmp numServers opNum s.1 s.2.1 s.2.2 round phase frames
  | .sodaw _ phase frames => do
    let _recvTag ← stringToTag frames.tag
    if phase = .readValue ∧ frames.payload.length < 100 then some .exit else some (.again s)

/-- What a receive loop has come to after a sequence of messages. -/
inductive Outcome (σ ρ μ : Type)
  /-- It waits for more messages. -/
  | waiting (state : σ)
  /-- It has returned, and these messages are left. -/
  | left (result : ρ) (rest : List μ)
  /-- The process has ended. -/
  | exited
  deriving DecidableEq

/-- Take the turns of a loop on the messages of a sequence. -/
def receiveLoop {σ ρ μ : Type} (turn : σ → μ → Option (Loop σ ρ)) (s : σ) :
    List μ → Option (Outcome σ ρ μ)
  | [] => some (.waiting s)
  | m :: rest => do
    match ← turn s m with
    | .again s => receiveLoop turn s rest
    | .leave result => some (.left result rest)
    | .exit => some .exited

/-- `ABD_get_max_tag_value_phase` on a sequence of messages. -/
def collect (strcmp : Strcmp) (numServers opNum : ℕ) (messages : List Received) :
    Option (Outcome LoopState (Tag × Frame) Received) :=
  receiveLoop (collectTurn strcmp numServers opNum) (0, ⟨-1, []⟩, none) messages

/-- The versions of the responses to the request of the phase. -/
def versions (opNum : ℕ) (messages : List Received) : List (Tag × Frame) :=
  (messages.filter (·.Matches opNum)).map Received.version

/-- The greatest tag and its data after these versions. -/
def scan (strcmp : Strcmp) (seen : List (Tag × Frame)) : Tag × Option Frame :=
  seen.foldl (fun s version ↦ updateMaxTagValue strcmp s.1 s.2 version.1 version.2)
    (⟨-1, []⟩, none)

/-! ### The greatest version -/

section Scan

variable (strcmp : Strcmp) {seen : List (Tag × Frame)}

theorem scan_append_singleton (version : Tag × Frame) : scan strcmp (seen ++ [version]) =
    updateMaxTagValue strcmp (scan strcmp seen).1 (scan strcmp seen).2 version.1 version.2 := by
  rw [scan, List.foldl_append]
  rfl

/-- The scan of versions with nonnegative version numbers ends in one that no other exceeds. -/
theorem scan_spec (hne : seen ≠ []) (hnonneg : ∀ version ∈ seen, 0 ≤ version.1.number) :
    ∃ data, (scan strcmp seen).2 = some data ∧ ((scan strcmp seen).1, data) ∈ seen ∧
      ∀ version ∈ seen, version.1 ≤ (scan strcmp seen).1 := by
  induction seen using List.reverseRecOn with
  | nil => exact absurd rfl hne
  | append_singleton seen version ih =>
    rw [scan_append_singleton]
    have hlast : version ∈ seen ++ [version] := List.mem_append_right _ (List.mem_singleton_self _)
    by_cases hseen : seen = []
    · subst hseen
      have hless : compareTagPtrs strcmp ⟨-1, []⟩ version.1 < 0 :=
        (compareTagPtrs_neg_iff strcmp _ _).mpr ((Tag.lt_iff _ _).mpr
          (Or.inl (lt_of_lt_of_le (show (-1 : ℤ) < 0 by norm_num) (hnonneg version hlast))))
      refine ⟨version.2, ?_⟩
      simp [scan, updateMaxTagValue, hless]
    · obtain ⟨data, hdata, hmem, hle⟩ :=
        ih hseen fun version' h ↦ hnonneg version' (List.mem_append_left _ h)
      obtain ⟨hold, hnew⟩ := le_updateMaxTagValue strcmp (scan strcmp seen).1
        (scan strcmp seen).2 version.1 version.2
      have hbound : ∀ version' ∈ seen ++ [version], version'.1 ≤ (updateMaxTagValue strcmp
          (scan strcmp seen).1 (scan strcmp seen).2 version.1 version.2).1 := by
        intro version' hversion
        rcases List.mem_append.mp hversion with h | h
        · exact (hle version' h).trans hold
        · exact List.mem_singleton.mp h ▸ hnew
      rcases updateMaxTagValue_eq_or strcmp (scan strcmp seen).1 (scan strcmp seen).2 version.1
        version.2 with heq | heq <;> rw [heq] at hbound ⊢
      · exact ⟨data, hdata, List.mem_append_left _ hmem, hbound⟩
      · exact ⟨version.2, rfl, hlast, hbound⟩

end Scan

/-! ### The loop -/

section Collect

variable (strcmp : Strcmp) {numServers opNum : ℕ} {m : Received} {s : LoopState}

/-- The tag of a message fits into its buffer and can be parsed, and the tag of a response has a
nonnegative version number. -/
def Received.Parses (opNum : ℕ) (m : Received) : Prop :=
  stringToTag m.frames.tag = some m.frames.tagValue ∧ m.frames.tag.length < bufsize ∧
    (m.Matches opNum → 0 ≤ m.frames.tagValue.number)

/-- A message with a small payload ends the process. -/
theorem collectTurn_exit (hparses : m.Parses opNum) (hsmall : ¬ m.Printable) :
    collectTurn strcmp numServers opNum s m = some .exit := by
  obtain ⟨hpayload, hlength⟩ := Classical.not_imp.mp hsmall
  obtain ⟨htag, -⟩ := hparses
  cases m with
  | abd round phase frames =>
    have hphase : phase = .getTagValue := hpayload
    have hless : frames.payload.length < 100 := not_le.mp hlength
    have hparse : stringToTag frames.tag = some frames.tagValue := htag
    simp [collectTurn, abdGetMaxTagValuePhase, hparse, hphase, hless]
  | sodaw round phase frames =>
    have hphase : phase = .readValue := hpayload
    have hless : frames.payload.length < 100 := not_le.mp hlength
    have hparse : stringToTag frames.tag = some frames.tagValue := htag
    simp [collectTurn, hparse, hphase, hless]

/-- A printable message that is not a response to the request changes nothing. -/
theorem collectTurn_stale (hparses : m.Parses opNum) (hprint : m.Printable)
    (hstale : ¬ m.Matches opNum) : collectTurn strcmp numServers opNum s m = some (.again s) := by
  obtain ⟨htag, -⟩ := hparses
  cases m with
  | abd round phase frames =>
    have hlarge : ¬ (phase = .getTagValue ∧ frames.payload.length < 100) := fun h ↦
      not_le.mpr h.2 (hprint h.1)
    have hother : ¬ (round = opNum ∧ phase = .getTagValue) := hstale
    have hparse : stringToTag frames.tag = some frames.tagValue := htag
    simp [collectTurn, abdGetMaxTagValuePhase, hparse, hlarge, hother]
  | sodaw round phase frames =>
    have hlarge : ¬ (phase = .readValue ∧ frames.payload.length < 100) := fun h ↦
      not_le.mpr h.2 (hprint h.1)
    have hparse : stringToTag frames.tag = some frames.tagValue := htag
    simp [collectTurn, hparse, hlarge]

/-- A response to the request that does not make a majority is counted. -/
theorem collectTurn_again (hparses : m.Parses opNum) (hprint : m.Printable)
    (hmatches : m.Matches opNum) (hfew : s.1 + 1 < majority numServers) :
    collectTurn strcmp numServers opNum s m = some (.again
      (s.1 + 1, updateMaxTagValue strcmp s.2.1 s.2.2 m.version.1 m.version.2)) := by
  obtain ⟨htag, -⟩ := hparses
  cases m with
  | abd round phase frames =>
    obtain ⟨rfl, rfl⟩ : round = opNum ∧ phase = .getTagValue := hmatches
    have hlarge : ¬ frames.payload.length < 100 := not_lt.mpr (hprint rfl)
    have hparse : stringToTag frames.tag = some frames.tagValue := htag
    simp [collectTurn, abdGetMaxTagValuePhase, hparse, hlarge, not_le.mpr hfew, Received.version,
      Received.frames]
  | sodaw => exact hmatches.elim

/-- The response that makes a majority ends the loop. -/
theorem collectTurn_leave (hparses : m.Parses opNum) (hprint : m.Printable)
    (hmatches : m.Matches opNum) (hmany : majority numServers ≤ s.1 + 1) {data : Frame}
    (hdata : (updateMaxTagValue strcmp s.2.1 s.2.2 m.version.1 m.version.2).2 = some data) :
    collectTurn strcmp numServers opNum s m = some (.leave
      ((updateMaxTagValue strcmp s.2.1 s.2.2 m.version.1 m.version.2).1, data)) := by
  obtain ⟨htag, -⟩ := hparses
  cases m with
  | abd round phase frames =>
    obtain ⟨rfl, rfl⟩ : round = opNum ∧ phase = .getTagValue := hmatches
    have hlarge : ¬ frames.payload.length < 100 := not_lt.mpr (hprint rfl)
    have hparse : stringToTag frames.tag = some frames.tagValue := htag
    have hvalue : (updateMaxTagValue strcmp s.2.1 s.2.2 frames.tagValue frames.payload).2 =
        some data := hdata
    simp [collectTurn, abdGetMaxTagValuePhase, hparse, hlarge, hmany, hvalue, Received.version,
      Received.frames]
  | sodaw => exact hmatches.elim

/-- Before a majority, printable messages leave the loop with the number of responses and the
greatest version among them. -/
theorem receiveLoop_again (seen : List (Tag × Frame)) {before : List Received}
    (hparses : ∀ m ∈ before, m.Parses opNum) (hprint : ∀ m ∈ before, m.Printable)
    (hfew : seen.length + (versions opNum before).length < majority numServers)
    (rest : List Received) :
    receiveLoop (collectTurn strcmp numServers opNum) (seen.length, scan strcmp seen)
        (before ++ rest) =
      receiveLoop (collectTurn strcmp numServers opNum)
        ((seen ++ versions opNum before).length, scan strcmp (seen ++ versions opNum before))
        rest := by
  induction before generalizing seen with
  | nil => simp [versions]
  | cons m before ih =>
    have hm := hparses m List.mem_cons_self
    have hp := hprint m List.mem_cons_self
    have hparses' : ∀ m' ∈ before, m'.Parses opNum := fun m' h ↦
      hparses m' (List.mem_cons_of_mem _ h)
    have hprint' : ∀ m' ∈ before, m'.Printable := fun m' h ↦ hprint m' (List.mem_cons_of_mem _ h)
    rw [List.cons_append, receiveLoop]
    by_cases hmatches : m.Matches opNum
    · have hversions : versions opNum (m :: before) = m.version :: versions opNum before := by
        simp [versions, hmatches]
      rw [hversions, List.length_cons] at hfew
      rw [collectTurn_again strcmp hm hp hmatches (by omega), hversions]
      have hnext := ih (seen ++ [m.version]) hparses' hprint'
        (by rw [List.length_append, List.length_singleton]; omega)
      rw [scan_append_singleton, List.length_append, List.length_singleton, List.append_assoc,
        List.singleton_append] at hnext
      exact hnext
    · have hversions : versions opNum (m :: before) = versions opNum before := by
        simp [versions, hmatches]
      rw [hversions] at hfew ⊢
      rw [collectTurn_stale strcmp hm hp hmatches]
      exact ih seen hparses' hprint' hfew

variable {before : List Received} {last : Received}

/-- The loop after printable messages that are not a majority. -/
theorem collect_append (hparses : ∀ m ∈ before, m.Parses opNum)
    (hprint : ∀ m ∈ before, m.Printable)
    (hfew : (versions opNum before).length < majority numServers) (rest : List Received) :
    collect strcmp numServers opNum (before ++ rest) =
      receiveLoop (collectTurn strcmp numServers opNum)
        ((versions opNum before).length, scan strcmp (versions opNum before)) rest := by
  have hloop := receiveLoop_again strcmp [] hparses hprint
    (by rwa [List.length_nil, Nat.zero_add]) rest
  rw [List.nil_append] at hloop
  exact hloop

/-- The messages end with the response that makes a majority. -/
structure MakesMajority (numServers opNum : ℕ) (before : List Received) (last : Received) :
    Prop where
  /-- The last message is a response to the request. -/
  last_matches : last.Matches opNum
  /-- With it there is a majority. -/
  count : (versions opNum before).length + 1 = majority numServers
  /-- The tags can be parsed. -/
  parses : ∀ m ∈ before ++ [last], m.Parses opNum

theorem MakesMajority.versions_eq (h : MakesMajority numServers opNum before last) :
    versions opNum (before ++ [last]) = versions opNum before ++ [last.version] := by
  simp [versions, h.last_matches]

/-- If all payloads are large enough, the loop ends with the response that makes a majority, and
its result is the version of a response that no other response exceeds. -/
theorem collect_eq_left (h : MakesMajority numServers opNum before last)
    (hprint : ∀ m ∈ before ++ [last], m.Printable) (rest : List Received) :
    ∃ result, collect strcmp numServers opNum (before ++ last :: rest) =
        some (.left result rest) ∧
      result ∈ versions opNum (before ++ [last]) ∧
        ∀ version ∈ versions opNum (before ++ [last]), version.1 ≤ result.1 := by
  have hcount := h.count
  have hlast : last ∈ before ++ [last] := List.mem_append_right _ (List.mem_singleton_self _)
  have hnonneg : ∀ version ∈ versions opNum (before ++ [last]), 0 ≤ version.1.number := by
    intro version hversion
    obtain ⟨m, hm, rfl⟩ := List.mem_map.mp hversion
    obtain ⟨hmem, hmatches⟩ := List.mem_filter.mp hm
    exact (h.parses m hmem).2.2 (of_decide_eq_true hmatches)
  have hne : versions opNum (before ++ [last]) ≠ [] := by simp [h.versions_eq]
  obtain ⟨data, hdata, hmem, hle⟩ := scan_spec strcmp hne hnonneg
  refine ⟨((scan strcmp (versions opNum (before ++ [last]))).1, data), ?_, hmem, hle⟩
  rw [h.versions_eq, scan_append_singleton] at hdata ⊢
  rw [collect_append strcmp (fun m hm ↦ h.parses m (List.mem_append_left _ hm))
    (fun m hm ↦ hprint m (List.mem_append_left _ hm)) (by omega)]
  have hleave := collectTurn_leave strcmp (h.parses last hlast) (hprint last hlast) h.last_matches
    (s := ((versions opNum before).length, scan strcmp (versions opNum before))) hcount.ge hdata
  rw [receiveLoop, hleave, Option.bind_eq_bind, Option.bind_some]

/-- If some payload is too small, the process ends. -/
theorem collect_eq_exited (h : MakesMajority numServers opNum before last)
    (hsmall : ¬ ∀ m ∈ before ++ [last], m.Printable) (rest : List Received) :
    collect strcmp numServers opNum (before ++ last :: rest) = some .exited := by
  have hcount := h.count
  -- the loop stops at the first message with a small payload
  obtain ⟨m, hm⟩ : ∃ m, (before ++ [last]).find? (¬ ·.Printable) = some m := by
    rw [← Option.isSome_iff_exists, List.find?_isSome]
    simpa using hsmall
  obtain ⟨hnot, first, others, hsplit, hfirst⟩ := List.find?_eq_some_iff_append.mp hm
  have hall : before ++ last :: rest = first ++ m :: (others ++ rest) := by
    calc before ++ last :: rest = (before ++ [last]) ++ rest := by simp
      _ = first ++ m :: (others ++ rest) := by rw [hsplit]; simp
  have hfew : (versions opNum first).length < majority numServers := by
    have htotal : (versions opNum (first ++ m :: others)).length = majority numServers := by
      rw [← hsplit, h.versions_eq, List.length_append, List.length_singleton, hcount]
    have hlast : last ∈ m :: others := by
      have hget : (first ++ m :: others).getLast? = some last := by simp [← hsplit]
      rw [List.getLast?_append_of_ne_nil _ (List.cons_ne_nil m others)] at hget
      exact List.mem_of_getLast? hget
    have hne : versions opNum (m :: others) ≠ [] := by
      have hversion : last.version ∈ versions opNum (m :: others) :=
        List.mem_map_of_mem (List.mem_filter.mpr ⟨hlast, decide_eq_true h.last_matches⟩)
      exact List.ne_nil_of_mem hversion
    have hpos := List.length_pos_of_ne_nil hne
    rw [versions, List.filter_append, List.map_append, List.length_append] at htotal
    have hsum : (versions opNum first).length + (versions opNum (m :: others)).length =
        majority numServers := htotal
    omega
  have hfirst' : ∀ m' ∈ first, m' ∈ before ++ [last] := fun m' hm' ↦ by
    rw [hsplit]
    exact List.mem_append_left _ hm'
  have hmem : m ∈ before ++ [last] := List.mem_of_find?_eq_some hm
  rw [hall, collect_append strcmp (fun m' hm' ↦ h.parses m' (hfirst' m' hm'))
    (fun m' hm' ↦ by simpa using hfirst m' hm') hfew, receiveLoop,
    collectTurn_exit strcmp (h.parses m hmem) (by simpa using hnot)]
  rfl

/-- On messages that end with the response that makes a majority, the phase returns right after
that response, with the greatest version among the responses, exactly if every payload that it
received has at least 100 bytes. -/
theorem collect_returns_iff (h : MakesMajority numServers opNum before last)
    (rest : List Received) :
    (∃ result, collect strcmp numServers opNum (before ++ last :: rest) =
        some (.left result rest) ∧
      result ∈ versions opNum (before ++ [last]) ∧
        ∀ version ∈ versions opNum (before ++ [last]), version.1 ≤ result.1) ↔
      ∀ m ∈ before ++ [last], m.HasPayload → 100 ≤ m.frames.payload.length := by
  constructor
  · rintro ⟨result, hleft, -⟩
    by_contra hsmall
    rw [collect_eq_exited strcmp h hsmall rest] at hleft
    cases hleft
  · exact fun hprint ↦ collect_eq_left strcmp h hprint rest

end Collect

/-- A response to the second operation of a reader. -/
def sampleResponse (z : Int32) (payload : Frame) : Received :=
  .abd 2 .getTagValue ⟨ascii ['o'], tagToString ⟨z, ascii ['w']⟩, payload⟩

/-- A late response to the first operation of a reader. -/
def lateResponse (payload : Frame) : Received :=
  .abd 1 .getTagValue ⟨ascii ['o'], tagToString initTag, payload⟩

theorem parses_sampleResponse {z : Int32} (hz : 0 ≤ z.toInt) (payload : Frame) :
    (sampleResponse z payload).Parses 2 := by
  have htag : (sampleResponse z payload).frames.tagValue = ⟨z, ascii ['w']⟩ := by
    simp [sampleResponse, Received.frames]
  refine ⟨by simp [sampleResponse, Received.frames], ?_, fun _ ↦ htag ▸ hz⟩
  have hlength := Tag.length_decimal_le ⟨z, ascii ['w']⟩
  change (tagToString ⟨z, ascii ['w']⟩).length < 100
  have hid : (⟨z, ascii ['w']⟩ : Tag).id.length = 1 := rfl
  rw [tagToString, List.length_append, List.length_cons]
  omega

theorem makesMajority_sample (payload late : Frame) : MakesMajority 3 2
    [sampleResponse 5 payload, lateResponse late] (sampleResponse 4 payload) where
  last_matches := ⟨rfl, rfl⟩
  count := by rw [majority_eq]; rfl
  parses := by
    intro m hm
    simp only [List.cons_append, List.nil_append, List.mem_cons, List.not_mem_nil, or_false] at hm
    rcases hm with rfl | rfl | rfl
    · exact parses_sampleResponse (by decide) payload
    · exact ⟨by simp [lateResponse, Received.frames], show (tagToString initTag).length < bufsize by
        decide, fun h ↦ absurd h.1 (by decide)⟩
    · exact parses_sampleResponse (by decide) payload

/-- With payloads of 100 bytes the phase returns after the second response. -/
theorem collect_returns_sample : ∃ result,
    collect Strcmp.difference 3 2 [sampleResponse 5 (List.replicate 100 0),
        lateResponse (List.replicate 100 1), sampleResponse 4 (List.replicate 100 0),
        sampleResponse 6 (List.replicate 100 0)] =
      some (.left result [sampleResponse 6 (List.replicate 100 0)]) ∧
      result ∈ versions 2 [sampleResponse 5 (List.replicate 100 0),
        lateResponse (List.replicate 100 1), sampleResponse 4 (List.replicate 100 0)] ∧
      ∀ version ∈ versions 2 [sampleResponse 5 (List.replicate 100 0),
        lateResponse (List.replicate 100 1), sampleResponse 4 (List.replicate 100 0)],
          version.1 ≤ result.1 :=
  (collect_returns_iff Strcmp.difference
    (makesMajority_sample (List.replicate 100 0) (List.replicate 100 1))
    [sampleResponse 6 (List.replicate 100 0)]).mpr (by decide)

/-- A late response with an empty payload ends the process, although a majority has answered. -/
theorem collect_small_payload : MakesMajority 3 2
      [sampleResponse 5 (List.replicate 100 0), lateResponse []]
      (sampleResponse 4 (List.replicate 100 0)) ∧
    collect Strcmp.sign 3 2 [sampleResponse 5 (List.replicate 100 0), lateResponse [],
      sampleResponse 4 (List.replicate 100 0)] = some .exited :=
  ⟨makesMajority_sample _ _, by decide +kernel⟩

end Colas.Abd
