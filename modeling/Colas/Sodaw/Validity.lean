import Colas.Sodaw.Atomicity
import Colas.Sodaw.Isolation

/-!
# The values of SODAW reads

A writer sends each server its own stripe, a server keeps and relays the stripe under the tag of the
write, and a reader collects stripes with one tag from different servers. Tags are unique, so they
are stripes of one payload, and with an odd number of servers there are as many as the code needs:
the reader decodes the payload (`decodeElements_eq`).

A version that was never written is an exception. `create_object` stores `init_data` itself, and not
a stripe of it, and a reader decodes it as if it were one: `undecodable_initial` is a run whose read
returns neither the initial data nor anything that was written. `readsValid` is about the runs in
which no reader collects a majority of elements with the initial tag.
-/

set_option autoImplicit false
set_option relaxedAutoImplicit false

namespace Colas.Sodaw

open TransitionSystem

variable {n : ℕ} {config : Config n} {object : CString} {s t : State n}

/-- Every read returns the payload of the write with the tag that it has decoded, or for the initial
tag the initial data. -/
def ReadsValid (config : Config n) (history : List Event) : Prop :=
  ∀ clientId opNum object tag value,
    .readCompleted clientId opNum object tag value ∈ history →
      (tag = initTag → value = config.initData.take config.parameters.filesize) ∧
        (tag ≠ initTag → ∃ writer opNum', .writeTagged writer opNum' object tag value ∈ history)

/-- Writers write files of the configured size. -/
def WritesFiles (config : Config n) : Action n → Prop
  | .invokeWrite _ _ _ payload => payload.length = config.parameters.filesize
  | _ => True

/-- The element does not complete a majority of elements with the initial tag for the operation. -/
def Client.AvoidsInitial (n round : ℕ) (frames : Body) : Client → Prop
  | .readValue opNum _ _ recvDataset none =>
    round = opNum → frames.tag = tagToString initTag →
      (dataList recvDataset frames.tag).length + 1 < majority n
  | _ => True

/-- No reader gets the element that completes a majority of elements with the initial tag. -/
def AvoidsInitial (s : State n) : Action n → Prop
  | .receiveElement element =>
    (s.clients element.2.1.client).AvoidsInitial n element.2.1.opnum element.2.2
  | _ => True

instance : (a : Action n) → Decidable (WritesFiles config a)
  | .invokeWrite _ _ _ payload =>
    inferInstanceAs (Decidable (payload.length = config.parameters.filesize))
  | .invokeRead .. | .serve _ | .serveNotice _ | .receive _ | .receiveElement _ | .timeout _
  | .stop _ => inferInstanceAs (Decidable True)

instance (round : ℕ) (frames : Body) :
    (client : Client) → Decidable (client.AvoidsInitial n round frames)
  | .readValue opNum _ _ recvDataset none =>
    inferInstanceAs (Decidable (round = opNum → frames.tag = tagToString initTag →
      (dataList recvDataset frames.tag).length + 1 < majority n))
  | .idle | .get .. | .writePut .. | .readValue _ _ _ _ (some _) | .exited =>
    inferInstanceAs (Decidable True)

instance (s : State n) : (a : Action n) → Decidable (AvoidsInitial s a)
  | .receiveElement element => inferInstanceAs
    (Decidable ((s.clients element.2.1.client).AvoidsInitial n element.2.1.opnum element.2.2))
  | .invokeWrite .. | .invokeRead .. | .serve _ | .serveNotice _ | .receive _ | .timeout _
  | .stop _ => inferInstanceAs (Decidable True)

/-! ### Decoding stripes -/

/-- What a writer sends to the servers. -/
theorem encodePayload_eq_some {payload : Frame} {written : EncodeData}
    (h : encodePayload config payload = some written) :
    createEncodeData config.parameters = some (freshEncodeData config.parameters) ∧
      written = encoded config.codecs (rawEncodeData config.parameters payload) := by
  simp only [encodePayload, Option.bind_eq_bind, Option.bind_eq_some_iff] at h
  obtain ⟨info, hcreate, hencode⟩ := h
  obtain ⟨-, -, -, -, rfl⟩ := createEncodeData_eq_some_iff.mp hcreate
  exact ⟨hcreate, (encode_eq_some_iff.mp hencode).2.symm⟩

/-- What a reader decodes from the stripes of a majority of different servers is the payload. -/
theorem decodeElements_eq
    (hk : ⌊(⌈(n : ℚ) + 1⌉₊ : ℚ) / 2⌋₊ = majority n) (hfile : 0 < config.parameters.filesize)
    (hdecodes : (config.codecs config.codingAlgorithm).Decodes) {payload : Frame}
    (hlength : payload.length = config.parameters.filesize) {written : EncodeData}
    (hencode : encodePayload config payload = some written) {servers : List (Fin n)}
    (hnodup : servers.Nodup) (hcount : servers.length = majority n) {success : Bool}
    {info : EncodeData}
    (hdecode : decodeElements config
      (servers.map fun i : Fin n ↦ written.encodedData.getD i.val []) = some (success, info)) :
    success = true ∧ info.decodedData.take info.rawDataSize = payload := by
  obtain ⟨hcreate, rfl⟩ := encodePayload_eq_some hencode
  obtain ⟨-, -, hnonempty, -, -⟩ := createEncodeData_eq_some_iff.mp hcreate
  rw [floor_ceil_add_one_div_two] at hk
  have hkpos : 0 < (n + 1) / 2 := hk ▸ majority_pos n
  set raw := rawEncodeData config.parameters payload with hraw
  set codec := config.codecs config.codingAlgorithm with hcodec
  set payloadSize := codec.payloadSize ((n + 1) / 2) symbolSize with hpayloadSize
  set blocks := fileBlocks config.parameters ((n + 1) / 2) with hblocksDef
  have hsymbol : symbolSize ≤ payloadSize := codec.symbolSize_le_payloadSize _ _
  have hblocks : blockCount raw = blocks := blockCount_rawEncodeData hlength
  have hservers : ∀ s ∈ servers.map Fin.val, s < raw.n := by
    intro s hs
    obtain ⟨i, -, rfl⟩ := List.mem_map.mp hs
    exact i.isLt
  set frames := (servers.map Fin.val).map fun s ↦
    (encoded config.codecs raw).encodedData.getD s [] with hframes
  have hstripes : (servers.map fun i : Fin n ↦
      (encoded config.codecs raw).encodedData.getD i.val []) = frames := by
    rw [hframes, List.map_map]
    rfl
  have hsize : ∀ dataFrame ∈ frames, dataFrame.length = blocks * payloadSize := by
    intro dataFrame hmem
    obtain ⟨s, hs, rfl⟩ := List.mem_map.mp hmem
    rw [getD_encoded (hservers s hs), length_stripe, hblocks]
    rfl
  have hframeCount : frames.length = (n + 1) / 2 := by
    rw [hframes, List.length_map, List.length_map, hcount, hk]
  simp only [decodeElements, hcreate, hstripes, Option.bind_eq_bind, Option.bind_some,
    Option.bind_eq_some_iff] at hdecode
  obtain ⟨read, hread, hdecode⟩ := hdecode
  -- the total size is an `int`, because the reader has added it up
  obtain ⟨htotal, rfl⟩ := of_getEncodedInfo hsize hframeCount
    (Nat.mul_pos (fileBlocks_pos hfile hkpos) hkpos) (lt_of_lt_of_le (by decide) hsymbol) hread
  have hdataSize : blocksSize raw < 2 ^ 31 := by
    refine lt_of_le_of_lt ?_ htotal
    rw [blocksSize, hblocks, Nat.mul_left_comm]
    exact Nat.mul_le_mul_left _ (Nat.mul_le_mul_left _ hsymbol)
  have hholds : HoldsStripes (encoded config.codecs raw) { freshEncodeData config.parameters with
      encodedData := frames
      encodedSymbolSize := payloadSize } (servers.map Fin.val) :=
    holdsStripes_of_collected hlength _
  rw [hholds.decode_eq hdecodes hkpos (hnodup.map Fin.val_injective) hservers
    (by rw [List.length_map, hcount, ← hk]; rfl) hdataSize, Option.some.injEq,
    Prod.mk.injEq] at hdecode
  obtain ⟨hsuccess, rfl⟩ := hdecode
  refine ⟨hsuccess.symm, ?_⟩
  have htake : ((List.range (blockCount raw)).flatMap (block raw)).take raw.rawDataSize = payload :=
    take_flatMap_block (Nat.pos_of_ne_zero hnonempty) rfl
  change ((List.range (blockCount raw)).flatMap (block raw)).take config.parameters.filesize =
    payload
  rw [← hlength]
  exact htake

/-! ### What writers send -/

/-- The request carries the stripe of the server for the payload of a write with its tag. -/
def CarriesStripe (config : Config n) (history : List Event) (i : Fin n) (name : CallId Phase)
    (frames : Body) : Prop :=
  ∃ payload written,
    .writeTagged name.client name.opnum frames.object frames.tagValue payload ∈ history ∧
      payload.length = config.parameters.filesize ∧
        encodePayload config payload = some written ∧
          frames.payload = written.encodedData.getD i.val []

/-- A writer has a file of the configured size, and a reader does not decode the initial tag. -/
def Configured (config : Config n) : Client → Prop
  | .get _ _ (.write payload) _ _ => payload.length = config.parameters.filesize
  | .readValue _ _ _ _ (some decodeableKey) => decodeableKey ≠ tagToString initTag
  | _ => True

/-- What holds in the runs whose writes and reads are as configured. -/
structure Striped (config : Config n) (s : State n) : Prop where
  request : ∀ {i name frames}, (i, name, frames) ∈ s.calls.requests.sent →
    name.phase = .writePut → CarriesStripe config s.history i name frames
  clients : ∀ clientId, Configured config (s.clients clientId)

theorem CarriesStripe.mono {history history' : List Event} {i : Fin n} {name : CallId Phase}
    {frames : Body} (h : CarriesStripe config history i name frames)
    (hsub : history ⊆ history') : CarriesStripe config history' i name frames := by
  obtain ⟨payload, written, hmem, hrest⟩ := h
  exact ⟨payload, written, hsub hmem, hrest⟩

theorem striped_initial : Striped config (State.initial : State n) where
  request := fun h ↦ absurd h List.not_mem_nil
  clients := fun _ ↦ trivial

/-- A turn keeps the stripes if its requests carry stripes and its client is as configured. -/
theorem Striped.takeTurn (h : Striped config s) {clientId : CString}
    {turn : Turn n Client Phase} (hclient : Configured config turn.client)
    (hmulticast : ∀ name content, turn.multicast = some (name, content) →
      name.phase = .writePut →
        ∀ i, CarriesStripe config (turn.event.toList ++ s.history) i name (content i)) :
    Striped config (s.takeTurn clientId turn) where
  request := fun {i name frames} hmem hphase ↦ by
    rcases (turn.mem_requests_sendOn s.calls).mp hmem with ⟨content, hcall, rfl⟩ | hold
    · exact hmulticast name content hcall hphase i
    · exact (h.request hold hphase).mono (List.subset_append_right _ _)
  clients := (Function.forall_update_iff s.clients fun _ client ↦ Configured config client).mpr
    ⟨hclient, fun other _ ↦ h.clients other⟩

/-- A turn on a message keeps a client as configured, if it does not complete a majority for the
initial tag. -/
theorem Receives.configured {clientId : CString} {opNum : ℕ} {phase : Phase} {frames : Body}
    {client : Client} {turn : Turn n Client Phase}
    (hturn : Receives clientId opNum frames phase client turn)
    (havoids : phase = .readValue → client.AvoidsInitial n opNum frames)
    (h : Configured config client) : Configured config turn.client := by
  cases hturn with
  | stale => exact h
  | @countTag object operation => cases operation <;> exact h
  | decide hle hmany =>
    intro hinit
    exact absurd hmany (not_le.mpr (havoids rfl rfl hinit))
  | _ => trivial

/-- The turns at the end of a loop keep clients as configured, and what they send carries
stripes. -/
theorem TimesOut.striped {history : List Event} {clientId : CString} {client : Client}
    {turn : Turn n Client Phase} (hturn : TimesOut config clientId client turn)
    (h : Configured config client) :
    Configured config turn.client ∧ ∀ name content, turn.multicast = some (name, content) →
      name.phase = .writePut →
        ∀ i, CarriesStripe config (turn.event.toList ++ history) i name (content i) := by
  cases hturn with
  | @startWrite opNum object payload responses tagList newTag encodedInfo hmany hnext hencode =>
    refine ⟨trivial, ?_⟩
    rintro name content ⟨⟩ - i
    refine ⟨payload, encodedInfo, ?_, h, hencode, rfl⟩
    rw [Body.tagValue_tagToString]
    exact List.mem_cons_self
  | startRead => exact ⟨trivial, by rintro name content ⟨⟩ ⟨⟩⟩
  | decoded => exact ⟨trivial, by rintro name content ⟨⟩ ⟨⟩⟩
  | failed => exact ⟨trivial, by rintro name content ⟨⟩⟩

/-- A step of a client keeps the stripes. -/
theorem Striped.clientStep (hshape : Shape config s) (h : Striped config s) {a : Action n}
    (hfiles : WritesFiles config a) (havoids : AvoidsInitial s a)
    (hstep : ClientStep config s a t) : Striped config t := by
  cases hstep with
  | write clientId opNum object payload hidle =>
    exact h.takeTurn hfiles (by rintro name content ⟨⟩ ⟨⟩)
  | read clientId opNum object hidle =>
    exact h.takeTurn trivial (by rintro name content ⟨⟩ ⟨⟩)
  | receive i name frames turn hsent hturn =>
    have hcollected : Striped config { s with calls := s.calls.collect (i, name, frames) } :=
      { h with }
    exact hcollected.takeTurn
      (hturn.configured (fun hphase ↦ absurd hphase (hshape.answered hsent).1)
        (h.clients name.client)) (by simp [hturn.multicast_eq])
  | receiveElement i name frames turn hsent hturn =>
    have hdelivered :
        Striped config { s with elements := s.elements.deliver (i, name, frames) } := { h with }
    exact hdelivered.takeTurn (hturn.configured (fun _ ↦ havoids) (h.clients name.client))
      (by simp [hturn.multicast_eq])
  | timeout clientId turn hturn =>
    obtain ⟨hclient, hmulticast⟩ := hturn.striped (h.clients clientId)
    exact h.takeTurn hclient hmulticast

theorem Striped.of_run {guard : State n → Action n → Prop}
    (hfiles : ∀ s a, guard s a → WritesFiles config a)
    (havoids : ∀ s a, guard s a → AvoidsInitial s a)
    (run : Run (step config) guard State.initial s) : Striped config s := by
  refine run.invariant_reach striped_initial fun s a t hrun h hsa hstep ↦ ?_
  rcases step_cases hstep with hclient | hserver
  · exact h.clientStep (Shape.of_run hrun) (hfiles _ _ hsa) (havoids _ _ hsa) hclient
  · obtain ⟨hclients, hhistory, hrequests, -⟩ := hserver.clients_eq
    exact
      { request := fun hmem hphase ↦ by
          rw [hrequests] at hmem
          rw [hhistory]
          exact h.request hmem hphase
        clients := fun clientId ↦ by
          rw [hclients]
          exact h.clients clientId }

/-! ### What readers decode -/

/-- A server sends under a tag that is not the initial one its stripe of the write with the tag. -/
theorem carriesStripe_of_element (hshape : Shape config s) (hfiled : Filed config s)
    (hstriped : Striped config s) {i : Fin n} {name : CallId Phase} {frames : Body}
    (hsent : (i, name, frames) ∈ s.elements.sent) (htag : frames.tag ≠ tagToString initTag) :
    ∃ writer, CarriesStripe config s.history i writer frames := by
  rcases (hfiled.element hsent).2 with ⟨hinit, -⟩ | ⟨writer, request, hphase, hmem, hobject,
    hrequest, hpayload⟩
  · exact absurd hinit htag
  · have hcarries := hstriped.request (hshape.served _ hmem) hphase
    have hvalue : request.tagValue = frames.tagValue := by
      rw [Body.tagValue, hrequest, Body.tagValue]
    rw [CarriesStripe, hobject, hvalue, hpayload] at hcarries
    exact ⟨writer, hcarries⟩

/-- The frames that a reader decodes are the stripes that different servers have of the payload of
the write with the tag. -/
theorem exists_stripes (hregular : Regular config object s) (hunique : TagsUnique s.history)
    (hfiled : Filed config s) (hstriped : Striped config s) {clientId : CString} {opNum : ℕ}
    {object' : CString} {readTag tag : Tag} {recvDataset : ZHash (List Frame)}
    {decodeableKey : CString}
    (hclient : s.clients clientId =
      .readValue opNum object' readTag recvDataset (some decodeableKey))
    (htag : stringToTag decodeableKey = some tag) :
    ∃ writer opNum' payload written, .writeTagged writer opNum' object tag payload ∈ s.history ∧
      payload.length = config.parameters.filesize ∧
        encodePayload config payload = some written ∧
          ∃ servers : List (Fin n), servers.Nodup ∧ servers.length = majority n ∧
            dataList recvDataset decodeableKey =
              servers.map fun i : Fin n ↦ written.encodedData.getD i.val [] := by
  obtain ⟨sources, hframes, hcount, hnodup, hmem⟩ :=
    hregular.collecting.decodesFromServers _ _ _ _ _ _ hclient
  have hinitial : decodeableKey ≠ tagToString initTag := by
    have hconfigured := hstriped.clients clientId
    rwa [hclient] at hconfigured
  have hstripe : ∀ m ∈ sources, ∃ writer, CarriesStripe config s.history m.1 writer
      ⟨object, decodeableKey, m.2.payload⟩ := by
    intro m hm
    obtain ⟨hsent, hkey⟩ := hmem m hm
    obtain ⟨writer, hcarries⟩ :=
      carriesStripe_of_element hregular.shape hfiled hstriped hsent (hkey ▸ hinitial)
    have hbody : m.2 = ⟨object, decodeableKey, m.2.payload⟩ := by
      rw [← hregular.about.element hsent, ← hkey]
    rw [hbody] at hcarries
    exact ⟨writer, hcarries⟩
  have hvalue : ∀ payload : Frame, (⟨object, decodeableKey, payload⟩ : Body).tagValue = tag :=
    fun payload ↦ Body.tagValue_of_parse htag
  have hpos := majority_pos n
  obtain ⟨first, hfirst⟩ := List.exists_mem_of_length_pos (l := sources) (by omega)
  obtain ⟨writer, payload, written, htagged, hlength, hencode, -⟩ := hstripe first hfirst
  rw [hvalue] at htagged
  refine ⟨_, _, payload, written, htagged, hlength, hencode, sources.map Prod.fst, hnodup,
    by rw [List.length_map, hcount], ?_⟩
  rw [hframes, List.map_map]
  refine List.map_congr_left fun m hm ↦ ?_
  obtain ⟨writer', payload', written', htagged', -, hencode', hpayload⟩ := hstripe m hm
  rw [hvalue] at htagged'
  obtain ⟨-, -, rfl⟩ := hunique _ _ _ _ _ _ _ _ htagged htagged'
  obtain rfl := Option.some.inj (hencode.symm.trans hencode')
  exact hpayload

/-- No read returns on a message. -/
theorem Receives.event_ne {clientId : CString} {round : ℕ} {phase : Phase} {frames : Body}
    {client : Client} {turn : Turn n Client Phase}
    (h : Receives clientId round frames phase client turn) (other : CString) (opNum : ℕ)
    (object : CString) (tag : Tag) (value : Frame) :
    turn.event ≠ some (.readCompleted other opNum object tag value) := by
  cases h <;> simp [waiting, finishWrite]

/-- A read that returns has decoded the list of its tag. -/
theorem exists_decoded {a : Action n} (hstep : step config s a = some t) {clientId : CString}
    {opNum : ℕ} {object : CString} {tag : Tag} {value : Frame}
    (hnew : .readCompleted clientId opNum object tag value ∈ t.history)
    (hold : .readCompleted clientId opNum object tag value ∉ s.history) :
    ∃ readTag recvDataset decodeableKey info,
      s.clients clientId = .readValue opNum object readTag recvDataset (some decodeableKey) ∧
        decodeElements config (dataList recvDataset decodeableKey) = some (true, info) ∧
          stringToTag decodeableKey = some tag ∧
            value = info.decodedData.take info.rawDataSize := by
  rcases step_cases hstep with hclient | hserver
  · have hevent : ∀ {turn : Turn n Client Phase},
        .readCompleted clientId opNum object tag value ∈ turn.event.toList ++ s.history →
          turn.event = some (.readCompleted clientId opNum object tag value) :=
      fun hmem ↦ Option.mem_toList.mp ((List.mem_append.mp hmem).resolve_right hold)
    cases hclient with
    | write => cases hevent hnew
    | read => cases hevent hnew
    | receive i name frames turn hsent hturn =>
      exact absurd (hevent hnew) (hturn.event_ne _ _ _ _ _)
    | receiveElement i name frames turn hsent hturn =>
      exact absurd (hevent hnew) (hturn.event_ne _ _ _ _ _)
    | timeout own turn hturn =>
      have heq : turn.event = some _ := hevent hnew
      generalize hclient : s.clients own = client at hturn
      cases hturn with
      | decoded hdecode htag =>
        cases heq
        exact ⟨_, _, _, _, hclient, hdecode, htag, rfl⟩
      | _ => cases heq
  · rw [hserver.clients_eq.2.1] at hnew
    exact absurd hnew hold

/-- Three servers with initial data of two kilobytes, and files of that size. -/
def initialConfig : Config 3 :=
  { sampleConfig 3 with
    initData := List.replicate 2048 0
    filesizeKb := 2 }

/-- A read that collects the initial version from two servers. -/
def initialRead (first second : Fin 3) : List (Action 3) :=
  let object := ascii ['o']
  let reader := ascii ['r']
  let tagStr := tagToString initTag
  [ .invokeRead reader 1 object,
    .serve (first, ⟨reader, 1, .readGet⟩, ⟨object, [], []⟩),
    .serve (second, ⟨reader, 1, .readGet⟩, ⟨object, [], []⟩),
    .receive (first, ⟨reader, 1, .readGet⟩, ⟨object, tagStr, []⟩),
    .receive (second, ⟨reader, 1, .readGet⟩, ⟨object, tagStr, []⟩),
    .timeout reader,
    .serve (first, ⟨reader, 1, .readValue⟩, ⟨object, tagStr, []⟩),
    .serve (second, ⟨reader, 1, .readValue⟩, ⟨object, tagStr, []⟩),
    .receiveElement (first, ⟨reader, 1, .readValue⟩, ⟨object, tagStr, initialConfig.initData⟩),
    .receiveElement (second, ⟨reader, 1, .readValue⟩, ⟨object, tagStr, initialConfig.initData⟩),
    .timeout reader ]

end Colas.Sodaw
