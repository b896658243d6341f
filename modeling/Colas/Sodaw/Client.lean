import Colas.Sodaw.Server

/-!
# The SODAW writer and reader

`SODAW_write` asks a majority for tags, encodes its payload, and sends to each server its own stripe
under a tag with a version number above all of those. `SODAW_read` asks a majority for tags,
registers at the servers with the greatest one, and collects coded elements by tag until one tag has
a majority; then it decodes them and tells the servers that it is done.

The two loops that poll with a time limit count on after they have enough, and leave when a poll
finds no message: `Client.receive` is the turn of a loop on a message, and `Client.timeout` the end
of the loop. A read reports the tag that it decodes when it has a majority of elements for it
(`readTagged`), and the bytes when it has decoded them (`readCompleted`).

`Receives` and `TimesOut` list the turns of the two functions.
-/

set_option autoImplicit false
set_option relaxedAutoImplicit false

namespace Colas.Sodaw

/-- What the processes are configured with, and the functions of the libraries that they call. -/
structure Config (n : ℕ) where
  /-- `strcmp`. -/
  strcmp : Strcmp
  /-- `server_id` of each server. -/
  serverId : Fin n → CString
  /-- `init_data` of the servers. -/
  initData : Frame
  /-- `filesize_kb` of the clients. -/
  filesizeKb : ℚ
  /-- `coding_algorithm`. -/
  codingAlgorithm : CodingAlgorithm
  /-- The codec library. -/
  codecs : CodingAlgorithm → Codec

variable {n : ℕ}

/-- The `Parameters` of the clients. -/
def Config.parameters (config : Config n) : Parameters :=
  ⟨n, config.filesizeKb, config.codingAlgorithm⟩

/-- The `Server_Args` of a server, with the `K` of `initialize_SODAW`. -/
def Config.serverArgs (config : Config n) (i : Fin n) : ServerArgs :=
  ⟨config.serverId i, config.initData, initializeSODAW n⟩

/-- The operation that a `WRITE_GET` or `READ_GET` phase belongs to; a write keeps its payload. -/
inductive Operation
  | write (payload : Frame)
  | read
  deriving DecidableEq

/-- The first phase of an operation. -/
def Operation.getPhase : Operation → Phase
  | .write _ => .writeGet
  | .read => .readGet

/-- Where a client process is: between two operations, in the loop of a phase with the variables of
the loop, or ended. The flag `done` of a loop is set when the loop has enough responses: it is
`majority n ≤ responses` in the first phase, and in `SODAW_read_value` it is set together with
`decodeableKey`. -/
inductive Client
  | idle
  | get (opNum : ℕ) (object : CString) (operation : Operation) (responses : ℕ)
    (tagList : List Tag)
  | writePut (opNum : ℕ) (object : CString) (tag : Tag) (responses : ℕ)
  | readValue (opNum : ℕ) (object : CString) (readTag : Tag) (recvDataset : ZHash (List Frame))
    (decodeableKey : Option CString)
  | exited
  deriving DecidableEq

/-! ### The receive loops -/

/-- One turn of the loop of `SODAW_write_get_or_read_get_phase` on a message. -/
def sodawWriteGetOrReadGetPhase (getPhase : Phase) (opNum responses : ℕ) (tagList : List Tag)
    (round : ℕ) (phase : Phase) (frames : Body) : Option (ℕ × List Tag) :=
  if round = opNum ∧ phase = getPhase then do
    let tag ← stringToTag frames.tag
    some (responses + 1, tagList ++ [tag])
  else some (responses, tagList)

/-- One turn of the loop of `SODAW_write_put_phase`. -/
def sodawWritePutPhase (numServers opNum responses round : ℕ) (phase : Phase) : Loop ℕ Unit :=
  if round = opNum ∧ phase = .writePut then
    if majority numServers ≤ responses + 1 then .leave () else .again (responses + 1)
  else .again responses

/-- The frames collected under a tag. -/
def dataList (recvDataset : ZHash (List Frame)) (tagStr : CString) : List Frame :=
  (recvDataset.lookup tagStr).getD []

/-- One turn of the loop of `SODAW_read_value` on a message. Every message is parsed; elements are
counted until one tag has a majority, and the assertion is about those. -/
def sodawReadValue (strcmp : Strcmp) (numServers opNum : ℕ) (readTag : Tag)
    (recvDataset : ZHash (List Frame)) (decodeableKey : Option CString) (round : ℕ)
    (phase : Phase) (frames : Body) : Option (ZHash (List Frame) × Option CString) := do
  let recvTag ← stringToTag frames.tag
  if decodeableKey = none ∧ round = opNum ∧ phase = .readValue then
    if 0 ≤ compareTags strcmp recvTag readTag then
      let collected := dataList recvDataset frames.tag ++ [frames.payload]
      let recvDataset := recvDataset.insert frames.tag collected
      if majority numServers ≤ collected.length then some (recvDataset, some frames.tag)
      else some (recvDataset, none)
    else none
  else some (recvDataset, decodeableKey)

/-- `get_encoded_info` and `decode` at the end of `SODAW_read_value`: whether the frames are decoded
and the structure with the decoded data. -/
def decodeElements (config : Config n) (codedElements : List Frame) :
    Option (Bool × EncodeData) := do
  let info ← createEncodeData config.parameters
  let read ← getEncodedInfo info codedElements
  decode config.codecs read

/-- `encode` at the start of `SODAW_write_put_phase`. -/
def encodePayload (config : Config n) (payload : Frame) : Option EncodeData := do
  let info ← createEncodeData config.parameters
  encode config.codecs { info with rawData := payload, rawDataSize := payload.length }

/-! ### The client process -/

/-- A turn that only moves the loop on. -/
def waiting (client : Client) : Turn n Client Phase := ⟨client, none, none⟩

/-- The start of `SODAW_write`, up to the first reception of its first phase. -/
def sodawWrite (clientId : CString) (opNum : ℕ) (object : CString) (payload : Frame) :
    Turn n Client Phase where
  client := .get opNum object (.write payload) 0 []
  multicast := some (⟨clientId, opNum, .writeGet⟩, fun _ ↦ ⟨object, [], []⟩)
  event := some (.writeInvoked clientId opNum object payload)

/-- The start of `SODAW_read`. -/
def sodawRead (clientId : CString) (opNum : ℕ) (object : CString) : Turn n Client Phase where
  client := .get opNum object .read 0 []
  multicast := some (⟨clientId, opNum, .readGet⟩, fun _ ↦ ⟨object, [], []⟩)
  event := some (.readInvoked clientId opNum object)

/-- The multisend of `SODAW_write_put_phase`, after the payload was encoded. -/
def startWritePut (clientId : CString) (opNum : ℕ) (object : CString) (payload : Frame)
    (newTag : Tag) (encodedInfo : EncodeData) : Turn n Client Phase where
  client := .writePut opNum object newTag 0
  multicast := some (⟨clientId, opNum, .writePut⟩, fun i ↦
    ⟨object, tagToString newTag, encodedInfo.encodedData.getD i []⟩)
  event := some (.writeTagged clientId opNum object newTag payload)

/-- The multicast of `SODAW_read_value`. -/
def startReadValue (clientId : CString) (opNum : ℕ) (object : CString) (readTag : Tag) :
    Turn n Client Phase where
  client := .readValue opNum object readTag ∅ none
  multicast := some (⟨clientId, opNum, .readValue⟩, fun _ ↦ ⟨object, tagToString readTag, []⟩)
  event := none

/-- The end of `SODAW_write`. -/
def finishWrite (clientId : CString) (opNum : ℕ) (object : CString) (tag : Tag) :
    Turn n Client Phase :=
  ⟨.idle, none, some (.writeCompleted clientId opNum object tag)⟩

/-- The end of `SODAW_read` with its `READ_COMPLETE`. The value is the first `raw_data_size` bytes
of `decoded_data`. -/
def finishRead (clientId : CString) (opNum : ℕ) (object : CString) (readTag tag : Tag)
    (info : EncodeData) : Turn n Client Phase where
  client := .idle
  multicast := some (⟨clientId, opNum, .readComplete⟩, fun _ ↦ ⟨object, tagToString readTag, []⟩)
  event := some
    (.readCompleted clientId opNum object tag (info.decodedData.take info.rawDataSize))

/-- The turn on a message in `SODAW_read_value`: the message that completes a majority decides which
tag is decoded. -/
def collectElement (clientId : CString) (opNum : ℕ) (object : CString) (readTag recvTag : Tag)
    (decodeableKey : Option CString) (result : ZHash (List Frame) × Option CString) :
    Turn n Client Phase where
  client := .readValue opNum object readTag result.1 result.2
  multicast := none
  event := if decodeableKey = none ∧ result.2 ≠ none then
    some (.readTagged clientId opNum object recvTag none) else none

/-- What a client process does with a message from a server. Between two operations, and after its
end, it receives nothing. -/
def Client.receive (strcmp : Strcmp) (clientId : CString) (round : ℕ) (phase : Phase)
    (frames : Body) : Client → Option (Turn n Client Phase)
  | .idle => none
  | .get opNum object operation responses tagList => do
    let (responses, tagList) ← sodawWriteGetOrReadGetPhase operation.getPhase opNum responses
      tagList round phase frames
    some (waiting (.get opNum object operation responses tagList))
  | .writePut opNum object tag responses =>
    match sodawWritePutPhase n opNum responses round phase with
    | .again responses => some (waiting (.writePut opNum object tag responses))
    | .leave () => some (finishWrite clientId opNum object tag)
    | .exit => some (waiting .exited)
  | .readValue opNum object readTag recvDataset decodeableKey => do
    let result ← sodawReadValue strcmp n opNum readTag recvDataset decodeableKey round phase frames
    some (collectElement clientId opNum object readTag frames.tagValue decodeableKey result)
  | .exited => none

/-- What a client process does when a poll finds no message. Where the loop does not have enough yet
it polls again, and nothing happens. -/
def Client.timeout (config : Config n) (clientId : CString) :
    Client → Option (Turn n Client Phase)
  | .get opNum object operation responses tagList =>
    if majority n ≤ responses then
      match operation with
      | .write payload => do
        let newTag ← (getMaxTag config.strcmp tagList).next clientId
        let encodedInfo ← encodePayload config payload
        some (startWritePut clientId opNum object payload newTag encodedInfo)
      | .read => some (startReadValue clientId opNum object (getMaxTag config.strcmp tagList))
    else none
  | .readValue opNum object readTag recvDataset (some decodeableKey) => do
    let (success, info) ← decodeElements config (dataList recvDataset decodeableKey)
    if success then
      let tag ← stringToTag decodeableKey
      some (finishRead clientId opNum object readTag tag info)
    else some (waiting .exited)
  | _ => none

/-! ### What a turn can be -/

/-- The operation number and the phase of the messages that a client counts. -/
def Client.awaits : Client → Option (ℕ × Phase)
  | .idle => none
  | .get opNum _ operation _ _ => some (opNum, operation.getPhase)
  | .writePut opNum _ _ _ => some (opNum, .writePut)
  | .readValue opNum _ _ _ none => some (opNum, .readValue)
  | .readValue _ _ _ _ (some _) => none
  | .exited => none

/-- The turns of a client on a message, one constructor for each way through a loop. -/
inductive Receives (clientId : CString) (round : ℕ) (frames : Body) :
    Phase → Client → Turn n Client Phase → Prop
  /-- A message that the client does not count changes nothing. -/
  | stale {phase : Phase} {client : Client} (hstale : client.awaits ≠ some (round, phase)) :
    Receives clientId round frames phase client (waiting client)
  /-- A client counts a tag. -/
  | countTag {object : CString} {operation : Operation} {responses : ℕ} {tagList : List Tag} :
    Receives clientId round frames operation.getPhase
      (.get round object operation responses tagList)
      (waiting (.get round object operation (responses + 1) (tagList ++ [frames.tagValue])))
  /-- A writer counts an acknowledgement. -/
  | countAck {object : CString} {tag : Tag} {responses : ℕ} (hfew : responses + 1 < majority n) :
    Receives clientId round frames .writePut (.writePut round object tag responses)
      (waiting (.writePut round object tag (responses + 1)))
  /-- A writer has a majority of acknowledgements. -/
  | complete {object : CString} {tag : Tag} {responses : ℕ}
    (hmany : majority n ≤ responses + 1) :
    Receives clientId round frames .writePut (.writePut round object tag responses)
      (finishWrite clientId round object tag)
  /-- A reader collects an element. -/
  | collect {object : CString} {readTag : Tag} {recvDataset : ZHash (List Frame)}
    (hle : readTag ≤ frames.tagValue)
    (hfew : (dataList recvDataset frames.tag).length + 1 < majority n) :
    Receives clientId round frames .readValue (.readValue round object readTag recvDataset none)
      (waiting (.readValue round object readTag
        (recvDataset.insert frames.tag (dataList recvDataset frames.tag ++ [frames.payload])) none))
  /-- A reader has a majority of elements. -/
  | decide {object : CString} {readTag : Tag} {recvDataset : ZHash (List Frame)}
    (hle : readTag ≤ frames.tagValue)
    (hmany : majority n ≤ (dataList recvDataset frames.tag).length + 1) :
    Receives clientId round frames .readValue (.readValue round object readTag recvDataset none)
      ⟨.readValue round object readTag
        (recvDataset.insert frames.tag (dataList recvDataset frames.tag ++ [frames.payload]))
        (some frames.tag), none,
        some (.readTagged clientId round object frames.tagValue none)⟩

/-- The constructors of `Receives` are all the turns that `Client.receive` takes. -/
theorem Client.receives {strcmp : Strcmp} {clientId : CString} {round : ℕ} {phase : Phase}
    {frames : Body} {client : Client} {turn : Turn n Client Phase}
    (h : client.receive strcmp clientId round phase frames = some turn) :
    Receives clientId round frames phase client turn := by
  cases client with
  | idle => simp [Client.receive] at h
  | exited => simp [Client.receive] at h
  | get opNum object operation responses tagList =>
    by_cases hmatch : round = opNum ∧ phase = operation.getPhase
    · obtain ⟨rfl, rfl⟩ := hmatch
      cases htag : stringToTag frames.tag with
      | none => simp [Client.receive, sodawWriteGetOrReadGetPhase, htag] at h
      | some tag =>
        obtain rfl := Body.tagValue_of_parse htag
        obtain rfl : _ = turn := by
          simpa [Client.receive, sodawWriteGetOrReadGetPhase, htag] using h
        exact .countTag
    · obtain rfl : _ = turn := by
        simpa [Client.receive, sodawWriteGetOrReadGetPhase, hmatch] using h
      exact .stale fun hawaits ↦ hmatch (by simpa [Client.awaits, eq_comm] using hawaits)
  | writePut opNum object tag responses =>
    by_cases hmatch : round = opNum ∧ phase = .writePut
    · obtain ⟨rfl, rfl⟩ := hmatch
      by_cases hmany : majority n ≤ responses + 1
      · obtain rfl : _ = turn := by simpa [Client.receive, sodawWritePutPhase, hmany] using h
        exact .complete hmany
      · obtain rfl : _ = turn := by simpa [Client.receive, sodawWritePutPhase, hmany] using h
        exact .countAck (by omega)
    · obtain rfl : _ = turn := by simpa [Client.receive, sodawWritePutPhase, hmatch] using h
      exact .stale fun hawaits ↦ hmatch (by simpa [Client.awaits, eq_comm] using hawaits)
  | readValue opNum object readTag recvDataset decodeableKey =>
    cases htag : stringToTag frames.tag with
    | none => simp [Client.receive, sodawReadValue, htag] at h
    | some tag =>
      obtain rfl := Body.tagValue_of_parse htag
      by_cases hmatch : decodeableKey = none ∧ round = opNum ∧ phase = .readValue
      · obtain ⟨rfl, rfl, rfl⟩ := hmatch
        by_cases hle : 0 ≤ compareTags strcmp frames.tagValue readTag
        · have hle' := (compareTags_nonneg_iff strcmp _ _).mp hle
          by_cases hmany : majority n ≤ (dataList recvDataset frames.tag).length + 1
          · obtain rfl : _ = turn := by
              simpa [Client.receive, sodawReadValue, htag, hle, hmany, collectElement] using h
            exact .decide hle' hmany
          · obtain rfl : _ = turn := by
              simpa [Client.receive, sodawReadValue, htag, hle, hmany, collectElement] using h
            exact .collect hle' (by omega)
        · simp [Client.receive, sodawReadValue, htag, hle] at h
      · obtain rfl : _ = turn := by
          simpa [Client.receive, sodawReadValue, htag, hmatch, collectElement] using h
        refine .stale fun hawaits ↦ hmatch ?_
        cases decodeableKey with
        | none => simpa [Client.awaits, eq_comm] using hawaits
        | some key => simp [Client.awaits] at hawaits

/-- The turns at the end of a loop. -/
inductive TimesOut (config : Config n) (clientId : CString) :
    Client → Turn n Client Phase → Prop
  /-- A writer has a majority of tags and encodes its payload. -/
  | startWrite {opNum : ℕ} {object : CString} {payload : Frame} {responses : ℕ}
    {tagList : List Tag} {newTag : Tag} {encodedInfo : EncodeData}
    (hmany : majority n ≤ responses)
    (hnext : (getMaxTag config.strcmp tagList).next clientId = some newTag)
    (hencode : encodePayload config payload = some encodedInfo) :
    TimesOut config clientId (.get opNum object (.write payload) responses tagList)
      (startWritePut clientId opNum object payload newTag encodedInfo)
  /-- A reader has a majority of tags. -/
  | startRead {opNum : ℕ} {object : CString} {responses : ℕ} {tagList : List Tag}
    (hmany : majority n ≤ responses) :
    TimesOut config clientId (.get opNum object .read responses tagList)
      (startReadValue clientId opNum object (getMaxTag config.strcmp tagList))
  /-- A reader has decoded its elements. -/
  | decoded {opNum : ℕ} {object : CString} {readTag tag : Tag}
    {recvDataset : ZHash (List Frame)} {decodeableKey : CString} {info : EncodeData}
    (hdecode : decodeElements config (dataList recvDataset decodeableKey) = some (true, info))
    (htag : stringToTag decodeableKey = some tag) :
    TimesOut config clientId (.readValue opNum object readTag recvDataset (some decodeableKey))
      (finishRead clientId opNum object readTag tag info)
  /-- A reader cannot decode its elements. -/
  | failed {client : Client} : TimesOut config clientId client (waiting .exited)

/-- The constructors of `TimesOut` are all the turns that `Client.timeout` takes. -/
theorem Client.timesOut {config : Config n} {clientId : CString} {client : Client}
    {turn : Turn n Client Phase} (h : client.timeout config clientId = some turn) :
    TimesOut config clientId client turn := by
  cases client with
  | idle => simp [Client.timeout] at h
  | exited => simp [Client.timeout] at h
  | writePut opNum object tag responses => simp [Client.timeout] at h
  | get opNum object operation responses tagList =>
    by_cases hmany : majority n ≤ responses
    · cases operation with
      | write payload =>
        simp only [Client.timeout, if_pos hmany, Option.bind_eq_bind, Option.bind_eq_some_iff,
          Option.some.injEq] at h
        obtain ⟨newTag, hnext, encodedInfo, hencode, rfl⟩ := h
        exact .startWrite hmany hnext hencode
      | read =>
        simp only [Client.timeout, if_pos hmany, Option.some.injEq] at h
        exact h ▸ .startRead hmany
    · simp [Client.timeout, hmany] at h
  | readValue opNum object readTag recvDataset decodeableKey =>
    cases decodeableKey with
    | none => simp [Client.timeout] at h
    | some decodeableKey =>
      simp only [Client.timeout, Option.bind_eq_bind, Option.bind_eq_some_iff] at h
      obtain ⟨⟨success, info⟩, hdecode, h⟩ := h
      cases success with
      | false =>
        obtain rfl : _ = turn := by simpa using h
        exact .failed
      | true =>
        simp only [if_true, Option.bind_eq_some_iff, Option.some.injEq] at h
        obtain ⟨tag, htag, rfl⟩ := h
        exact .decoded hdecode htag

/-- The object of the operation that a client runs. -/
def Client.object : Client → Option CString
  | .idle => none
  | .get _ object _ _ _ => some object
  | .writePut _ object _ _ => some object
  | .readValue _ object _ _ _ => some object
  | .exited => none

/-- A turn stays with an object: the client goes on with it or ends the operation, and requests and
events are about it. -/
structure StaysWith (turn : Turn n Client Phase) (object : Option CString) : Prop where
  client : turn.client.object = object ∨ turn.client.object = none
  multicast : ∀ {name content}, turn.multicast = some (name, content) →
    ∀ i, some (content i).object = object
  event : ∀ {e}, turn.event = some e → some e.object = object

theorem Receives.staysWith {clientId : CString} {round : ℕ} {phase : Phase} {frames : Body}
    {client : Client} {turn : Turn n Client Phase}
    (h : Receives clientId round frames phase client turn) :
    StaysWith turn client.object := by
  cases h with
  | complete => exact ⟨Or.inr rfl, by rintro _ _ ⟨⟩, by rintro _ ⟨⟩; rfl⟩
  | decide => exact ⟨Or.inl rfl, by rintro _ _ ⟨⟩, by rintro _ ⟨⟩; rfl⟩
  | _ => exact ⟨Or.inl rfl, by rintro _ _ ⟨⟩, by rintro _ ⟨⟩⟩

theorem TimesOut.staysWith {config : Config n} {clientId : CString} {client : Client}
    {turn : Turn n Client Phase} (h : TimesOut config clientId client turn) :
    StaysWith turn client.object := by
  cases h with
  | startWrite => exact ⟨Or.inl rfl, by rintro _ _ ⟨⟩ _; rfl, by rintro _ ⟨⟩; rfl⟩
  | startRead => exact ⟨Or.inl rfl, by rintro _ _ ⟨⟩ _; rfl, by rintro _ ⟨⟩⟩
  | decoded => exact ⟨Or.inr rfl, by rintro _ _ ⟨⟩ _; rfl, by rintro _ ⟨⟩; rfl⟩
  | failed => exact ⟨Or.inr rfl, by rintro _ _ ⟨⟩, by rintro _ ⟨⟩⟩

/-- The tags that a client process has collected have nonnegative version numbers, and in the first
phase it has counted them. -/
def Client.Nonneg : Client → Prop
  | .idle => True
  | .get _ _ _ responses tagList => tagList.length = responses ∧ ∀ tag ∈ tagList, 0 ≤ tag.number
  | .writePut _ _ tag _ => 0 ≤ tag.number
  | .readValue _ _ readTag _ _ => 0 ≤ readTag.number
  | .exited => True

/-- A turn leads to a client with nonnegative version numbers, and its requests carry the renderings
of such tags. -/
def Rendered (turn : Turn n Client Phase) : Prop :=
  turn.client.Nonneg ∧ ∀ name content, turn.multicast = some (name, content) →
    name.phase.CarriesTag →
      ∀ i, (content i).tag = tagToString (content i).tagValue ∧ 0 ≤ (content i).tagValue.number

/-- Frames with the rendering of a tag carry that tag. -/
theorem rendered_of_tag {tag : Tag} (htag : 0 ≤ tag.number) {frames : Body}
    (h : frames.tag = tagToString tag) :
    frames.tag = tagToString frames.tagValue ∧ 0 ≤ frames.tagValue.number := by
  have hvalue : frames.tagValue = tag := by rw [Body.tagValue, h]; simp
  rw [hvalue]
  exact ⟨h, htag⟩

/-- The maximum of a majority of tags with nonnegative version numbers is one of them. -/
theorem getMaxTag_mem_of_nonneg (strcmp : Strcmp) {opNum : ℕ} {object : CString}
    {operation : Operation} {responses : ℕ} {tagList : List Tag}
    (h : (Client.get opNum object operation responses tagList).Nonneg)
    (hmany : majority n ≤ responses) : getMaxTag strcmp tagList ∈ tagList := by
  obtain ⟨rfl, hnonneg⟩ := h
  have hpos := majority_pos n
  exact getMaxTag_mem strcmp (List.length_pos_iff.mp (by omega)) hnonneg

/-- A turn on a message with a nonnegative version number. -/
theorem Receives.rendered {clientId : CString} {round : ℕ} {phase : Phase} {frames : Body}
    {client : Client} {turn : Turn n Client Phase}
    (h : Receives clientId round frames phase client turn) (hclient : client.Nonneg)
    (hframes : 0 ≤ frames.tagValue.number) : Rendered turn := by
  cases h with
  | stale => exact ⟨hclient, by rintro name content ⟨⟩⟩
  | countTag =>
    obtain ⟨hlength, hnonneg⟩ := hclient
    refine ⟨⟨by rw [List.length_append, hlength, List.length_singleton], fun tag htag ↦ ?_⟩,
      by rintro name content ⟨⟩⟩
    rcases List.mem_append.mp htag with hold | hnew
    · exact hnonneg tag hold
    · rwa [List.mem_singleton.mp hnew]
  | countAck => exact ⟨hclient, by rintro name content ⟨⟩⟩
  | complete => exact ⟨trivial, by rintro name content ⟨⟩⟩
  | collect => exact ⟨hclient, by rintro name content ⟨⟩⟩
  | decide => exact ⟨hclient, by rintro name content ⟨⟩⟩

/-- The turn at the end of a loop. -/
theorem TimesOut.rendered {config : Config n} {clientId : CString} {client : Client}
    {turn : Turn n Client Phase} (h : TimesOut config clientId client turn)
    (hclient : client.Nonneg) : Rendered turn := by
  cases h with
  | @startWrite opNum object payload responses tagList newTag encodedInfo hmany hnext hencode =>
    have hz : 0 ≤ newTag.number := by
      have hmax := neg_one_le_getMaxTag config.strcmp tagList
      rw [(Tag.next_eq_some_iff.mp hnext).1]
      omega
    refine ⟨hz, ?_⟩
    rintro name content ⟨⟩ - i
    exact rendered_of_tag hz rfl
  | startRead hmany =>
    have hz := hclient.2 _ (getMaxTag_mem_of_nonneg config.strcmp hclient hmany)
    refine ⟨hz, ?_⟩
    rintro name content ⟨⟩ - i
    exact rendered_of_tag hz rfl
  | decoded =>
    refine ⟨trivial, ?_⟩
    rintro name content ⟨⟩ - i
    exact rendered_of_tag hclient rfl
  | failed => exact ⟨trivial, by rintro name content ⟨⟩⟩

end Colas.Sodaw
