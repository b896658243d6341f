import Colas.Abd.Server
import Colas.Utilities.TagBounds

/-!
# The ABD writer and reader

A client process runs one operation at a time. `ABD_write` asks a majority for tags, takes one with
a version number above all of them, and stores its payload under it with a majority;
`ABD_read` asks a majority for tags with values, keeps the greatest, and writes it back to a
majority. The receive loop of each phase is a function that does one turn of the loop on one
message, and `Client.receive` puts the phases together.

The value that a read writes back passes through memory: `ABD_get_max_tag_value_phase` keeps the
pointer that `zframe_dup` returned in the field `data` of its result, and `send_multicast_servers`
gives that pointer to `zframe_new`, which copies the bytes at it. `DupFrame` is the memory that
`zframe_dup` leaves behind, a frame object and, at another address, the copy of the data. The tags
that a writer collects pass through memory too, through blocks of four bytes, and how far behind the
start of such a block a write does no harm is up to the allocator. Both are in `Heap`, and come with
each reception.
-/

set_option autoImplicit false
set_option relaxedAutoImplicit false

namespace Colas.Abd

/-! ### Frames in memory -/

/-- `zframe_new`: the bytes at an address. -/
def zframeNew (memory : ℕ → Byte) (address size : ℕ) : Frame :=
  (List.range size).map fun offset ↦ memory (address + offset)

/-- The memory after `zframe_dup` of a frame with this data: the object to which the returned
pointer points, and the copied data at the address that the object records. -/
structure DupFrame (data : Frame) where
  /-- The bytes of the process. -/
  memory : ℕ → Byte
  /-- The address of the frame object, which is the result of `zframe_dup`. -/
  object : ℕ
  /-- The address of the copied data, which is the result of `zframe_data`. -/
  body : ℕ
  /-- The object does not stand where the data stand. -/
  separate : object ≠ body
  /-- The data are a copy of the data of the frame. -/
  copied : zframeNew memory body data.length = data

/-- The payload frame of the write-back: `send_multicast_servers` reads `data_size` bytes at
`rawdata->data`, and this is the address of the frame object. -/
def DupFrame.writeBackPayload {data : Frame} (dup : DupFrame data) : Frame :=
  zframeNew dup.memory dup.object data.length

/-- A memory in which the four bytes of the type tag of the frame object, `0x0002cafe`, stand at
address `0` and the copied data right behind them. -/
def DupFrame.adjacent (data : Frame) : DupFrame data where
  memory := fun address ↦ ([254, 202, 2, 0] ++ data).getD address 0
  object := 0
  body := 4
  separate := by decide
  copied := by
    refine List.ext_getElem (by simp [zframeNew]) fun i hi hi' ↦ ?_
    simp [zframeNew, Nat.add_comm 4 i, hi']

/-- What a process gets from the allocator while it handles a message. -/
structure Heap where
  /-- What `zframe_dup` leaves behind. -/
  dup : (data : Frame) → DupFrame data
  /-- The number of bytes that can be written, without harm to anything else, from the start of a
  block that `malloc(sizeof(TAG))` returns. The program asks for the four bytes of the text
  `TAG`. -/
  tagBlock : ℕ

/-- A heap with the frames of `DupFrame.adjacent`, on which a block has room for 24 bytes. -/
def Heap.adjacent : Heap := ⟨DupFrame.adjacent, 24⟩

/-- The tag can be written to the block: its number, its id and the terminator. -/
def Heap.Holds (heap : Heap) (tag : Tag) : Prop :=
  sizeofInt + tag.id.length < heap.tagBlock

instance (heap : Heap) : DecidablePred heap.Holds := fun tag ↦
  inferInstanceAs (Decidable (sizeofInt + tag.id.length < heap.tagBlock))

/-! ### The receive loops -/

/-- One turn of the loop of `ABD_get_max_tag_phase`, which parses the tag of a response into a block
of `sizeof(TAG)` bytes. -/
def abdGetMaxTagPhase (strcmp : Strcmp) (heap : Heap) (numServers opNum responses : ℕ)
    (tagList : List Tag) (round : ℕ) (phase : Phase) (frames : Body) :
    Option (Loop (ℕ × List Tag) Tag) :=
  if round = opNum ∧ phase = .getTag then do
    let tag ← (stringToTag frames.tag).filter (heap.Holds ·)
    let responses := responses + 1
    let tagList := tagList ++ [tag]
    if majority numServers ≤ responses then some (.leave (getMaxTag strcmp tagList))
    else some (.again (responses, tagList))
  else some (.again (responses, tagList))

/-- The maximum of `ABD_get_max_tag_value_phase` after a response: a greater tag replaces it
together with the data. -/
def updateMaxTagValue (strcmp : Strcmp) (tag : Tag) (data : Option Frame) (recvTag : Tag)
    (payload : Frame) : Tag × Option Frame :=
  if compareTagPtrs strcmp tag recvTag < 0 then (recvTag, some payload) else (tag, data)

/-- One turn of the loop of `ABD_get_max_tag_value_phase`. `print_out_hash_in_order` ends the
process on every message with a payload of less than 100 bytes, and `data` is not initialised before
the first response. -/
def abdGetMaxTagValuePhase (strcmp : Strcmp) (numServers opNum responses : ℕ) (tag : Tag)
    (data : Option Frame) (round : ℕ) (phase : Phase) (frames : Body) :
    Option (Loop (ℕ × Tag × Option Frame) (Tag × Frame)) := do
  let recvTag ← stringToTag frames.tag
  if phase = .getTagValue ∧ frames.payload.length < 100 then some .exit
  else if round = opNum ∧ phase = .getTagValue then
    let responses := responses + 1
    let maxTagValue := updateMaxTagValue strcmp tag data recvTag frames.payload
    if majority numServers ≤ responses then
      let data ← maxTagValue.2
      some (.leave (maxTagValue.1, data))
    else some (.again (responses, maxTagValue))
  else some (.again (responses, tag, data))

/-- One turn of the loop of `ABD_write_value_phase`. -/
def abdWriteValuePhase (numServers opNum responses round : ℕ) (phase : Phase) : Loop ℕ Unit :=
  if round = opNum ∧ phase = .writeValue then
    if majority numServers ≤ responses + 1 then .leave () else .again (responses + 1)
  else .again responses

/-! ### The client process -/

/-- The operation that a `WRITE_VALUE` phase belongs to; a read keeps the value it returns. -/
inductive Operation
  | write
  | read (data : Frame)
  deriving DecidableEq

/-- Where a client process is: between two operations, in the loop of a phase with the variables of
the loop, or ended. -/
inductive Client
  | idle
  | getMaxTag (opNum : ℕ) (object : CString) (rawData : Frame) (responses : ℕ)
    (tagList : List Tag)
  | getMaxTagValue (opNum : ℕ) (object : CString) (responses : ℕ) (tag : Tag)
    (data : Option Frame)
  | writeValue (opNum : ℕ) (object : CString) (tag : Tag) (operation : Operation)
    (responses : ℕ)
  | exited
  deriving DecidableEq

variable {n : ℕ}

/-- A turn that only moves the loop on. -/
def waiting (client : Client) : Turn n Client Phase := ⟨client, none, none⟩

/-- The start of `ABD_write`, up to the first reception of its first phase. -/
def abdWrite (clientId : CString) (opNum : ℕ) (object : CString) (rawData : Frame) :
    Turn n Client Phase where
  client := .getMaxTag opNum object rawData 0 []
  multicast := some (⟨clientId, opNum, .getTag⟩, fun _ ↦ ⟨object, [], []⟩)
  event := some (.writeInvoked clientId opNum object rawData)

/-- The start of `ABD_read`. The id of the first tag is not initialised, and no tag of a server is
compared with it, because its version number is below all of theirs. -/
def abdRead (clientId : CString) (opNum : ℕ) (object : CString) : Turn n Client Phase where
  client := .getMaxTagValue opNum object 0 ⟨-1, []⟩ none
  multicast := some (⟨clientId, opNum, .getTagValue⟩, fun _ ↦ ⟨object, [], []⟩)
  event := some (.readInvoked clientId opNum object)

/-- The start of `ABD_write_value_phase` in an `ABD_write` after its first phase. -/
def startWrite (clientId : CString) (opNum : ℕ) (object : CString) (rawData : Frame)
    (newTag : Tag) : Turn n Client Phase where
  client := .writeValue opNum object newTag .write 0
  multicast := some (⟨clientId, opNum, .writeValue⟩,
    fun _ ↦ ⟨object, tagToString newTag, rawData⟩)
  event := some (.writeTagged clientId opNum object newTag rawData)

/-- The start of `ABD_write_value_phase` in an `ABD_read` after its first phase. -/
def startWriteBack (clientId : CString) (opNum : ℕ) (object : CString) (tag : Tag) {data : Frame}
    (dup : DupFrame data) : Turn n Client Phase where
  client := .writeValue opNum object tag (.read data) 0
  multicast := some (⟨clientId, opNum, .writeValue⟩,
    fun _ ↦ ⟨object, tagToString tag, dup.writeBackPayload⟩)
  event := some (.readTagged clientId opNum object tag (some data))

/-- The event with which an operation returns. -/
def Operation.completed (clientId : CString) (opNum : ℕ) (object : CString) (tag : Tag) :
    Operation → Event
  | .write => .writeCompleted clientId opNum object tag
  | .read data => .readCompleted clientId opNum object tag data

/-- The end of an operation. -/
def finish (clientId : CString) (opNum : ℕ) (object : CString) (tag : Tag)
    (operation : Operation) : Turn n Client Phase :=
  ⟨.idle, none, some (operation.completed clientId opNum object tag)⟩

/-- What a client process does with a response. Between two operations, and after its end, it
receives nothing. -/
def Client.receive (strcmp : Strcmp) (clientId : CString) (heap : Heap)
    (round : ℕ) (phase : Phase) (frames : Body) : Client → Option (Turn n Client Phase)
  | .idle => none
  | .getMaxTag opNum object rawData responses tagList => do
    match ← abdGetMaxTagPhase strcmp heap n opNum responses tagList round phase frames with
    | .again (responses, tagList) =>
      some (waiting (.getMaxTag opNum object rawData responses tagList))
    | .leave maxTag =>
      let newTag ← maxTag.next clientId
      some (startWrite clientId opNum object rawData newTag)
    | .exit => some (waiting .exited)
  | .getMaxTagValue opNum object responses tag data => do
    match ← abdGetMaxTagValuePhase strcmp n opNum responses tag data round phase frames with
    | .again (responses, tag, data) =>
      some (waiting (.getMaxTagValue opNum object responses tag data))
    | .leave (tag, data) => some (startWriteBack clientId opNum object tag (heap.dup data))
    | .exit => some (waiting .exited)
  | .writeValue opNum object tag operation responses =>
    match abdWriteValuePhase n opNum responses round phase with
    | .again responses => some (waiting (.writeValue opNum object tag operation responses))
    | .leave () => some (finish clientId opNum object tag operation)
    | .exit => some (waiting .exited)
  | .exited => none

/-! ### What a reception can do -/

/-- The operation number and the phase of the responses that a client counts. -/
def Client.awaits : Client → Option (ℕ × Phase)
  | .idle => none
  | .getMaxTag opNum _ _ _ _ => some (opNum, .getTag)
  | .getMaxTagValue opNum _ _ _ _ => some (opNum, .getTagValue)
  | .writeValue opNum _ _ _ _ => some (opNum, .writeValue)
  | .exited => none

/-- The turns of a client on a response, one constructor for each way through a loop. -/
inductive Receives (strcmp : Strcmp) (clientId : CString) (heap : Heap)
    (round : ℕ) (frames : Body) : Phase → Client → Turn n Client Phase → Prop
  /-- A response to something else changes nothing. -/
  | stale {phase : Phase} {client : Client} (hstale : client.awaits ≠ some (round, phase)) :
    Receives strcmp clientId heap round frames phase client (waiting client)
  /-- The process ends. -/
  | ended {phase : Phase} {client : Client} :
    Receives strcmp clientId heap round frames phase client (waiting .exited)
  /-- A writer counts a tag. -/
  | countTag {object : CString} {rawData : Frame} {responses : ℕ} {tagList : List Tag}
    (hfew : responses + 1 < majority n) :
    Receives strcmp clientId heap round frames .getTag
      (.getMaxTag round object rawData responses tagList)
      (waiting (.getMaxTag round object rawData (responses + 1) (tagList ++ [frames.tagValue])))
  /-- A writer has a majority of tags. -/
  | chooseTag {object : CString} {rawData : Frame} {responses : ℕ} {tagList : List Tag}
    {newTag : Tag} (hmany : majority n ≤ responses + 1)
    (hnext : (getMaxTag strcmp (tagList ++ [frames.tagValue])).next clientId = some newTag) :
    Receives strcmp clientId heap round frames .getTag
      (.getMaxTag round object rawData responses tagList)
      (startWrite clientId round object rawData newTag)
  /-- A reader counts a version. -/
  | countValue {object : CString} {responses : ℕ} {tag : Tag} {data : Option Frame}
    (hfew : responses + 1 < majority n) :
    Receives strcmp clientId heap round frames .getTagValue
      (.getMaxTagValue round object responses tag data)
      (waiting (.getMaxTagValue round object (responses + 1)
        (updateMaxTagValue strcmp tag data frames.tagValue frames.payload).1
        (updateMaxTagValue strcmp tag data frames.tagValue frames.payload).2))
  /-- A reader has a majority of versions. -/
  | chooseValue {object : CString} {responses : ℕ} {tag : Tag} {data : Option Frame}
    {value : Frame} (hmany : majority n ≤ responses + 1)
    (hvalue : (updateMaxTagValue strcmp tag data frames.tagValue frames.payload).2 = some value) :
    Receives strcmp clientId heap round frames .getTagValue
      (.getMaxTagValue round object responses tag data)
      (startWriteBack clientId round object
        (updateMaxTagValue strcmp tag data frames.tagValue frames.payload).1 (heap.dup value))
  /-- A client counts an acknowledgement. -/
  | countAck {object : CString} {tag : Tag} {operation : Operation} {responses : ℕ}
    (hfew : responses + 1 < majority n) :
    Receives strcmp clientId heap round frames .writeValue
      (.writeValue round object tag operation responses)
      (waiting (.writeValue round object tag operation (responses + 1)))
  /-- A client has a majority of acknowledgements. -/
  | complete {object : CString} {tag : Tag} {operation : Operation} {responses : ℕ}
    (hmany : majority n ≤ responses + 1) :
    Receives strcmp clientId heap round frames .writeValue
      (.writeValue round object tag operation responses)
      (finish clientId round object tag operation)

/-- The constructors of `Receives` are all the turns that `Client.receive` takes. -/
theorem Client.receives {strcmp : Strcmp} {clientId : CString}
    {heap : Heap} {round : ℕ} {phase : Phase} {frames : Body}
    {client : Client} {turn : Turn n Client Phase}
    (h : client.receive strcmp clientId heap round phase frames = some turn) :
    Receives strcmp clientId heap round frames phase client turn := by
  cases client with
  | idle => simp [Client.receive] at h
  | exited => simp [Client.receive] at h
  | getMaxTag opNum object rawData responses tagList =>
    by_cases hmatch : round = opNum ∧ phase = .getTag
    · obtain ⟨rfl, rfl⟩ := hmatch
      cases htag : (stringToTag frames.tag).filter (heap.Holds ·) with
      | none => simp [Client.receive, abdGetMaxTagPhase, htag] at h
      | some tag =>
        obtain rfl := Body.tagValue_of_parse (Option.filter_eq_some_iff.mp htag).1
        by_cases hmany : majority n ≤ responses + 1
        · obtain ⟨newTag, hnext, rfl⟩ : ∃ newTag,
              (Colas.getMaxTag strcmp (tagList ++ [frames.tagValue])).next clientId =
                some newTag ∧ startWrite clientId round object rawData newTag = turn := by
            simpa [Client.receive, abdGetMaxTagPhase, htag, hmany, Option.bind_eq_some_iff] using h
          exact .chooseTag hmany hnext
        · obtain rfl : _ = turn := by simpa [Client.receive, abdGetMaxTagPhase, htag, hmany] using h
          exact .countTag (by omega)
    · obtain rfl : _ = turn := by simpa [Client.receive, abdGetMaxTagPhase, hmatch] using h
      exact .stale fun hawaits ↦ hmatch (by simpa [Client.awaits, eq_comm] using hawaits)
  | getMaxTagValue opNum object responses tag data =>
    cases htag : stringToTag frames.tag with
    | none => simp [Client.receive, abdGetMaxTagValuePhase, htag] at h
    | some recvTag =>
      obtain rfl := Body.tagValue_of_parse htag
      by_cases hsmall : phase = .getTagValue ∧ frames.payload.length < 100
      · obtain rfl : _ = turn := by
          simpa [Client.receive, abdGetMaxTagValuePhase, htag, hsmall] using h
        exact .ended
      · by_cases hmatch : round = opNum ∧ phase = .getTagValue
        · obtain ⟨rfl, rfl⟩ := hmatch
          have hlarge : ¬ frames.payload.length < 100 := fun hlength ↦ hsmall ⟨rfl, hlength⟩
          by_cases hmany : majority n ≤ responses + 1
          · cases hvalue : (updateMaxTagValue strcmp tag data frames.tagValue frames.payload).2 with
            | none =>
              simp [Client.receive, abdGetMaxTagValuePhase, htag, hlarge, hmany, hvalue] at h
            | some value =>
              obtain rfl : _ = turn := by
                simpa [Client.receive, abdGetMaxTagValuePhase, htag, hlarge, hmany, hvalue] using h
              exact .chooseValue hmany hvalue
          · obtain rfl : _ = turn := by
              simpa [Client.receive, abdGetMaxTagValuePhase, htag, hlarge, hmany] using h
            exact .countValue (by omega)
        · obtain rfl : _ = turn := by
            simpa [Client.receive, abdGetMaxTagValuePhase, htag, hsmall, hmatch] using h
          exact .stale fun hawaits ↦ hmatch (by simpa [Client.awaits, eq_comm] using hawaits)
  | writeValue opNum object tag operation responses =>
    by_cases hmatch : round = opNum ∧ phase = .writeValue
    · obtain ⟨rfl, rfl⟩ := hmatch
      by_cases hmany : majority n ≤ responses + 1
      · obtain rfl : _ = turn := by simpa [Client.receive, abdWriteValuePhase, hmany] using h
        exact .complete hmany
      · obtain rfl : _ = turn := by simpa [Client.receive, abdWriteValuePhase, hmany] using h
        exact .countAck (by omega)
    · obtain rfl : _ = turn := by simpa [Client.receive, abdWriteValuePhase, hmatch] using h
      exact .stale fun hawaits ↦ hmatch (by simpa [Client.awaits, eq_comm] using hawaits)

/-- The maximum of a reader is its old one or the received version. -/
theorem updateMaxTagValue_eq_or (strcmp : Strcmp) (tag : Tag) (data : Option Frame)
    (recvTag : Tag) (payload : Frame) :
    updateMaxTagValue strcmp tag data recvTag payload = (tag, data) ∨
      updateMaxTagValue strcmp tag data recvTag payload = (recvTag, some payload) := by
  unfold updateMaxTagValue
  split_ifs
  · exact Or.inr rfl
  · exact Or.inl rfl

/-- The tag of the maximum of a reader bounds its old tag and the received one. -/
theorem le_updateMaxTagValue (strcmp : Strcmp) (tag : Tag) (data : Option Frame) (recvTag : Tag)
    (payload : Frame) :
    tag ≤ (updateMaxTagValue strcmp tag data recvTag payload).1 ∧
      recvTag ≤ (updateMaxTagValue strcmp tag data recvTag payload).1 := by
  unfold updateMaxTagValue
  split_ifs with hless
  · exact ⟨((compareTagPtrs_neg_iff strcmp tag recvTag).mp hless).le, le_rfl⟩
  · rw [compareTagPtrs_neg_iff, not_lt] at hless
    exact ⟨le_rfl, hless⟩

/-- The tags that a client process has collected have nonnegative version numbers. -/
def Client.Nonneg : Client → Prop
  | .idle => True
  | .getMaxTag _ _ _ _ tagList => ∀ tag ∈ tagList, 0 ≤ tag.number
  | .getMaxTagValue _ _ _ tag data => data ≠ none → 0 ≤ tag.number
  | .writeValue _ _ tag _ _ => 0 ≤ tag.number
  | .exited => True

/-- A response with a nonnegative version number leads to a client with such tags, and a request
that starts on it carries the rendering of such a tag. -/
theorem Receives.nonneg {strcmp : Strcmp} {clientId : CString}
    {heap : Heap} {round : ℕ} {phase : Phase} {frames : Body}
    {client : Client} {turn : Turn n Client Phase}
    (h : Receives strcmp clientId heap round frames phase client turn) (hclient : client.Nonneg)
    (hframes : 0 ≤ frames.tagValue.number) :
    turn.client.Nonneg ∧ ∀ name content, turn.multicast = some (name, content) →
      ∀ i, (content i).tag = tagToString (content i).tagValue ∧
        0 ≤ (content i).tagValue.number := by
  have hrendered : ∀ {object : CString} {tag : Tag} {payload : Frame} {name name' : CallId Phase}
      {content : Fin n → Body}, 0 ≤ tag.number →
      some (name, fun _ ↦ ⟨object, tagToString tag, payload⟩) = some (name', content) →
      ∀ i, (content i).tag = tagToString (content i).tagValue ∧
        0 ≤ (content i).tagValue.number := by
    rintro object tag payload name name' content htag ⟨⟩ i
    simpa using htag
  cases h with
  | stale => exact ⟨hclient, by rintro name content ⟨⟩⟩
  | ended => exact ⟨trivial, by rintro name content ⟨⟩⟩
  | countTag =>
    refine ⟨fun tag htag ↦ ?_, by rintro name content ⟨⟩⟩
    rcases List.mem_append.mp htag with hold | hnew
    · exact hclient tag hold
    · rwa [List.mem_singleton.mp hnew]
  | @chooseTag object rawData responses tagList newTag hmany hnext =>
    have hmax := neg_one_le_getMaxTag strcmp (tagList ++ [frames.tagValue])
    have hz : 0 ≤ newTag.number := by
      rw [(Tag.next_eq_some_iff.mp hnext).1]
      omega
    exact ⟨hz, fun name content ↦ hrendered hz⟩
  | @countValue object responses tag data =>
    refine ⟨fun hdata ↦ ?_, by rintro name content ⟨⟩⟩
    rcases updateMaxTagValue_eq_or strcmp tag data frames.tagValue frames.payload with heq | heq <;>
      rw [heq] at hdata ⊢
    · exact hclient hdata
    · exact hframes
  | @chooseValue object responses tag data value hmany hvalue =>
    have hz : 0 ≤ (updateMaxTagValue strcmp tag data frames.tagValue frames.payload).1.number := by
      rcases updateMaxTagValue_eq_or strcmp tag data frames.tagValue frames.payload with
        heq | heq <;> rw [heq] at hvalue ⊢
      · exact hclient fun hnone ↦ by simp [hnone] at hvalue
      · exact hframes
    exact ⟨hz, fun name content ↦ hrendered hz⟩
  | countAck => exact ⟨hclient, by rintro name content ⟨⟩⟩
  | complete => exact ⟨trivial, by rintro name content ⟨⟩⟩

end Colas.Abd
