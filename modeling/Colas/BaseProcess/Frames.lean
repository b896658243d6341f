import Mathlib.Data.List.AList
import Colas.Utilities.Tag

/-!
# Messages as frames

On the wire a message is a list of frames without names. The senders are `sendMulticastServers` and
`sendMultisendServers` of `client.c` and `sendFramesAtServer` of `server.c`; the receivers are
`receiveMessageFramesAtServer` and `receiveMessageFramesAtClient`, which pop frame after frame and
insert it into a hash table under the name that comes next in the order for the algorithm and the
phase of the message. `get_string_frame` and `get_uint_frame` read the table.

A failed assertion, a write outside a buffer and a read outside a frame are the absence of a result.
`popAll_eq` is what the receivers come to: the frames stand in the table under the names, in the
order in which both are listed. `yields_of_lookup` says that a frame that a sender has made is read
as the value from which it was made.
-/

set_option autoImplicit false
set_option relaxedAutoImplicit false

namespace Colas

/-! ### The texts of the protocols -/

namespace Text

/-- `ABD`. -/
def abd : CString := ascii ['A', 'B', 'D']

/-- `SODAW`. -/
def sodaw : CString := ascii ['S', 'O', 'D', 'A', 'W']

/-- `WRITE_VALUE`. -/
def writeValue : CString := ascii ['W', 'R', 'I', 'T', 'E', '_', 'V', 'A', 'L', 'U', 'E']

/-- `GET_TAG`. -/
def getTag : CString := ascii ['G', 'E', 'T', '_', 'T', 'A', 'G']

/-- `GET_TAG_VALUE`. -/
def getTagValue : CString :=
  ascii ['G', 'E', 'T', '_', 'T', 'A', 'G', '_', 'V', 'A', 'L', 'U', 'E']

/-- `WRITE_GET`. -/
def writeGet : CString := ascii ['W', 'R', 'I', 'T', 'E', '_', 'G', 'E', 'T']

/-- `WRITE_PUT`. -/
def writePut : CString := ascii ['W', 'R', 'I', 'T', 'E', '_', 'P', 'U', 'T']

/-- `READ_GET`. -/
def readGet : CString := ascii ['R', 'E', 'A', 'D', '_', 'G', 'E', 'T']

/-- `READ_VALUE`. -/
def readValue : CString := ascii ['R', 'E', 'A', 'D', '_', 'V', 'A', 'L', 'U', 'E']

/-- `READ_COMPLETE`. -/
def readComplete : CString :=
  ascii ['R', 'E', 'A', 'D', '_', 'C', 'O', 'M', 'P', 'L', 'E', 'T', 'E']

/-- `READ_DISPERSE`. -/
def readDisperse : CString :=
  ascii ['R', 'E', 'A', 'D', '_', 'D', 'I', 'S', 'P', 'E', 'R', 'S', 'E']

/-- What a server puts under `acknowledge`. -/
def success : CString := ascii ['S', 'U', 'C', 'C', 'E', 'S', 'S']

end Text

/-- The names of frames. -/
inductive FrameName
  | sender
  | serverid
  | clientid
  | object
  | algorithm
  | phase
  | opnum
  | tag
  | payload
  | metaSendTag
  | metaReaderid
  | metaReadTag
  | acknowledge
  deriving DecidableEq

/-! ### Values and their frames -/

/-- What a sender passes for a frame: a string, an `unsigned int`, or data with their size. -/
inductive Value
  | text (s : CString)
  | number (n : ℕ)
  | data (bytes : Frame)

/-- The bytes of an `unsigned int`, the least significant one first. -/
def uintBytes (n : ℕ) : Frame :=
  [Fin.ofNat 256 n, Fin.ofNat 256 (n / 256), Fin.ofNat 256 (n / 256 ^ 2),
    Fin.ofNat 256 (n / 256 ^ 3)]

/-- `zframe_new` with `strlen`, with `sizeof(unsigned int)`, or with the size of the data. -/
def Value.frame : Value → Frame
  | text s => s.takeWhile (· ≠ 0)
  | number n => uintBytes n
  | data bytes => bytes

/-- The value is one that the types of C allow: a string has no terminator inside, and a number is
an `unsigned int`. -/
def Value.Valid : Value → Prop
  | text s => 0 ∉ s
  | number n => n < 2 ^ 32
  | data _ => True

instance : DecidablePred Value.Valid
  | .text s => inferInstanceAs (Decidable (0 ∉ s))
  | .number n => inferInstanceAs (Decidable (n < 2 ^ 32))
  | .data _ => inferInstanceAs (Decidable True)

/-- A name with a value. -/
abbrev Field := FrameName × Value

/-- A field with its frame. -/
def Field.frame (field : Field) : FrameName × Frame := (field.1, field.2.frame)

/-! ### Senders -/

/-- The frame that `send_multicast_servers` makes for a name. The name determines as what the
argument is read. -/
def multicastFrame : Field → Option Frame
  | (.opnum, .number n) => some (Value.number n).frame
  | (.payload, .data bytes) => some (Value.data bytes).frame
  | (.opnum, _) => none
  | (.payload, _) => none
  | (_, .text s) => some (Value.text s).frame
  | _ => none

/-- `send_multicast_servers`: the message for every server. -/
def sendMulticastServers (fields : List Field) : Option (List Frame) := fields.mapM multicastFrame

/-- The frame that `send_multisend_servers` makes for a name. -/
def multisendFrame : Field → Option Frame
  | (.opnum, .number n) => some (Value.number n).frame
  | (.opnum, _) => none
  | (_, .text s) => some (Value.text s).frame
  | _ => none

/-- `send_multisend_servers`: the message for a server, with the bytes for it at the end. -/
def sendMultisendServers (fields : List Field) (message : Frame) : Option (List Frame) := do
  let frames ← fields.mapM multisendFrame
  some (frames ++ [message])

/-- The hash table of the frames of a message. -/
abbrev FrameTable := AList fun _ : FrameName ↦ Frame

/-- `zhash_insert` into the table, which does not replace an entry. -/
def FrameTable.put (frames : FrameTable) (name : FrameName) (frame : Frame) : FrameTable :=
  if name ∈ frames then frames else frames.insert name frame

/-- `send_frames_at_server`: the message with the frames of these names. -/
def sendFramesAtServer (frames : FrameTable) (names : List FrameName) : Option (List Frame) :=
  names.mapM fun name ↦ frames.lookup name

/-! ### The sockets -/

/-- A `ROUTER` socket puts the identity of the peer before a message that it receives. -/
def routerReceive (identity : Frame) (msg : List Frame) : List Frame := identity :: msg

/-- A `ROUTER` socket sends a message to the peer whose identity is its first frame, and strips that
frame. -/
def routerSend : List Frame → Option (Frame × List Frame)
  | [] => none
  | identity :: msg => some (identity, msg)

/-! ### Reading the table -/

/-- `get_string_frame`, into a buffer of a size: the bytes of the frame up to the first terminator,
and the empty string if there is no frame. -/
def getStringFrame (size : ℕ) (frames : FrameTable) (name : FrameName) : Option CString :=
  match frames.lookup name with
  | none => some []
  | some frame => if frame.length < size then some (frame.takeWhile (· ≠ 0)) else none

/-- `get_uint_frame`. -/
def getUintFrame (frames : FrameTable) (name : FrameName) : Option ℕ :=
  match frames.lookup name with
  | none => some 0
  | some (b₀ :: b₁ :: b₂ :: b₃ :: _) =>
    some (b₀.val + 256 * b₁.val + 256 ^ 2 * b₂.val + 256 ^ 3 * b₃.val)
  | some _ => none

/-! ### Receivers -/

/-- The variables of a receiver. -/
structure Incoming where
  /-- The frames of `msg` that have not been popped. -/
  msg : List Frame
  /-- `frames`. -/
  frames : FrameTable
  /-- `names`. -/
  names : List FrameName

/-- `insertIntoHashAndList`. -/
def insertIntoHashAndList (s : Incoming) (name : FrameName) : Option Incoming :=
  match s.msg with
  | [] => none
  | frame :: rest => some ⟨rest, s.frames.put name frame, s.names ++ [name]⟩

/-- Calls of `insertIntoHashAndList` for one name after the other. -/
def popAll (s : Incoming) (names : List FrameName) : Option Incoming :=
  names.foldlM insertIntoHashAndList s

/-- The names for which `receive_message_frames_at_server_ABD` pops frames. -/
def namesAtServerABD (phaseName : CString) : List FrameName :=
  (if phaseName = Text.writeValue then [.opnum, .tag, .payload] else []) ++
    (if phaseName = Text.getTag then [.opnum] else []) ++
    if phaseName = Text.getTagValue then [.opnum] else []

/-- The names for which `receive_message_frames_at_server_SODAW` pops frames. -/
def namesAtServerSODAW (phaseName : CString) : List FrameName :=
  (if phaseName = Text.writeGet then [.opnum] else []) ++
    (if phaseName = Text.readGet then [.opnum] else []) ++
    (if phaseName = Text.writePut then [.opnum, .tag, .payload] else []) ++
    (if phaseName = Text.readValue then [.opnum, .tag] else []) ++
    (if phaseName = Text.readDisperse then
      [.metaSendTag, .metaReaderid, .metaReadTag, .opnum] else []) ++
    if phaseName = Text.readComplete then [.opnum, .tag] else []

/-- `receive_message_frames_at_server`. -/
def receiveMessageFramesAtServer (msg : List Frame) : Option Incoming := do
  let s ← popAll ⟨msg, ∅, []⟩ [.sender, .clientid, .object]
  let _objectName ← getStringFrame bufsize s.frames .object
  let s ← insertIntoHashAndList s .algorithm
  let algorithmName ← getStringFrame bufsize s.frames .algorithm
  let s ← insertIntoHashAndList s .phase
  let phaseName ← getStringFrame bufsize s.frames .phase
  if algorithmName = Text.abd then popAll s (namesAtServerABD phaseName)
  else if algorithmName = Text.sodaw then popAll s (namesAtServerSODAW phaseName)
  else some s

/-- The names for which `receive_message_frames_at_client` pops frames of an ABD message. -/
def namesAtClientABD (phaseName : CString) : List FrameName :=
  (if phaseName = Text.getTag then [.opnum, .tag] else []) ++
    (if phaseName = Text.writeValue then [.opnum, .tag] else []) ++
    if phaseName = Text.getTagValue then [.opnum, .tag, .payload] else []

/-- The names for which `receive_message_frames_at_client` pops frames of a SODAW message. -/
def namesAtClientSODAW (phaseName : CString) : List FrameName :=
  (if phaseName = Text.writeGet then [.opnum, .tag] else []) ++
    (if phaseName = Text.readGet then [.opnum, .tag] else []) ++
    (if phaseName = Text.writePut then [.opnum, .tag] else []) ++
    if phaseName = Text.readValue then [.tag, .opnum, .payload] else []

/-- `receive_message_frames_at_client`. -/
def receiveMessageFramesAtClient (msg : List Frame) : Option Incoming := do
  let s ← popAll ⟨msg, ∅, []⟩ [.serverid, .object, .algorithm]
  let algorithmName ← getStringFrame bufsize s.frames .algorithm
  let s ← insertIntoHashAndList s .phase
  let phaseName ← getStringFrame bufsize s.frames .phase
  let s ← if algorithmName = Text.abd then popAll s (namesAtClientABD phaseName) else some s
  if algorithmName = Text.sodaw then popAll s (namesAtClientSODAW phaseName) else some s

/-! ### What a receiver reads -/

section Tables

variable {frames : FrameTable} {name : FrameName}

/-- A table in which every name has the frame that a list has for it. -/
def FrameTable.Holds (frames : FrameTable) (entries : List (FrameName × Frame)) : Prop :=
  ∀ name, frames.lookup name = entries.lookup name

theorem holds_empty : (∅ : FrameTable).Holds [] := fun _ ↦ rfl

/-- `zhash_insert` puts an entry at the end. -/
theorem FrameTable.Holds.put {entries : List (FrameName × Frame)} (h : frames.Holds entries)
    (name : FrameName) (frame : Frame) :
    (frames.put name frame).Holds (entries ++ [(name, frame)]) := by
  intro other
  rw [List.lookup_append, ← h other, FrameTable.put]
  by_cases hother : other = name
  · subst hother
    split_ifs with hmem
    · obtain ⟨old, hold⟩ := Option.isSome_iff_exists.mp (AList.lookup_isSome.mpr hmem)
      rw [hold, Option.some_or]
    · rw [AList.lookup_insert, AList.lookup_eq_none.mpr hmem]
      simp
  · have hnone : [(name, frame)].lookup other = none := by
      rw [List.lookup_cons, beq_eq_false_iff_ne.mpr hother, List.lookup_nil]
    rw [hnone, Option.or_none]
    split_ifs
    · rfl
    · exact AList.lookup_insert_ne hother

/-- The receivers put the frames of a message under the names, one after the other. -/
theorem popAll_eq {entries : List (FrameName × Frame)} (h : frames.Holds entries)
    (new : List (FrameName × Frame)) (rest : List Frame) (names : List FrameName) :
    ∃ frames', popAll ⟨new.map Prod.snd ++ rest, frames, names⟩ (new.map Prod.fst) =
        some ⟨rest, frames', names ++ new.map Prod.fst⟩ ∧ frames'.Holds (entries ++ new) := by
  induction new generalizing entries frames names with
  | nil => exact ⟨frames, by simp [popAll], by simpa using h⟩
  | cons entry new ih =>
    obtain ⟨frames', hpop, hholds⟩ := ih (h.put entry.1 entry.2) (names ++ [entry.1])
    refine ⟨frames', ?_, by simpa using hholds⟩
    rw [popAll] at hpop ⊢
    simpa [insertIntoHashAndList] using hpop

/-- Reading a number back from its bytes. -/
theorem getUintFrame_of_lookup {n : ℕ} (h : frames.lookup name = some (uintBytes n))
    (hn : n < 2 ^ 32) : getUintFrame frames name = some n := by
  rw [getUintFrame, h, uintBytes]
  simp only [Fin.val_ofNat, Option.some.injEq]
  omega

/-- Reading a string back from its bytes. -/
theorem getStringFrame_of_lookup {s : CString} {size : ℕ}
    (h : frames.lookup name = some (Value.text s).frame) (hs : 0 ∉ s) (hsize : s.length < size) :
    getStringFrame size frames name = some s := by
  have hall : s.takeWhile (· ≠ 0) = s :=
    List.takeWhile_eq_self_iff.mpr fun b hb ↦ by simpa using fun hzero : b = 0 ↦ hs (hzero ▸ hb)
  rw [getStringFrame, h, Value.frame, hall]
  simp only [if_pos hsize, hall]

/-- The value can be read from the table under the name. -/
def FrameTable.Yields (frames : FrameTable) (name : FrameName) : Value → Prop
  | .text s => ∀ size, s.length < size → getStringFrame size frames name = some s
  | .number n => getUintFrame frames name = some n
  | .data bytes => frames.lookup name = some bytes

/-- A value is read from the frame that has been made from it. -/
theorem yields_of_lookup {value : Value} (h : frames.lookup name = some value.frame)
    (hvalid : value.Valid) : frames.Yields name value := by
  cases value with
  | text s => exact fun size hsize ↦ getStringFrame_of_lookup h hvalid hsize
  | number n => exact getUintFrame_of_lookup h hvalid
  | data bytes => exact h

/-- In a list without repeated names every name has its frame. -/
theorem lookup_of_mem {entries : List (FrameName × Frame)}
    (hnodup : (entries.map Prod.fst).Nodup) {entry : FrameName × Frame} (hmem : entry ∈ entries) :
    entries.lookup entry.1 = some entry.2 := by
  induction entries with
  | nil => exact absurd hmem List.not_mem_nil
  | cons first rest ih =>
    obtain ⟨hfirst, hrest⟩ := List.nodup_cons.mp hnodup
    rcases List.mem_cons.mp hmem with rfl | hlater
    · rw [List.lookup_cons, beq_self_eq_true]
    · have hne : entry.1 ≠ first.1 := fun heq ↦ hfirst (heq ▸ List.mem_map_of_mem hlater)
      rw [List.lookup_cons, beq_eq_false_iff_ne.mpr hne]
      exact ih hrest hlater

/-- A receiver has read the whole message, and finds every field under its name. -/
def Parses (fields : List Field) (result : Option Incoming) : Prop :=
  ∃ s, result = some s ∧ s.msg = [] ∧ ∀ field ∈ fields, s.frames.Yields field.1 field.2

theorem parses_of_holds {fields : List Field} (names : List FrameName)
    (h : frames.Holds (fields.map Field.frame)) (hnodup : (fields.map Prod.fst).Nodup)
    (hvalid : ∀ field ∈ fields, field.2.Valid) : Parses fields (some ⟨[], frames, names⟩) := by
  refine ⟨_, rfl, rfl, fun field hfield ↦ yields_of_lookup ?_ (hvalid field hfield)⟩
  have hnames : (fields.map Field.frame).map Prod.fst = fields.map Prod.fst := by
    rw [List.map_map]
    rfl
  rw [h]
  exact lookup_of_mem (hnames ▸ hnodup) (List.mem_map_of_mem (f := Field.frame) hfield)

end Tables

/-- The frames of a message with these fields. -/
def wire (fields : List Field) : List Frame := fields.map fun field ↦ field.2.frame

theorem wire_eq_map_snd (fields : List Field) :
    wire fields = (fields.map Field.frame).map Prod.snd := by
  rw [List.map_map]
  rfl

theorem map_fst_frame (fields : List Field) :
    (fields.map Field.frame).map Prod.fst = fields.map Prod.fst := by
  rw [List.map_map]
  rfl

/-- Popping the frames of fields under their names. -/
theorem popAll_wire {frames : FrameTable} (before : List Field)
    (h : frames.Holds (before.map Field.frame)) (fields : List Field) (rest : List Frame)
    (names : List FrameName) :
    ∃ frames', popAll ⟨wire fields ++ rest, frames, names⟩ (fields.map Prod.fst) =
        some ⟨rest, frames', names ++ fields.map Prod.fst⟩ ∧
      frames'.Holds ((before ++ fields).map Field.frame) := by
  obtain ⟨frames', hpop, hholds⟩ := popAll_eq h (fields.map Field.frame) rest names
  rw [map_fst_frame, ← wire_eq_map_snd] at hpop
  exact ⟨frames', hpop, by rwa [List.map_append]⟩

/-- A string among the fields can be read. -/
theorem FrameTable.Holds.getStringFrame {frames : FrameTable} {fields : List Field}
    (h : frames.Holds (fields.map Field.frame)) (name : FrameName) {s : CString} {size : ℕ}
    (hlookup : (fields.map Field.frame).lookup name = some (Value.text s).frame) (hs : 0 ∉ s)
    (hsize : s.length < size) : Colas.getStringFrame size frames name = some s :=
  getStringFrame_of_lookup ((h name).trans hlookup) hs hsize

/-- Popping the frame of one field. -/
theorem insert_wire (name : FrameName) (value : Value) (fields : List Field) (frames : FrameTable)
    (names : List FrameName) :
    insertIntoHashAndList ⟨wire ((name, value) :: fields), frames, names⟩ name =
      some ⟨wire fields, frames.put name value.frame, names ++ [name]⟩ :=
  rfl

theorem FrameTable.Holds.put_field {frames : FrameTable} {before : List Field}
    (h : frames.Holds (before.map Field.frame)) (name : FrameName) (value : Value) :
    (frames.put name value.frame).Holds ((before ++ [(name, value)]).map Field.frame) := by
  rw [List.map_append]
  exact h.put name value.frame

/-- The names for which a server pops frames after the phase. -/
def namesAtServer (algorithm phase : CString) : List FrameName :=
  if algorithm = Text.abd then namesAtServerABD phase
  else if algorithm = Text.sodaw then namesAtServerSODAW phase
  else []

/-- The fields that a server reads of every message. -/
def headerAtServer (identity client object algorithm phase : CString) : List Field :=
  [(.sender, .text identity), (.clientid, .text client), (.object, .text object),
    (.algorithm, .text algorithm), (.phase, .text phase)]

/-- A server reads the whole of a message that has, after the phase, the fields for which it pops
frames, if the object name fits into its buffer. -/
theorem received_at_server {identity client object algorithm phase : CString} {fields : List Field}
    (hnames : fields.map Prod.fst = namesAtServer algorithm phase)
    (hvalid : ∀ field ∈ headerAtServer identity client object algorithm phase ++ fields,
      field.2.Valid)
    (hobject : object.length < bufsize) (halgorithm : algorithm.length < bufsize)
    (hphase : phase.length < bufsize) :
    ∃ frames names, receiveMessageFramesAtServer
        (wire (headerAtServer identity client object algorithm phase ++ fields)) =
          some ⟨[], frames, names⟩ ∧
      frames.Holds ((headerAtServer identity client object algorithm phase ++ fields).map
        Field.frame) := by
  have hhead : ∀ field ∈ headerAtServer identity client object algorithm phase, field.2.Valid :=
    fun field hfield ↦ hvalid field (List.mem_append_left _ hfield)
  simp only [headerAtServer, List.forall_mem_cons] at hhead
  obtain ⟨-, -, hvalidObject, hvalidAlgorithm, hvalidPhase, -⟩ := hhead
  obtain ⟨frames₁, hpop₁, hholds₁⟩ := popAll_wire [] holds_empty
    [(.sender, .text identity), (.clientid, .text client), (.object, .text object)]
    (wire ((.algorithm, .text algorithm) :: (.phase, .text phase) :: fields)) []
  have hholds₂ := hholds₁.put_field .algorithm (.text algorithm)
  have hholds₃ := hholds₂.put_field .phase (.text phase)
  obtain ⟨frames₄, hpop₄, hholds₄⟩ := popAll_wire _ hholds₃ fields []
    [.sender, .clientid, .object, .algorithm, .phase]
  have hread₁ := hholds₁.getStringFrame .object rfl hvalidObject hobject
  have hread₂ := hholds₂.getStringFrame .algorithm rfl hvalidAlgorithm halgorithm
  have hread₃ := hholds₃.getStringFrame .phase rfl hvalidPhase hphase
  have hheader : popAll ⟨wire (headerAtServer identity client object algorithm phase ++ fields),
      ∅, []⟩ [.sender, .clientid, .object] =
        some ⟨wire ((.algorithm, .text algorithm) :: (.phase, .text phase) :: fields), frames₁,
          [.sender, .clientid, .object]⟩ := hpop₁
  rw [receiveMessageFramesAtServer, hheader]
  simp only [Option.bind_eq_bind, Option.bind_some, hread₁, insert_wire, hread₂, hread₃]
  rw [List.append_nil, hnames] at hpop₄
  refine ⟨frames₄, _, Eq.trans ?_ hpop₄, hholds₄⟩
  rw [namesAtServer]
  split_ifs
  · rfl
  · rfl
  · rfl

/-- The names for which a client pops frames after the phase. -/
def namesAtClient (algorithm phase : CString) : List FrameName :=
  if algorithm = Text.abd then namesAtClientABD phase
  else if algorithm = Text.sodaw then namesAtClientSODAW phase
  else []

/-- The fields that a client reads of every message. -/
def headerAtClient (serverid object algorithm phase : CString) : List Field :=
  [(.serverid, .text serverid), (.object, .text object), (.algorithm, .text algorithm),
    (.phase, .text phase)]

/-- A client reads the whole of a message that has, after the phase, the fields for which it pops
frames. -/
theorem received_at_client {serverid object algorithm phase : CString} {fields : List Field}
    (hnames : fields.map Prod.fst = namesAtClient algorithm phase)
    (hvalid : ∀ field ∈ headerAtClient serverid object algorithm phase ++ fields, field.2.Valid)
    (halgorithm : algorithm.length < bufsize) (hphase : phase.length < bufsize) :
    ∃ frames, receiveMessageFramesAtClient
        (wire (headerAtClient serverid object algorithm phase ++ fields)) =
          some ⟨[], frames,
            (headerAtClient serverid object algorithm phase ++ fields).map Prod.fst⟩ ∧
      frames.Holds ((headerAtClient serverid object algorithm phase ++ fields).map
        Field.frame) := by
  have hhead : ∀ field ∈ headerAtClient serverid object algorithm phase, field.2.Valid :=
    fun field hfield ↦ hvalid field (List.mem_append_left _ hfield)
  simp only [headerAtClient, List.forall_mem_cons] at hhead
  obtain ⟨-, -, hvalidAlgorithm, hvalidPhase, -⟩ := hhead
  obtain ⟨frames₁, hpop₁, hholds₁⟩ := popAll_wire [] holds_empty
    [(.serverid, .text serverid), (.object, .text object), (.algorithm, .text algorithm)]
    (wire ((.phase, .text phase) :: fields)) []
  have hholds₂ := hholds₁.put_field .phase (.text phase)
  obtain ⟨frames₃, hpop₃, hholds₃⟩ := popAll_wire _ hholds₂ fields []
    [.serverid, .object, .algorithm, .phase]
  have hread₁ := hholds₁.getStringFrame .algorithm rfl hvalidAlgorithm halgorithm
  have hread₂ := hholds₂.getStringFrame .phase rfl hvalidPhase hphase
  have hheader : popAll ⟨wire (headerAtClient serverid object algorithm phase ++ fields), ∅, []⟩
      [.serverid, .object, .algorithm] = some ⟨wire ((.phase, .text phase) :: fields), frames₁,
        [.serverid, .object, .algorithm]⟩ := hpop₁
  rw [receiveMessageFramesAtClient, hheader]
  simp only [Option.bind_eq_bind, Option.bind_some, hread₁, insert_wire, hread₂]
  rw [List.append_nil, hnames] at hpop₃
  refine ⟨frames₃, Eq.trans ?_ (hpop₃.trans ?_), hholds₃⟩
  · rw [namesAtClient]
    by_cases habd : algorithm = Text.abd
    · have hsodaw : ¬ algorithm = Text.sodaw := by
        rw [habd]
        decide
      simp only [if_pos habd, if_neg hsodaw, Option.bind_fun_some]
      rfl
    · rw [if_neg habd, if_neg habd]
      split_ifs
      · rfl
      · rfl
  · rw [List.map_append, hnames]
    rfl

/-- A client parses a message that has, after the phase, the fields for which it pops frames. -/
theorem parses_at_client {serverid object algorithm phase : CString} {fields : List Field}
    (hnames : fields.map Prod.fst = namesAtClient algorithm phase)
    (hnodup : ((headerAtClient serverid object algorithm phase ++ fields).map Prod.fst).Nodup)
    (hvalid : ∀ field ∈ headerAtClient serverid object algorithm phase ++ fields, field.2.Valid)
    (halgorithm : algorithm.length < bufsize) (hphase : phase.length < bufsize) :
    Parses (headerAtClient serverid object algorithm phase ++ fields)
      (receiveMessageFramesAtClient
        (wire (headerAtClient serverid object algorithm phase ++ fields))) := by
  obtain ⟨frames, hreceive, hholds⟩ := received_at_client hnames hvalid halgorithm hphase
  rw [hreceive]
  exact parses_of_holds _ hholds hnodup hvalid

end Colas
