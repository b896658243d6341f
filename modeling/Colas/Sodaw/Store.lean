import Colas.Library.Register
import Colas.Sodaw.Tables

/-!
# The SODAW server as a register

`StoreLaw` is what the objects of a server are meant to be after a sequence of messages: every
object that a message has named has one entry, under the rendering of the greatest tag among the
initial one and those of the `WRITE_PUT` messages for the object, with the element that came with
the tag, and the entry is found again through `get_object_tag` and `get_object_frame`.

Two buffers break the law. `get_object_tag` copies the key of an entry into 64 bytes, although the
strings of a message, and `get_object_frame`, have 100 for a tag. And `HistoryData_keystring` puts
two ids, a number and a tag together in 100 bytes. `storeLaw_iff` says that there is no other way in
which the law fails: it holds after every message of a sequence exactly if no message of the
sequence comes to one of the two (`HasRoom`), and then neither the messages about readers matter,
nor the order or the repetition of the others (`StoredAlike`).
-/

set_option autoImplicit false
set_option relaxedAutoImplicit false

namespace Colas.Sodaw

/-- The state of a server after a sequence of messages. -/
def handleAll (strcmp : Strcmp) (args : ServerArgs) (messages : List Message) : Option Server :=
  messages.foldlM (Server.step strcmp args) Server.initial

/-- The version of an object that comes with a `WRITE_PUT`. -/
def Message.put (object : CString) : Message → Option (Tag × Frame)
  | .request name frames =>
    if name.phase = .writePut ∧ frames.object = object then some (frames.tagValue, frames.payload)
    else none
  | .disperse _ => none
  | .other _ => none

/-- The versions of an object that come with the `WRITE_PUT` messages. -/
def puts (messages : List Message) (object : CString) : List (Tag × Frame) :=
  messages.filterMap (Message.put object)

/-- The tags of a message are strings that `tag_to_string` makes. -/
def Message.Rendered : Message → Prop
  | .request name frames => name.phase.CarriesTag → frames.tag = tagToString frames.tagValue
  | .disperse notice => (∃ sendTag, notice.sendTag = tagToString sendTag) ∧
      ∃ readTag, notice.readTag = tagToString readTag
  | .other _ => True

/-- There is at most one payload for a tag and an object. -/
def OnePayload (messages : List Message) : Prop :=
  ∀ object, ∀ w ∈ puts messages object, ∀ w' ∈ puts messages object, w.1 = w'.1 → w = w'

/-- Every object that a message has named has one entry, for the greatest tag, and it is found
through the tag. -/
def StoreLaw (initData : Frame) (messages : List Message) (server : Server) : Prop :=
  ∀ m ∈ messages, ∃ version : Tag × Frame,
    server.objects.lookup m.object = some (AList.singleton (tagToString version.1) version.2) ∧
      Register.IsLatest (initTag, initData) (puts messages m.object) version ∧
      getObjectTag server.objects m.object = some version.1 ∧
      getObjectFrame server.objects m.object version.1 = some version.2

/-- Two sequences name the same objects and write the same versions of them. -/
structure StoredAlike (messages messages' : List Message) : Prop where
  /-- The same objects are named. -/
  objects : ∀ object, object ∈ messages.map Message.object ↔ object ∈ messages'.map Message.object
  /-- The same versions are written. -/
  puts : ∀ object w, w ∈ puts messages object ↔ w ∈ puts messages' object

/-- The buffers have room for what the message makes the server put into them: for the key under
which a version is stored, and for the key under which a notice is recorded. -/
def Server.HasRoom (initData : Frame) (server : Server) : Message → Prop
  | .request name frames => name.phase = .writePut →
    (server.version initData frames.object).1 < frames.tagValue → frames.tagValue.Short
  | .disperse notice => ¬ server.tables.isStale notice.readerid notice.opnum = true →
    notice.history.key.length < bufsize
  | .other _ => True

/-- Every message of a sequence comes to a server that has room for it. -/
def KeysFit (strcmp : Strcmp) (args : ServerArgs) (messages : List Message) : Prop :=
  ∀ before m after server, messages = before ++ m :: after →
    handleAll strcmp args before = some server → server.HasRoom args.initData m

/-- The law holds after every message of a sequence. -/
def ObeysLaw (strcmp : Strcmp) (args : ServerArgs) (messages : List Message) : Prop :=
  ∀ seen, seen <+: messages → ∃ server, handleAll strcmp args seen = some server ∧
    StoreLaw args.initData seen server

/-- Another sequence with the same versions leaves the same entries, if its keys fit. -/
def Determined (strcmp : Strcmp) (args : ServerArgs) (messages : List Message) : Prop :=
  ∀ messages', (∀ m ∈ messages', m.Rendered) → KeysFit strcmp args messages' →
    StoredAlike messages messages' → ∀ server, handleAll strcmp args messages = some server →
      ∃ server', handleAll strcmp args messages' = some server' ∧
        ∀ object, server'.objects.lookup object = server.objects.lookup object

/-! ### One message -/

section Step

variable {strcmp : Strcmp} {args : ServerArgs} {server : Server} {messages : List Message}
  {m : Message}

/-- The version of an object after a request is the latest if it was before. -/
theorem Handles.latest {version version' : CString → Tag × Frame} {tables tables' : Tables}
    {name : CallId Phase} {request : Body} {output : Output} {initial : Tag × Frame}
    (h : Handles strcmp args version tables name request version' tables' output)
    {object : CString} {received : List (Tag × Frame)}
    (hlatest : Register.IsLatest initial received (version object)) :
    Register.IsLatest initial
      (received ++ (Message.put object (.request name request)).toList) (version' object) := by
  have hskip : ¬ (name.phase = .writePut ∧ request.object = object) →
      Register.IsLatest initial
        (received ++ (Message.put object (.request name request)).toList) (version object) := by
    intro hnot
    rw [Message.put, if_neg hnot, Option.toList_none, List.append_nil]
    exact hlatest
  by_cases hput : name.phase = .writePut ∧ request.object = object
  · obtain ⟨hphase, rfl⟩ := hput
    rw [Message.put, if_pos ⟨hphase, rfl⟩, Option.toList_some]
    cases h with
    | refuse _ hle => exact hlatest.refuse hle
    | adopt _ hlt =>
      rw [Function.update_self]
      exact hlatest.adopt hlt
    | report hget => simp [hphase] at hget
    | ignore hread => simp [hphase] at hread
    | register hread => simp [hphase] at hread
    | serve hread => simp [hphase] at hread
    | complete hread => simp [hphase] at hread
  · have hsame : version' object = version object := by
      rcases h.version_eq object with hsame | ⟨hphase, hobject, -⟩
      · exact hsame
      · exact absurd ⟨hphase, hobject.symm⟩ hput
    rw [hsame]
    exact hskip hput

/-- A server that stores short tags stores short ones after a request with a tag that is short if
the server adopts it. -/
theorem Handles.short {version version' : CString → Tag × Frame} {tables tables' : Tables}
    {name : CallId Phase} {request : Body} {output : Output}
    (h : Handles strcmp args version tables name request version' tables' output)
    (hshort : ∀ object, (version object).1.Short)
    (hroom : name.phase = .writePut → (version request.object).1 < request.tagValue →
      request.tagValue.Short) (object : CString) : (version' object).1.Short := by
  cases h with
  | adopt hphase hlt =>
    by_cases hobject : object = request.object
    · subst hobject
      rw [Function.update_self]
      exact hroom hphase hlt
    · rw [Function.update_of_ne hobject]
      exact hshort object
  | _ => exact hshort object

/-- What a server has after a sequence of messages. -/
structure Kept (initData : Frame) (messages : List Message) (server : Server) : Prop where
  /-- Every object has one version. -/
  wellFormed : WellFormed server.objects
  /-- The objects that messages have named exist, and no others. -/
  named : ∀ object,
    hasObject server.objects object = true ↔ object ∈ messages.map Message.object
  /-- Every version is the latest. -/
  latest : ∀ object, Register.IsLatest (initTag, initData) (puts messages object)
    (server.version initData object)

theorem kept_initial (initData : Frame) : Kept initData [] Server.initial where
  wellFormed := wellFormed_empty
  named := fun object ↦ by simp [Server.initial, hasObject]
  latest := fun object ↦ Register.isLatest_nil _

/-- What the server has after a message that it has handled. -/
theorem Kept.step (h : Kept args.initData messages server) (hrendered : m.Rendered)
    {server' : Server} (hstep : server.step strcmp args m = some server') :
    Kept args.initData (messages ++ [m]) server' := by
  obtain ⟨⟨server', output⟩, hhandle, rfl⟩ := Option.map_eq_some_iff.mp hstep
  have hhandled : WellFormed server'.objects ∧
      ∀ object, Register.IsLatest (initTag, args.initData)
        (puts messages object ++ (m.put object).toList) (server'.version args.initData object) := by
    cases m with
    | request name frames =>
      have hcorrect := algorithmSODAW_eq strcmp args h.wellFormed hrendered
      rw [show algorithmSODAW strcmp args server name frames = _ from hhandle] at hcorrect
      obtain ⟨hwell, hhandles⟩ := hcorrect.of_eq_some
      exact ⟨hwell, fun object ↦ hhandles.latest (h.latest object)⟩
    | disperse notice =>
      obtain ⟨⟨sendTag, hsend⟩, readTag, hread⟩ := hrendered
      obtain ⟨after, hafter, heq⟩ := Option.map_eq_some_iff.mp hhandle
      obtain ⟨rfl, rfl⟩ := Prod.mk.inj heq
      obtain ⟨hwell, hversion, -⟩ :=
        eq_of_algorithmSODAWOnNotice h.wellFormed hsend hread hafter
      refine ⟨hwell, fun object ↦ ?_⟩
      rw [hversion, Message.put, Option.toList_none, List.append_nil]
      exact h.latest object
    | other object =>
      obtain ⟨rfl, rfl⟩ := Prod.mk.inj (Option.some.inj hhandle)
      have hversion : (server.create args object).version args.initData =
          server.version args.initData := contents_createObject args.initData server.status
      refine ⟨h.wellFormed.createObject args.initData server.status, fun object' ↦ ?_⟩
      rw [hversion, Message.put, Option.toList_none, List.append_nil]
      exact h.latest object'
  refine { wellFormed := hhandled.1, named := fun object ↦ ?_, latest := fun object ↦ ?_ }
  · rw [handle_hasObject hhandle, h.named, List.map_append, List.mem_append]
    simp [or_comm]
  · have hputs : puts (messages ++ [m]) object = puts messages object ++ (m.put object).toList := by
      cases hput : m.put object <;> simp [puts, hput]
    rw [hputs]
    exact hhandled.2 object

/-- All tags that the server stores are short. -/
def Server.StoresShort (initData : Frame) (server : Server) : Prop :=
  ∀ object, (server.version initData object).1.Short

/-- A server that stores short tags and has room for a message handles it. -/
theorem Kept.exists_step (h : Kept args.initData messages server) (hrendered : m.Rendered)
    (hshort : server.StoresShort args.initData) (hroom : server.HasRoom args.initData m)
    (strcmp : Strcmp) :
    ∃ server', server.step strcmp args m = some server' ∧ server'.StoresShort args.initData := by
  cases m with
  | request name frames =>
    obtain ⟨server', output, hresult, -, hhandles⟩ :=
      (algorithmSODAW_eq strcmp args h.wellFormed hrendered).of_short (hshort frames.object)
    exact ⟨server', by rw [Server.step, Server.handle, hresult]; rfl, hhandles.short hshort hroom⟩
  | disperse notice =>
    obtain ⟨⟨sendTag, hsend⟩, readTag, hread⟩ := hrendered
    obtain ⟨server', hresult, -, hversion, -⟩ :=
      algorithmSODAWOnNotice_eq args h.wellFormed hsend hread hroom
    refine ⟨server', by rw [Server.step, Server.handle, hresult]; rfl, fun object ↦ ?_⟩
    rw [hversion]
    exact hshort object
  | other object =>
    have hversion : (server.create args object).version args.initData =
        server.version args.initData := contents_createObject args.initData server.status
    refine ⟨server.create args object, rfl, fun object' ↦ ?_⟩
    rw [hversion]
    exact hshort object'

end Step

/-! ### Sequences of messages -/

section Sequences

variable {strcmp : Strcmp} {args : ServerArgs} {messages : List Message} {server : Server}

theorem handleAll_append_singleton {m : Message} : handleAll strcmp args (messages ++ [m]) =
    (handleAll strcmp args messages).bind fun server ↦ server.step strcmp args m := by
  rw [handleAll, List.foldlM_append, ← handleAll]
  simp

/-- What the server has after every sequence that it has handled. -/
theorem kept_of_handleAll (hrendered : ∀ m ∈ messages, m.Rendered)
    (hserver : handleAll strcmp args messages = some server) :
    Kept args.initData messages server := by
  induction messages using List.reverseRecOn generalizing server with
  | nil =>
    obtain rfl : Server.initial = server := Option.some.inj hserver
    exact kept_initial args.initData
  | append_singleton messages m ih =>
    rw [handleAll_append_singleton, Option.bind_eq_some_iff] at hserver
    obtain ⟨before, hbefore, hstep⟩ := hserver
    exact (ih (fun m' hm' ↦ hrendered m' (List.mem_append_left _ hm')) hbefore).step
      (hrendered m (List.mem_append_right _ (List.mem_singleton_self m))) hstep

/-- As long as the keys fit, no handler fails, and all tags that are stored are short. -/
theorem exists_handleAll (hrendered : ∀ m ∈ messages, m.Rendered)
    (hfit : KeysFit strcmp args messages) :
    ∃ server, handleAll strcmp args messages = some server ∧
      server.StoresShort args.initData := by
  induction messages using List.reverseRecOn with
  | nil => exact ⟨Server.initial, rfl, fun _ ↦ short_initTag⟩
  | append_singleton messages m ih =>
    have hbefore : ∀ m' ∈ messages, m'.Rendered := fun m' hm' ↦
      hrendered m' (List.mem_append_left _ hm')
    obtain ⟨server, hserver, hshort⟩ := ih hbefore fun before m' after server hsplit ↦
      hfit before m' (after ++ [m]) server (by rw [hsplit]; simp)
    obtain ⟨server', hstep, hshort'⟩ := (kept_of_handleAll hbefore hserver).exists_step
      (hrendered m (List.mem_append_right _ (List.mem_singleton_self m))) hshort
      (hfit messages m [] server rfl hserver) strcmp
    exact ⟨server', by rw [handleAll_append_singleton, hserver, Option.bind_some, hstep], hshort'⟩

theorem Kept.storeLaw (h : Kept args.initData messages server)
    (hshort : server.StoresShort args.initData) : StoreLaw args.initData messages server := by
  intro m hm
  have hname : hasObject server.objects m.object = true :=
    (h.named m.object).mpr (List.mem_map_of_mem hm)
  exact ⟨_, h.wellFormed.lookup_eq args.initData hname, h.latest m.object,
    h.wellFormed.getObjectTag_of_short args.initData hname (hshort m.object),
    h.wellFormed.getObjectFrame_eq args.initData hname⟩

/-- Two servers that have got the same versions of the same objects store the same. -/
theorem Kept.lookup_eq {messages' : List Message} {server' : Server}
    (h : Kept args.initData messages server) (h' : Kept args.initData messages' server')
    (halike : StoredAlike messages messages') (hone : OnePayload messages) (object : CString) :
    server.objects.lookup object = server'.objects.lookup object := by
  have hnames : hasObject server.objects object = hasObject server'.objects object :=
    Bool.eq_iff_iff.mpr ((h.named object).trans ((halike.objects object).trans
      (h'.named object).symm))
  cases hname : hasObject server.objects object with
  | true =>
    have hversion : contents args.initData server.objects object =
        contents args.initData server'.objects object :=
      (h.latest object).unique (h'.latest object) (halike.puts object) (hone object)
    rw [h.wellFormed.lookup_eq args.initData hname,
      h'.wellFormed.lookup_eq args.initData (hnames ▸ hname), hversion]
  | false =>
    rw [hname] at hnames
    simp only [hasObject, Option.isSome_eq_false_iff, Option.isNone_iff_eq_none] at hname
    have hname' : server'.objects.lookup object = none := by simpa [hasObject] using hnames.symm
    rw [hname, hname']

theorem obeysLaw_of_keysFit (hrendered : ∀ m ∈ messages, m.Rendered)
    (hfit : KeysFit strcmp args messages) : ObeysLaw strcmp args messages := by
  rintro seen ⟨rest, rfl⟩
  have hseen : ∀ m ∈ seen, m.Rendered := fun m hm ↦ hrendered m (List.mem_append_left _ hm)
  obtain ⟨server, hserver, hshort⟩ := exists_handleAll hseen fun before m after server hsplit ↦
    hfit before m (after ++ rest) server (by rw [hsplit]; simp)
  exact ⟨server, hserver, (kept_of_handleAll hseen hserver).storeLaw hshort⟩

/-- If there is one payload for a tag and an object, the entries depend only on the versions. -/
theorem determined_of_onePayload (hrendered : ∀ m ∈ messages, m.Rendered)
    (hone : OnePayload messages) : Determined strcmp args messages := by
  intro messages' hrendered' hfit' halike server hserver
  obtain ⟨server', hserver', -⟩ := exists_handleAll hrendered' hfit'
  exact ⟨server', hserver', fun object ↦ ((kept_of_handleAll hrendered hserver).lookup_eq
    (kept_of_handleAll hrendered' hserver') halike hone object).symm⟩

/-- A sequence that obeys the law does not come to a key that does not fit. -/
theorem keysFit_of_obeysLaw (hrendered : ∀ m ∈ messages, m.Rendered)
    (hlaw : ObeysLaw strcmp args messages) : KeysFit strcmp args messages := by
  intro before m after server hsplit hserver
  have hbefore : ∀ m' ∈ before, m'.Rendered := fun m' hm' ↦
    hrendered m' (by rw [hsplit]; exact List.mem_append_left _ hm')
  have hm : m.Rendered := hrendered m (by rw [hsplit]; simp)
  have hkept := kept_of_handleAll hbefore hserver
  obtain ⟨server', hserver', hlaw'⟩ := hlaw (before ++ [m]) ⟨after, by rw [hsplit]; simp⟩
  rw [handleAll_append_singleton, hserver, Option.bind_some] at hserver'
  have hkept' := hkept.step hm hserver'
  cases m with
  | request name frames =>
    intro hphase hlt
    obtain ⟨⟨server', output⟩, hhandle, rfl⟩ := Option.map_eq_some_iff.mp hserver'
    have hcorrect := algorithmSODAW_eq strcmp args hkept.wellFormed hm
    rw [show algorithmSODAW strcmp args server name frames = _ from hhandle] at hcorrect
    have hadopted := hcorrect.of_eq_some.2.version_writePut hphase hlt
    -- the law says that `get_object_tag` finds the tag that was just stored
    by_contra hlong
    obtain ⟨version, -, -, hstored, -⟩ := hlaw' (.request name frames)
      (List.mem_append_right _ (List.mem_singleton_self _))
    have hname := (hkept'.named frames.object).mpr
      (List.mem_map_of_mem (List.mem_append_right _ (List.mem_singleton_self _)))
    have hnone := hkept'.wellFormed.getObjectTag_of_not_short args.initData hname
      (by rw [show contents args.initData _ frames.object = _ from hadopted]; exact hlong)
    exact absurd (hnone.symm.trans hstored) (by simp)
  | disperse notice =>
    obtain ⟨⟨_, output⟩, hhandle, rfl⟩ := Option.map_eq_some_iff.mp hserver'
    obtain ⟨after, hafter, -⟩ := Option.map_eq_some_iff.mp hhandle
    exact key_length_of_algorithmSODAWOnNotice hafter
  | other object => trivial

/-- If the tags of the `WRITE_PUT` messages have renderings of less than 64 bytes, and the keys of
all notices less than 100, the keys fit. -/
theorem keysFit_of_short (hputs : ∀ name frames, .request name frames ∈ messages →
      name.phase = .writePut → frames.tagValue.Short)
    (hnotices : ∀ notice, .disperse notice ∈ messages → notice.history.key.length < bufsize) :
    KeysFit strcmp args messages := by
  intro before m after server hsplit _
  have hm : m ∈ messages := by rw [hsplit]; simp
  cases m with
  | request name frames => exact fun hphase _ ↦ hputs name frames hm hphase
  | disperse notice => exact fun _ ↦ hnotices notice hm
  | other object => trivial

/-- On messages with rendered tags and one payload for a tag and an object, a server obeys the law
and its entries do not depend on the order of the messages, exactly if the keys fit that the
messages make it put into a buffer. -/
theorem storeLaw_iff (hrendered : ∀ m ∈ messages, m.Rendered) (hone : OnePayload messages) :
    ObeysLaw strcmp args messages ∧ Determined strcmp args messages ↔
      KeysFit strcmp args messages :=
  ⟨fun h ↦ keysFit_of_obeysLaw hrendered h.1, fun hfit ↦
    ⟨obeysLaw_of_keysFit hrendered hfit, determined_of_onePayload hrendered hone⟩⟩

end Sequences

/-! ### Two sequences -/

/-- A reader registers, two writers put versions with the same number, and a server says that it has
sent the reader an element. -/
def relaying : List Message :=
  [.request ⟨ascii ['r'], 1, .readValue⟩ ⟨ascii ['o'], tagToString initTag, []⟩,
    .request ⟨ascii ['w', '1'], 1, .writePut⟩ ⟨ascii ['o'], tagToString ⟨1, ascii ['w', '1']⟩, [1]⟩,
    .request ⟨ascii ['w', '2'], 1, .writePut⟩ ⟨ascii ['o'], tagToString ⟨1, ascii ['w', '2']⟩, [2]⟩,
    .disperse ⟨ascii ['s', '2'], ascii ['o'], tagToString ⟨1, ascii ['w', '1']⟩, ascii ['r'],
      tagToString initTag, 1⟩]

theorem rendered_relaying : ∀ m ∈ relaying, m.Rendered := by
  intro m hm
  simp only [relaying, List.mem_cons, List.not_mem_nil, or_false] at hm
  rcases hm with rfl | rfl | rfl | rfl <;> simp [Message.Rendered]

theorem onePayload_relaying : OnePayload relaying := by
  intro object
  by_cases hobject : object = ascii ['o']
  · subst hobject
    decide +kernel
  · have hnone : puts relaying object = [] := by
      simp [puts, relaying, Message.put, Ne.symm hobject]
    simp [hnone]

/-- The law holds for these messages. -/
theorem storeLaw_relaying : ObeysLaw Strcmp.difference sampleArgs relaying ∧
    Determined Strcmp.difference sampleArgs relaying := by
  refine (storeLaw_iff rendered_relaying onePayload_relaying).mpr
    (keysFit_of_short (fun name frames hm _ ↦ ?_) fun notice hm ↦ ?_)
  · simp only [relaying, List.mem_cons, List.not_mem_nil, or_false, reduceCtorEq,
      Message.request.injEq] at hm
    obtain ⟨-, rfl⟩ | ⟨-, rfl⟩ | ⟨-, rfl⟩ := hm <;> decide
  · simp only [relaying, List.mem_cons, List.not_mem_nil, or_false, false_or, reduceCtorEq,
      Message.disperse.injEq] at hm
    subst hm
    decide

/-- A `WRITE_PUT` whose tag has a rendering of 64 bytes, and a request for the tag. -/
def longPut : List Message :=
  let writer : CString := List.replicate 62 119
  [.request ⟨writer, 1, .writePut⟩ ⟨ascii ['o'], tagToString ⟨1, writer⟩, [1]⟩,
    .request ⟨writer, 2, .writeGet⟩ ⟨ascii ['o'], [], []⟩]

/-- A notice about a server and a reader with ids of 40 bytes and a writer with one of 30. -/
def longNotice : List Message :=
  [.disperse ⟨List.replicate 40 115, ascii ['o'], tagToString ⟨1, List.replicate 30 119⟩,
    List.replicate 40 114, tagToString initTag, 1⟩]

/-- Neither the key of 64 bytes nor that of the notice fits. -/
theorem not_storeLaw_long :
    ((∀ m ∈ longPut, m.Rendered) ∧ OnePayload longPut ∧
      ¬ ObeysLaw Strcmp.difference sampleArgs longPut) ∧
    (∀ m ∈ longNotice, m.Rendered) ∧ OnePayload longNotice ∧
      ¬ ObeysLaw Strcmp.difference sampleArgs longNotice := by
  have hfails : ∀ messages, (handleAll Strcmp.difference sampleArgs messages).isNone = true →
      ¬ ObeysLaw Strcmp.difference sampleArgs messages := by
    intro messages hnone hlaw
    obtain ⟨server, hserver, -⟩ := hlaw messages (List.prefix_refl _)
    simp [hserver] at hnone
  refine ⟨⟨fun m hm ↦ ?_, fun object w hw w' hw' _ ↦ ?_, hfails _ (by decide +kernel)⟩,
    fun m hm ↦ ?_, fun object w hw ↦ ?_, hfails _ (by decide +kernel)⟩
  · simp only [longPut, List.mem_cons, List.not_mem_nil, or_false] at hm
    rcases hm with rfl | rfl <;> simp [Message.Rendered, Phase.CarriesTag]
  · simp only [puts, longPut, Message.put, List.mem_filterMap, List.mem_cons, List.not_mem_nil,
      or_false] at hw hw'
    aesop
  · simp only [longNotice, List.mem_singleton] at hm
    subst hm
    exact ⟨⟨_, rfl⟩, _, rfl⟩
  · simp [puts, longNotice, Message.put] at hw

end Colas.Sodaw
