import Colas.Abd.Server
import Colas.Library.Register

/-!
# The ABD server as a register

A server handles messages in some order. `handleAll` is its state after a sequence of them, and
`RegisterLaw` what the state is meant to be: every object that a message has named has one entry,
under the rendering of the greatest tag among the initial one and those of the `WRITE_VALUE`
messages for the object, with the payload that came with the tag.

Two defects break the law. The comparison in `algorithm_ABD_WRITE_VALUE` loses a greater tag for
which `compare_tags` does not return exactly `-1`. And a key of 64 bytes or more, which a tag can
have, overflows the buffer of `get_object_tag` in the next handler for the object. `obeysLaw_iff`
says that there is no other way in which the law fails: it holds after every message of a sequence
exactly if no message of the sequence comes to one of the two, and then the entries depend only on
the set of the `WRITE_VALUE` messages.
-/

set_option autoImplicit false
set_option relaxedAutoImplicit false

namespace Colas.Abd

/-- The state of a server after a sequence of messages. -/
def handleAll (strcmp : Strcmp) (initData : Frame) (messages : List (Phase × Body)) :
    Option Server :=
  messages.foldlM
    (fun server m ↦ (algorithmABD strcmp initData server m.1 m.2).map Prod.fst) Server.initial

/-- The versions of an object in the `WRITE_VALUE` messages. -/
def written (messages : List (Phase × Body)) (object : CString) : List (Tag × Frame) :=
  (messages.filter fun m ↦ m.1 = .writeValue ∧ m.2.object = object).map fun m ↦
    (m.2.tagValue, m.2.payload)

/-- The tags of the `WRITE_VALUE` messages are rendered tags. -/
def Rendered (messages : List (Phase × Body)) : Prop :=
  ∀ m ∈ messages, m.1 = .writeValue → m.2.tag = tagToString m.2.tagValue

/-- Every object that a message has named has one entry, for the greatest tag. -/
def RegisterLaw (initData : Frame) (messages : List (Phase × Body)) (server : Server) : Prop :=
  ∀ m ∈ messages, ∃ version : Tag × Frame,
    server.objects.lookup m.2.object =
        some (AList.singleton (tagToString version.1) version.2) ∧
      Register.IsLatest (initTag, initData) (written messages m.2.object) version

/-- A `WRITE_VALUE` with a tag that is greater than the stored one is adopted: `compare_tags` of the
two tags is exactly `-1` if it is negative. -/
def AdoptsGreater (strcmp : Strcmp) (initData : Frame) (messages : List (Phase × Body)) : Prop :=
  ∀ before m after server, messages = before ++ m :: after → m.1 = .writeValue →
    handleAll strcmp initData before = some server →
      compareTags strcmp (server.version initData m.2.object).1 m.2.tagValue < 0 →
        compareTags strcmp (server.version initData m.2.object).1 m.2.tagValue = -1

/-- No message is handled for an object whose stored key is too long for `get_object_tag`. -/
def KeysFit (strcmp : Strcmp) (initData : Frame) (messages : List (Phase × Body)) : Prop :=
  ∀ before m after server, messages = before ++ m :: after →
    handleAll strcmp initData before = some server → (server.version initData m.2.object).1.Short

/-- The law holds after every message of a sequence. -/
def ObeysLaw (strcmp : Strcmp) (initData : Frame) (messages : List (Phase × Body)) : Prop :=
  ∀ seen, seen <+: messages → ∃ server, handleAll strcmp initData seen = some server ∧
    RegisterLaw initData seen server

/-- Equal tags of an object come with equal payloads. -/
def Consistent (messages : List (Phase × Body)) : Prop :=
  ∀ object, ∀ w ∈ written messages object, ∀ w' ∈ written messages object, w.1 = w'.1 → w = w'

/-- Another sequence with the same `WRITE_VALUE` messages, in whatever order and how often, leaves
the same entries. -/
def Determined (strcmp : Strcmp) (initData : Frame) (messages : List (Phase × Body)) : Prop :=
  ∀ messages', Rendered messages' → AdoptsGreater strcmp initData messages' →
    (∀ object w, w ∈ written messages object ↔ w ∈ written messages' object) →
      ∀ server server', handleAll strcmp initData messages = some server →
        handleAll strcmp initData messages' = some server' →
          ∀ m ∈ messages, ∀ m' ∈ messages', m.2.object = m'.2.object →
            server.objects.lookup m.2.object = server'.objects.lookup m.2.object

/-! ### Runs of the server -/

section Runs

variable (strcmp : Strcmp) (initData : Frame) {messages : List (Phase × Body)} {server : Server}
  {m : Phase × Body}

theorem handleAll_append_singleton : handleAll strcmp initData (messages ++ [m]) =
    (handleAll strcmp initData messages).bind fun server ↦
      (algorithmABD strcmp initData server m.1 m.2).map Prod.fst := by
  rw [handleAll, List.foldlM_append]
  rcases hall : handleAll strcmp initData messages with - | server
  · rw [handleAll] at hall
    simp [hall]
  · rw [handleAll] at hall
    simp [hall]

/-- What the server has after a sequence of messages, whatever the comparison returns. -/
structure Kept (messages : List (Phase × Body)) (server : Server) : Prop where
  /-- Every object has one version. -/
  wellFormed : WellFormed server.objects
  /-- The objects that messages have named exist. -/
  named : ∀ m ∈ messages, hasObject server.objects m.2.object = true

theorem kept_initial : Kept [] Server.initial where
  wellFormed := wellFormed_empty
  named := fun _ hm ↦ absurd hm List.not_mem_nil

/-- The last message of a sequence that is handled. -/
theorem exists_handleAll_init {server' : Server}
    (h : handleAll strcmp initData (messages ++ [m]) = some server') : ∃ server,
      handleAll strcmp initData messages = some server ∧
        (algorithmABD strcmp initData server m.1 m.2).map Prod.fst = some server' := by
  rwa [handleAll_append_singleton, Option.bind_eq_some_iff] at h

/-- A message that is handled changes the version of the object that it names if it is adopted. -/
theorem Kept.step (h : Kept messages server) {server' : Server}
    (htag : m.1 = .writeValue → m.2.tag = tagToString m.2.tagValue)
    (hresult : (algorithmABD strcmp initData server m.1 m.2).map Prod.fst = some server') :
    Kept (messages ++ [m]) server' ∧
      server'.version initData =
        if Adopts strcmp (server.version initData) m.1 m.2 m.2.tagValue then
          Function.update (server.version initData) m.2.object (m.2.tagValue, m.2.payload)
        else server.version initData := by
  obtain ⟨⟨_, reply⟩, hserver, rfl⟩ := Option.map_eq_some_iff.mp hresult
  obtain ⟨-, hwell, hversion⟩ := eq_of_algorithmABD h.wellFormed htag hserver
  refine ⟨⟨hwell, fun m' hm' ↦ (hasObject_algorithmABD hserver).mpr ?_⟩, hversion⟩
  rcases List.mem_append.mp hm' with hbefore | hlast
  · exact Or.inr (h.named m' hbefore)
  · exact Or.inl (by rw [List.mem_singleton.mp hlast])

/-- A message for an object with a short tag is handled. -/
theorem Kept.exists_step (h : Kept messages server)
    (htag : m.1 = .writeValue → m.2.tag = tagToString m.2.tagValue)
    (hshort : (server.version initData m.2.object).1.Short) :
    ∃ server', (algorithmABD strcmp initData server m.1 m.2).map Prod.fst = some server' := by
  obtain ⟨server', hserver, -⟩ := algorithmABD_eq strcmp initData h.wellFormed htag hshort
  exact ⟨server', by rw [hserver]; rfl⟩

/-- What the server has after every sequence that it has handled. -/
theorem kept_of_handleAll (hrendered : Rendered messages)
    (hserver : handleAll strcmp initData messages = some server) : Kept messages server := by
  induction messages using List.reverseRecOn generalizing server with
  | nil =>
    obtain rfl : Server.initial = server := Option.some.inj hserver
    exact kept_initial
  | append_singleton messages m ih =>
    obtain ⟨before, hbefore, hresult⟩ := exists_handleAll_init strcmp initData hserver
    exact ((ih (fun m' hm' ↦ hrendered m' (List.mem_append_left _ hm')) hbefore).step strcmp
      initData (hrendered m (List.mem_append_right _ (List.mem_singleton_self m))) hresult).1

/-- As long as the keys fit, no assertion fails and no buffer overflows. -/
theorem exists_handleAll (hrendered : Rendered messages)
    (hfit : KeysFit strcmp initData messages) :
    ∃ server, handleAll strcmp initData messages = some server := by
  induction messages using List.reverseRecOn with
  | nil => exact ⟨Server.initial, rfl⟩
  | append_singleton messages m ih =>
    have hbefore : Rendered messages := fun m' hm' ↦ hrendered m' (List.mem_append_left _ hm')
    obtain ⟨server, hserver⟩ := ih hbefore fun before m' after server hsplit ↦
      hfit before m' (after ++ [m]) server (by rw [hsplit]; simp)
    obtain ⟨server', hresult⟩ := (kept_of_handleAll strcmp initData hbefore hserver).exists_step
      strcmp initData (hrendered m (List.mem_append_right _ (List.mem_singleton_self m)))
      (hfit messages m [] server rfl hserver)
    exact ⟨server', by rw [handleAll_append_singleton, hserver, Option.bind_some, hresult]⟩

/-- The versions of an object that a message adds. -/
theorem written_append_singleton (object : CString) : written (messages ++ [m]) object =
    if m.1 = .writeValue ∧ m.2.object = object then
      written messages object ++ [(m.2.tagValue, m.2.payload)]
    else written messages object := by
  split_ifs with hm
  · simp [written, List.filter_append, hm]
  · simp [written, List.filter_append, hm]

/-- The server holds the latest version of every object. -/
def Latest (messages : List (Phase × Body)) (server : Server) : Prop :=
  ∀ object, Register.IsLatest (initTag, initData) (written messages object)
    (server.version initData object)

variable {strcmp initData}

/-- A message that does not come to the defective comparison keeps the latest versions. -/
theorem Latest.step {server' : Server} (h : Latest initData messages server)
    (hadopts : m.1 = .writeValue →
      compareTags strcmp (server.version initData m.2.object).1 m.2.tagValue < 0 →
        compareTags strcmp (server.version initData m.2.object).1 m.2.tagValue = -1)
    (hversion : server'.version initData =
      if Adopts strcmp (server.version initData) m.1 m.2 m.2.tagValue then
        Function.update (server.version initData) m.2.object (m.2.tagValue, m.2.payload)
      else server.version initData) : Latest initData (messages ++ [m]) server' := by
  intro object
  rw [written_append_singleton, hversion]
  by_cases hwrite : m.1 = .writeValue ∧ m.2.object = object
  · obtain ⟨hphase, rfl⟩ := hwrite
    rw [if_pos ⟨hphase, rfl⟩]
    rcases lt_or_ge (server.version initData m.2.object).1 m.2.tagValue with hlt | hle
    · have hone := hadopts hphase ((compareTags_neg_iff strcmp _ _).mpr hlt)
      rw [if_pos ⟨hphase, hone⟩, Function.update_self]
      exact (h m.2.object).adopt hlt
    · have hnot : ¬ Adopts strcmp (server.version initData) m.1 m.2 m.2.tagValue := fun hone ↦
        not_lt.mpr hle (lt_of_compareTags_eq_neg_one strcmp _ _ hone.2)
      rw [if_neg hnot]
      exact (h m.2.object).refuse hle
  · rw [if_neg hwrite]
    have hsame : (if Adopts strcmp (server.version initData) m.1 m.2 m.2.tagValue then
        Function.update (server.version initData) m.2.object (m.2.tagValue, m.2.payload)
      else server.version initData) object = server.version initData object := by
      split_ifs with hadopt
      · exact Function.update_of_ne (fun heq ↦ hwrite ⟨hadopt.1, heq.symm⟩) ..
      · rfl
    rw [hsame]
    exact h object

/-- A server that has got only short tags stores only short ones. -/
theorem short_of_handleAll (hrendered : Rendered messages)
    (hshort : ∀ m ∈ messages, m.1 = .writeValue → m.2.tagValue.Short)
    (hserver : handleAll strcmp initData messages = some server) (object : CString) :
    (server.version initData object).1.Short := by
  induction messages using List.reverseRecOn generalizing server with
  | nil =>
    obtain rfl : Server.initial = server := Option.some.inj hserver
    exact short_initTag
  | append_singleton messages m ih =>
    have hbefore : Rendered messages := fun m' hm' ↦ hrendered m' (List.mem_append_left _ hm')
    have hm : m ∈ messages ++ [m] := List.mem_append_right _ (List.mem_singleton_self m)
    obtain ⟨server₀, hserver₀, hresult⟩ := exists_handleAll_init strcmp initData hserver
    obtain ⟨-, hversion⟩ := (kept_of_handleAll strcmp initData hbefore hserver₀).step strcmp
      initData (hrendered m hm) hresult
    have hold := ih hbefore (fun m' hm' ↦ hshort m' (List.mem_append_left _ hm')) hserver₀
    rw [hversion]
    split_ifs with hadopts
    · by_cases hobject : object = m.2.object
      · subst hobject
        rw [Function.update_self]
        exact hshort m hm hadopts.1
      · rw [Function.update_of_ne hobject]
        exact hold
    · exact hold

/-- If the tags of a sequence have renderings of less than 64 bytes, the keys fit. -/
theorem keysFit_of_short (hrendered : Rendered messages)
    (hshort : ∀ m ∈ messages, m.1 = .writeValue → m.2.tagValue.Short) :
    KeysFit strcmp initData messages := by
  intro before m after server hsplit hserver
  have hsub : ∀ m' ∈ before, m' ∈ messages := fun m' hm' ↦ by
    rw [hsplit]
    exact List.mem_append_left _ hm'
  exact short_of_handleAll (fun m' hm' ↦ hrendered m' (hsub m' hm'))
    (fun m' hm' ↦ hshort m' (hsub m' hm')) hserver m.2.object

/-- If every greater tag is adopted, the server holds the latest versions after every sequence that
it has handled. -/
theorem latest_of_adoptsGreater (hrendered : Rendered messages)
    (hadopts : AdoptsGreater strcmp initData messages)
    (hserver : handleAll strcmp initData messages = some server) :
    Latest initData messages server := by
  induction messages using List.reverseRecOn generalizing server with
  | nil =>
    obtain rfl : Server.initial = server := Option.some.inj hserver
    exact fun object ↦ Register.isLatest_nil _
  | append_singleton messages m ih =>
    have hbefore : Rendered messages := fun m' hm' ↦ hrendered m' (List.mem_append_left _ hm')
    obtain ⟨server₀, hserver₀, hresult⟩ := exists_handleAll_init strcmp initData hserver
    have hlatest := ih hbefore (fun before m' after server hsplit ↦
      hadopts before m' (after ++ [m]) server (by rw [hsplit]; simp)) hserver₀
    obtain ⟨-, hversion⟩ := (kept_of_handleAll strcmp initData hbefore hserver₀).step strcmp
      initData (hrendered m (List.mem_append_right _ (List.mem_singleton_self m))) hresult
    exact hlatest.step (fun hphase ↦ hadopts messages m [] server₀ rfl hphase hserver₀) hversion

/-- The law is about the entries what the latest version is about the versions. -/
theorem Kept.registerLaw_iff (h : Kept messages server) : RegisterLaw initData messages server ↔
    ∀ m ∈ messages, Register.IsLatest (initTag, initData) (written messages m.2.object)
      (server.version initData m.2.object) := by
  refine forall₂_congr fun m hm ↦ ?_
  have hlookup := h.wellFormed.lookup_eq initData (h.named m hm)
  constructor
  · rintro ⟨version, hversion, hlatest⟩
    have heq : server.version initData m.2.object = version :=
      contents_of_lookup_singleton initData hversion
    rwa [heq]
  · exact fun hlatest ↦ ⟨_, hlookup, hlatest⟩

end Runs

/-! ### When the law holds -/

section Law

variable {strcmp : Strcmp} {initData : Frame} {messages : List (Phase × Body)}

/-- The messages up to one of a sequence that obeys the law are handled. -/
theorem ObeysLaw.handled (hlaw : ObeysLaw strcmp initData messages)
    {before after : List (Phase × Body)} {m : Phase × Body} {server : Server}
    (hsplit : messages = before ++ m :: after)
    (hserver : handleAll strcmp initData before = some server) : ∃ server',
      (algorithmABD strcmp initData server m.1 m.2).map Prod.fst = some server' ∧
        RegisterLaw initData (before ++ [m]) server' := by
  obtain ⟨server', hserver', hlaw'⟩ := hlaw (before ++ [m]) ⟨after, by rw [hsplit]; simp⟩
  rw [handleAll_append_singleton, hserver, Option.bind_some] at hserver'
  exact ⟨server', hserver', hlaw'⟩

/-- A sequence that obeys the law does not come to a key that is too long. -/
theorem keysFit_of_obeysLaw (hrendered : Rendered messages)
    (hlaw : ObeysLaw strcmp initData messages) : KeysFit strcmp initData messages := by
  intro before m after server hsplit hserver
  have hbefore : Rendered before := fun m' hm' ↦
    hrendered m' (by rw [hsplit]; exact List.mem_append_left _ hm')
  obtain ⟨server', hresult, -⟩ := hlaw.handled hsplit hserver
  obtain ⟨result, hserver', -⟩ := Option.map_eq_some_iff.mp hresult
  have hkept := kept_of_handleAll strcmp initData hbefore hserver
  exact short_of_algorithmABD hkept.wellFormed hserver'

/-- A sequence that obeys the law does not come to the defective comparison. -/
theorem adoptsGreater_of_obeysLaw (hrendered : Rendered messages)
    (hlaw : ObeysLaw strcmp initData messages) : AdoptsGreater strcmp initData messages := by
  intro before m after server hsplit hphase hserver hless
  by_contra hone
  have hbefore : Rendered before := fun m' hm' ↦
    hrendered m' (by rw [hsplit]; exact List.mem_append_left _ hm')
  have htag := hrendered m (by rw [hsplit]; exact List.mem_append_right _ List.mem_cons_self)
  obtain ⟨server', hresult, hlaw'⟩ := hlaw.handled hsplit hserver
  obtain ⟨hkept', hversion⟩ :=
    (kept_of_handleAll strcmp initData hbefore hserver).step strcmp initData htag hresult
  -- the greater tag is not adopted, and the law fails right after the message
  have hsame : server'.version initData = server.version initData := by
    rw [hversion]
    exact if_neg fun hadopt ↦ hone hadopt.2
  have hlatest := hkept'.registerLaw_iff.mp hlaw' m
    (List.mem_append_right _ (List.mem_singleton_self m))
  have hmem : (m.2.tagValue, m.2.payload) ∈ written (before ++ [m]) m.2.object := by
    rw [written_append_singleton, if_pos ⟨hphase, rfl⟩]
    exact List.mem_append_right _ (List.mem_singleton_self _)
  have hlt : (server'.version initData m.2.object).1 < m.2.tagValue := by
    rw [hsame]
    exact (compareTags_neg_iff strcmp _ _).mp hless
  exact Register.IsLatest.not_of_lt hmem hlt hlatest

theorem obeysLaw_of_adoptsGreater (hrendered : Rendered messages)
    (hfit : KeysFit strcmp initData messages) (hadopts : AdoptsGreater strcmp initData messages) :
    ObeysLaw strcmp initData messages := by
  rintro seen ⟨rest, rfl⟩
  have hseen : Rendered seen := fun m hm ↦ hrendered m (List.mem_append_left _ hm)
  obtain ⟨server, hserver⟩ := exists_handleAll strcmp initData hseen
    fun before m after server hsplit ↦
      hfit before m (after ++ rest) server (by rw [hsplit]; simp)
  have hlatest := latest_of_adoptsGreater hseen (fun before m after server hsplit ↦
    hadopts before m (after ++ rest) server (by rw [hsplit]; simp)) hserver
  have hkept := kept_of_handleAll strcmp initData hseen hserver
  exact ⟨server, hserver, hkept.registerLaw_iff.mpr fun m _ ↦ hlatest m.2.object⟩

/-- If every greater tag is adopted and equal tags carry equal payloads, the entries depend only on
the set of the `WRITE_VALUE` messages. -/
theorem determined_of_adoptsGreater (hrendered : Rendered messages)
    (hconsistent : Consistent messages) (hadopts : AdoptsGreater strcmp initData messages) :
    Determined strcmp initData messages := by
  intro messages' hrendered' hadopts' hsame server server' hserver hserver' m hm m' hm' hobject
  have hlatest := latest_of_adoptsGreater hrendered hadopts hserver
  have hlatest' := latest_of_adoptsGreater hrendered' hadopts' hserver'
  have hkept := kept_of_handleAll strcmp initData hrendered hserver
  have hkept' := kept_of_handleAll strcmp initData hrendered' hserver'
  have hversion : contents initData server.objects m.2.object =
      contents initData server'.objects m.2.object :=
    (hlatest m.2.object).unique (hlatest' m.2.object) (hsame m.2.object)
      (hconsistent m.2.object)
  have hlookup := hkept.wellFormed.lookup_eq initData (hkept.named m hm)
  have hlookup' := hkept'.wellFormed.lookup_eq initData (hkept'.named m' hm')
  rw [← hobject] at hlookup'
  rw [hlookup, hlookup', hversion]

/-- On messages with rendered tags, where equal tags carry equal payloads, a server obeys the law
and its entries do not depend on the order or the repetition of the `WRITE_VALUE` messages, exactly
if the keys that it stores fit and it adopts every greater tag. -/
theorem obeysLaw_iff (hrendered : Rendered messages) (hconsistent : Consistent messages) :
    ObeysLaw strcmp initData messages ∧ Determined strcmp initData messages ↔
      KeysFit strcmp initData messages ∧ AdoptsGreater strcmp initData messages := by
  constructor
  · rintro ⟨hlaw, -⟩
    exact ⟨keysFit_of_obeysLaw hrendered hlaw, adoptsGreater_of_obeysLaw hrendered hlaw⟩
  · rintro ⟨hfit, hadopts⟩
    exact ⟨obeysLaw_of_adoptsGreater hrendered hfit hadopts,
      determined_of_adoptsGreater hrendered hconsistent hadopts⟩

end Law

/-! ### Two concurrent writers -/

/-- The `WRITE_VALUE` messages of two writers that have chosen the same version number. -/
def concurrentWrites : List (Phase × Body) :=
  [(.writeValue, ⟨ascii ['o'], tagToString ⟨1, ascii ['w', '1']⟩, [1]⟩),
    (.writeValue, ⟨ascii ['o'], tagToString ⟨1, ascii ['w', '3']⟩, [3]⟩)]

theorem rendered_concurrentWrites : Rendered concurrentWrites := by
  unfold Rendered
  decide +kernel

theorem consistent_concurrentWrites : Consistent concurrentWrites := by
  intro object
  by_cases hobject : object = ascii ['o']
  · subst hobject
    decide +kernel
  · have hnone : written concurrentWrites object = [] := by
      simp [written, concurrentWrites, Ne.symm hobject]
    simp [hnone]

/-- With a `strcmp` that returns only signs the law holds. -/
theorem obeysLaw_concurrentWrites : ObeysLaw Strcmp.sign [] concurrentWrites ∧
    Determined Strcmp.sign [] concurrentWrites := by
  refine (obeysLaw_iff rendered_concurrentWrites consistent_concurrentWrites).mpr
    ⟨keysFit_of_short rendered_concurrentWrites (by decide +kernel), ?_⟩
  intro before m after server _ _ _ hless
  exact compareTags_sign_eq_neg_one _ _ hless

/-- A `WRITE_VALUE` whose tag has a rendering of 64 bytes, and a request for the tag. -/
def longKey : List (Phase × Body) :=
  [(.writeValue, ⟨ascii ['o'], tagToString ⟨1, List.replicate 62 119⟩, [1]⟩),
    (.getTag, ⟨ascii ['o'], [], []⟩)]

theorem consistent_longKey : Consistent longKey := by
  intro object
  by_cases hobject : object = ascii ['o']
  · subst hobject
    decide +kernel
  · have hnone : written longKey object = [] := by
      simp [written, longKey, Ne.symm hobject]
    simp [hnone]

/-- With a `strcmp` that returns the difference of two bytes the server keeps the smaller tag of two
concurrent writes; and with any `strcmp` a key of 64 bytes overflows the buffer of the next
handler. -/
theorem not_obeysLaw_concurrentWrites :
    (Rendered concurrentWrites ∧ Consistent concurrentWrites ∧
      ¬ ObeysLaw Strcmp.difference [] concurrentWrites) ∧
    Rendered longKey ∧ Consistent longKey ∧ ¬ ObeysLaw Strcmp.sign [] longKey := by
  have hlong : Rendered longKey := by
    unfold Rendered
    decide +kernel
  refine ⟨⟨rendered_concurrentWrites, consistent_concurrentWrites, fun hlaw ↦ ?_⟩, hlong,
    consistent_longKey, fun hlaw ↦ ?_⟩
  · have hstored : (handleAll Strcmp.difference [] concurrentWrites.dropLast).map
        (fun server ↦ (server.version [] (ascii ['o'])).1) = some ⟨1, ascii ['w', '1']⟩ := by
      decide +kernel
    obtain ⟨server, hserver, htag⟩ := Option.map_eq_some_iff.mp hstored
    have hone := adoptsGreater_of_obeysLaw rendered_concurrentWrites hlaw concurrentWrites.dropLast
      (.writeValue, ⟨ascii ['o'], tagToString ⟨1, ascii ['w', '3']⟩, [3]⟩) [] server rfl rfl
      hserver
    rw [Body.tagValue_tagToString, htag] at hone
    exact absurd (hone (by decide)) (by decide)
  · obtain ⟨server, hserver, -⟩ := hlaw longKey (List.prefix_refl _)
    have hnone : (handleAll Strcmp.sign [] longKey).isNone = true := by decide +kernel
    simp [hserver] at hnone

end Colas.Abd
