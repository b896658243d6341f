import Colas.Abd.Progress
import Colas.Abd.Sizes
import Colas.Shared.Refinement

/-!
# No message stops a process of the shared system

Every message that was sent to a server that runs can be handled, and every message that was sent to
a client process that runs an operation can be received by its loop, of whichever algorithm the
message and the loop are (`handled_when_shared`). That is so as long as the buffers of the program
have room for the tags of the writes, for the keys of the notices, and for the tags that an ABD
writer collects.
-/

set_option autoImplicit false
set_option relaxedAutoImplicit false

namespace Colas.Abd

variable {n : ℕ}

/-- A client that runs an operation takes a turn on every response, if its block holds the tag of a
response to `GET_TAG`. -/
theorem Client.receive_isSome (strcmp : Strcmp) (clientId : CString)
    {heap : Heap} {client : Client} (hidle : client ≠ .idle)
    (hexited : client ≠ .exited) (hunset : client.Unset) (hnonneg : client.Nonneg)
    (hnumbers : client.Told fun tag ↦ tag.number < 2 ^ 31 - 1) {round : ℕ} {phase : Phase}
    {frames : Body} (htag : frames.tag = tagToString frames.tagValue)
    (hz : 0 ≤ frames.tagValue.number) (hnumber : frames.tagValue.number < 2 ^ 31 - 1)
    (hholds : phase = .getTag → heap.Holds frames.tagValue) :
    (client.receive (n := n) strcmp clientId heap round phase frames).isSome = true := by
  by_cases hawaits : client.awaits = some (round, phase)
  · obtain ⟨turn, hturn⟩ := Client.exists_receive (n := n) strcmp clientId hawaits hunset hnonneg
      hnumbers htag hz hnumber hholds
    rw [hturn]
    rfl
  · have hparse : stringToTag frames.tag = some frames.tagValue := by
      rw [htag, stringToTag_tagToString]
    cases client with
    | idle => exact absurd rfl hidle
    | exited => exact absurd rfl hexited
    | getMaxTag opNum object rawData responses tagList =>
      have hstale : ¬ (round = opNum ∧ phase = .getTag) := by
        rintro ⟨rfl, rfl⟩
        exact hawaits rfl
      simp [Client.receive, abdGetMaxTagPhase, hstale]
    | getMaxTagValue opNum object responses tag data =>
      have hstale : ¬ (round = opNum ∧ phase = .getTagValue) := by
        rintro ⟨rfl, rfl⟩
        exact hawaits rfl
      by_cases hsmall : phase = .getTagValue ∧ frames.payload.length < 100
      · simp [Client.receive, abdGetMaxTagValuePhase, hparse, hsmall]
      · simp [Client.receive, abdGetMaxTagValuePhase, hparse, hsmall, hstale]
    | writeValue opNum object tag operation responses =>
      have hstale : ¬ (round = opNum ∧ phase = .writeValue) := by
        rintro ⟨rfl, rfl⟩
        exact hawaits rfl
      simp [Client.receive, abdWriteValuePhase, hstale]

end Colas.Abd

namespace Colas.Shared

open TransitionSystem

variable {n : ℕ} {config : Sodaw.Config n} {w : State n} {s : Abd.State n}
  {v : Sodaw.WireState n}

theorem takeTurn_isSome (w : State n) (clientId : CString) (turn : ClientTurn n) :
    (w.takeTurn clientId turn).isSome = true := by
  rw [takeTurn_eq]
  rfl

/-- The buffers of the servers have room for what the operations of the run make. -/
structure RoomAtServers (config : Sodaw.Config n) (w : State n) : Prop where
  abdTags : ShortTags (w.events .abd)
  sodawTags : ShortTags (w.events .sodaw)
  keys : Sodaw.RoomForKeys config (w.events .sodaw)

/-- A server that runs handles everything that was sent to it, if its buffers have room. -/
theorem Separates.serve_isSome (hserver : ∀ i, FitsBuffer (config.serverId i))
    (hrun : RunApart config (Abd.State.initial, Sodaw.WireState.initial) (s, v))
    (h : Separates config w (s, v)) (hroom : RoomAtServers config w)
    {m : Fin n × Frame × List Frame} (hsent : m ∈ w.toServers.sent) (halive : w.alive m.1 = true) :
    (step config w (.serve m)).isSome = true := by
  obtain ⟨hrunABD, hrunSODAW⟩ := run_sideBySide_iff.mp hrun
  have hstep : step config w (.serve m) =
      ((w.servers m.1).serverWorkerFrames config.strcmp (config.serverArgs m.1)
        (routerReceive m.2.1 m.2.2)).bind fun result ↦ w.handle config m result.1 result.2 :=
    if_pos ⟨hsent, halive⟩
  rw [hstep]
  rcases (h.toServers m).mp hsent with ⟨⟨i, name, frames⟩, hrequest, rfl⟩ | hsodaw
  · have hshape := Abd.Shape.of_run hrunABD
    have hfits := (Abd.Limited.of_run (fun _ _ hguard ↦ hguard.2) hrunABD).requested hrequest
    have hstore : WellFormed (w.servers i).abd.objects := h.objectsABD i ▸ hshape.stores i
    have hshort : (Abd.Server.version config.initData (w.servers i).abd frames.object).1.Short := by
      rw [Abd.Server.version, h.objectsABD i]
      exact (h.abdEvents ▸ hroom.abdTags).of_made
        ((Abd.TagsMade.of_run hrunABD).stored frames.object i)
    obtain ⟨server, hresult, -, -⟩ := Abd.algorithmABD_eq config.strcmp config.initData hstore
      (fun hphase ↦ (hshape.requested hrequest hphase).1) hshort
    have hworker := serverWorkerFrames_abd config.strcmp (config.serverArgs i) (w.servers i) hfits
    rw [Sodaw.Config.serverArgs, hresult, Option.map_some] at hworker
    exact Sodaw.isSome_bind_of_eq_some hworker rfl
  · obtain ⟨u, hu, hrefines⟩ := (Sodaw.refines hserver).run hrunSODAW
    obtain ⟨v', hv'⟩ := Option.isSome_iff_exists.mp
      (hrefines.serve_isSome hserver hu (h.sodawEvents ▸ hroom.sodawTags)
        (h.sodawEvents ▸ hroom.keys) hsodaw (h.alive ▸ halive))
    simp only [Sodaw.wireStep, Option.ite_none_right_eq_some, Option.bind_eq_bind,
      Option.bind_eq_some_iff] at hv'
    obtain ⟨-, ⟨process', sent⟩, hworker', hhandle'⟩ := hv'
    obtain ⟨process, hworker⟩ : ∃ process, (w.servers m.1).serverWorkerFrames config.strcmp
        (config.serverArgs m.1) (routerReceive m.2.1 m.2.2) = some (process, sent) := by
      rcases sodaw_toServers hserver hrunSODAW hsodaw with ⟨i, name, frames, rfl, hfits⟩ |
        ⟨i, j, notice, rfl, hfits⟩
      · obtain ⟨-, process, hworker, -⟩ := agrees_request (h.sodaw i).symm hfits hworker'
        exact ⟨process, hworker⟩
      · obtain ⟨-, process, hworker, -⟩ := agrees_notice (h.sodaw j).symm hfits hworker'
        exact ⟨process, hworker⟩
    simp only [Sodaw.WireState.handle, Option.bind_eq_bind, Option.bind_eq_some_iff] at hhandle'
    obtain ⟨replies, hreplies, -⟩ := hhandle'
    refine Sodaw.isSome_bind_of_eq_some hworker ?_
    rw [State.handle, hreplies]
    rfl

/-- The client process can make a tag that is greater than those of the operations of the run, and
its blocks hold them. -/
structure RoomAtClient (w : State n) (heap : Abd.Heap) : Prop where
  numbers : IncreasableTags (w.events .abd)
  blocks : ∀ tag, Made (w.events .abd) tag → heap.Holds tag

/-- A process in an operation of ABD takes a turn on everything that was sent to it, if it has
room. -/
theorem Separates.abdTurn_isSome (hserver : ∀ i, FitsBuffer (config.serverId i))
    (hrun : RunApart config (Abd.State.initial, Sodaw.WireState.initial) (s, v))
    (h : Separates config w (s, v)) {m : Fin n × Frame × List Frame}
    (hsent : m ∈ w.toClients.sent) {heap : Abd.Heap} (hroom : RoomAtClient w heap)
    {client : Abd.Client} (hclient : w.clients m.2.1 = .abd client) (hidle : client ≠ .idle)
    (hexited : client ≠ .exited) :
    (client.receiveFrames (n := n) config.strcmp m.2.1 heap m.2.2).isSome = true := by
  obtain ⟨hrunABD, hrunSODAW⟩ := run_sideBySide_iff.mp hrun
  rcases (h.toClients m).mp hsent with ⟨⟨i, name, frames⟩, hresponse, rfl⟩ | hsodaw
  · have htag := ((Abd.Limited.of_run (fun _ _ hguard ↦ hguard.2) hrunABD).answered hresponse).2
    have hshape := Abd.Shape.of_run hrunABD
    have hmade := Abd.TagsMade.of_run hrunABD
    obtain ⟨hnumbers, hblocks⟩ := hroom
    rw [h.abdEvents] at hnumbers hblocks
    have hown := h.eq_of_abd hclient hexited
    rw [abd_receives hserver hrunABD hresponse]
    refine Abd.Client.receive_isSome _ _ hidle hexited ?_ ?_ ?_ htag (hshape.answered hresponse).1
      (hnumbers.of_made (hmade.answered hresponse)) fun _ ↦ hblocks _ (hmade.answered hresponse)
    · rw [hown]
      exact (Abd.Live.of_run (hrunABD.weaken fun _ _ hguard ↦ hguard.1)).unset _
    · rw [hown]
      exact hshape.clients _
    · rw [hown]
      exact (hmade.clients _).mono fun tag ↦ hnumbers.of_made
  · obtain ⟨client', hskip, -⟩ := abd_skips hserver hrunSODAW hsodaw heap hidle hexited
    rw [hskip]
    rfl

/-- A process in an operation of SODAW takes a turn on everything that was sent to it. -/
theorem Separates.sodawTurn_isSome (hserver : ∀ i, FitsBuffer (config.serverId i))
    (hrun : RunApart config (Abd.State.initial, Sodaw.WireState.initial) (s, v))
    (h : Separates config w (s, v)) {m : Fin n × Frame × List Frame}
    (hsent : m ∈ w.toClients.sent) {client : Sodaw.Client}
    (hclient : w.clients m.2.1 = .sodaw client) (hidle : client ≠ .idle)
    (hexited : client ≠ .exited) :
    (client.receiveFrames (n := n) config.strcmp m.2.1 m.2.2).isSome = true := by
  obtain ⟨hrunABD, hrunSODAW⟩ := run_sideBySide_iff.mp hrun
  rcases (h.toClients m).mp hsent with ⟨response, hresponse, rfl⟩ | hsodaw
  · rw [sodaw_skips hserver hrunABD hresponse _ hidle hexited]
    rfl
  · obtain ⟨u, hu, hrefines⟩ := (Sodaw.refines hserver).run hrunSODAW
    have hown := h.eq_of_sodaw hclient
    obtain ⟨v', hv'⟩ := Option.isSome_iff_exists.mp
      (hrefines.receive_isSome hserver hu hsodaw (hown ▸ hidle) (hown ▸ hexited))
    simp only [Sodaw.wireStep, Option.ite_none_right_eq_some, Option.bind_eq_bind,
      Option.bind_eq_some_iff] at hv'
    obtain ⟨-, turn, hturn, -⟩ := hv'
    rw [hown, hturn]
    rfl

/-- A process that runs an operation receives everything that was sent to it, if it has room. -/
theorem Separates.receive_isSome (hserver : ∀ i, FitsBuffer (config.serverId i))
    (hrun : RunApart config (Abd.State.initial, Sodaw.WireState.initial) (s, v))
    (h : Separates config w (s, v)) {m : Fin n × Frame × List Frame}
    (hsent : m ∈ w.toClients.sent) {heap : Abd.Heap} (hroom : RoomAtClient w heap)
    (hidle : ¬ (w.clients m.2.1).IsIdle) (hexited : ¬ (w.clients m.2.1).IsExited) :
    (step config w (.receive m heap)).isSome = true := by
  have hstep : step config w (.receive m heap) =
      ((w.clients m.2.1).receiveFrames config.strcmp m.2.1 heap m.2.2).bind fun turn ↦
        ({ w with toClients := w.toClients.deliver m } : State n).takeTurn m.2.1 turn :=
    if_pos hsent
  suffices hturn : ((w.clients m.2.1).receiveFrames (n := n) config.strcmp m.2.1 heap
      m.2.2).isSome = true by
    obtain ⟨turn, hturn⟩ := Option.isSome_iff_exists.mp hturn
    rw [hstep]
    exact Sodaw.isSome_bind_of_eq_some hturn (takeTurn_isSome _ _ turn)
  cases hclient : w.clients m.2.1 with
  | abd client =>
    rw [hclient] at hidle hexited
    rw [Client.receiveFrames, Option.isSome_map]
    exact h.abdTurn_isSome hserver hrun hsent hroom hclient
      (fun heq ↦ hidle (Or.inl (congrArg Client.abd heq)))
      (fun heq ↦ hexited (Or.inl (congrArg Client.abd heq)))
  | sodaw client =>
    rw [hclient] at hidle hexited
    rw [Client.receiveFrames, Option.isSome_map]
    exact h.sodawTurn_isSome hserver hrun hsent hclient
      (fun heq ↦ hidle (Or.inr (congrArg Client.sodaw heq)))
      (fun heq ↦ hexited (Or.inr (congrArg Client.sodaw heq)))

/-- In every run of the two algorithms on the same processes, if the buffers have room, each message
that was sent to a server that runs can be handled, and each message that was sent to a process that
runs an operation can be received. -/
theorem handled_when_shared (hserver : ∀ i, FitsBuffer (config.serverId i))
    (run : SharedRun config w) :
    (RoomAtServers config w → ∀ m ∈ w.toServers.sent, w.alive m.1 = true →
      (step config w (.serve m)).isSome = true) ∧
    ∀ m ∈ w.toClients.sent, ∀ heap, RoomAtClient w heap → ¬ (w.clients m.2.1).IsIdle →
      ¬ (w.clients m.2.1).IsExited → (step config w (.receive m heap)).isSome = true := by
  obtain ⟨⟨s, v⟩, hrun, hseparates⟩ := (separates hserver).run run
  exact ⟨fun hroom _ hsent halive ↦ hseparates.serve_isSome hserver hrun hroom hsent halive,
    fun _ hsent _ hroom hidle hexited ↦
      hseparates.receive_isSome hserver hrun hsent hroom hidle hexited⟩

/-- If neither the initial data nor a payload that was written by ABD has less than 100 bytes, no
process has been ended in an operation of ABD. -/
theorem not_exited_of_large (hserver : ∀ i, FitsBuffer (config.serverId i))
    (hinit : 100 ≤ config.initData.length) (run : SharedRun config w)
    (hwrites : LargeWrites (w.events .abd)) (clientId : CString) :
    w.clients clientId ≠ .abd .exited := by
  obtain ⟨⟨s, v⟩, hrun, hseparates⟩ := (separates hserver).run run
  obtain ⟨hrunABD, -⟩ := run_sideBySide_iff.mp hrun
  have hsized := Abd.Sized.of_run hinit hrunABD (hseparates.abdEvents ▸ hwrites)
  intro hended
  rcases hseparates.abdClients clientId with hsame | ⟨-, hsmall⟩
  · rw [hended] at hsame
    have hclient := hsized.clients clientId
    rw [← hsame] at hclient
    exact hclient
  · exact absurd hinit (not_le.mpr hsmall)

/-- Three servers with large initial data. -/
def largeConfig : Sodaw.Config 3 :=
  { Sodaw.sampleConfig 3 with initData := Abd.hundredBytes 0 }

/-- After the writes of `sampleSwitch`, a client reads by SODAW, and then by ABD. The loop of ABD
gets the element of the third server, which has had the write of SODAW only then. -/
def sampleRelay (first second third : Fin 3) : List (Action 3) :=
  let object := ascii ['o']
  let writer := ascii ['w']
  let reader := ascii ['r']
  let tagStr := tagToString ⟨1, writer⟩
  let stripe := Sodaw.sampleStripe third [1, 2, 3, 4]
  let wire : Sodaw.Action 3 → Action 3 := fun a ↦ .ofSodaw (a.onWire largeConfig)
  sampleSwitch first second third (Abd.hundredBytes 5) ++
    (Sodaw.sampleRead [1, 2, 3, 4]).map wire ++
    [ wire (.serve (third, ⟨reader, 1, .readValue⟩, ⟨object, tagStr, []⟩)),
      wire (.serve (third, ⟨writer, 1, .writePut⟩, ⟨object, tagStr, stripe⟩)),
      wire (.timeout reader),
      .invokeRead .abd reader 1 object,
      wire (.receiveElement (third, ⟨reader, 1, .readValue⟩, ⟨object, tagStr, stripe⟩)) ]

/-- The events of ABD in `sampleRelay`. -/
def sampleRelayEvents : List Event :=
  let object := ascii ['o']
  let writer := ascii ['w']
  [ .readInvoked (ascii ['r']) 1 object,
    .writeCompleted writer 1 object ⟨1, writer⟩,
    .writeTagged writer 1 object ⟨1, writer⟩ (Abd.hundredBytes 5),
    .writeInvoked writer 1 object (Abd.hundredBytes 5) ]

theorem exists_run_sampleRelay : ∃ w : State 3, SharedRun largeConfig w ∧
    (w.toServers.sent.length = 33 ∧ w.toClients.sent.length = 15) ∧
    w.clients (ascii ['r']) = .abd (.getMaxTagValue 1 (ascii ['o']) 0 ⟨-1, []⟩ none) ∧
    w.events .abd = sampleRelayEvents ∧ w.events .sodaw = Sodaw.sampleHistory [1, 2, 3, 4] := by
  have hrun : (executeShared largeConfig (sampleRelay 0 1 2)).any (fun w ↦
      (w.toServers.sent.length = 33 ∧ w.toClients.sent.length = 15) ∧
        w.clients (ascii ['r']) = .abd (.getMaxTagValue 1 (ascii ['o']) 0 ⟨-1, []⟩ none) ∧
        w.events .abd = sampleRelayEvents ∧
        w.events .sodaw = Sodaw.sampleHistory [1, 2, 3, 4]) = true := by
    decide +kernel
  obtain ⟨w, hexecute, hw⟩ := (Option.any_eq_true _ _).mp hrun
  exact ⟨w, run_of_execute hexecute, of_decide_eq_true hw⟩

/-- At the end of `sampleRelay`, while the reader is in its loop of ABD, all messages can be handled
and received. -/
theorem handled_when_shared_sample : ∃ w : State 3,
    (w.toServers.sent.length = 33 ∧ w.toClients.sent.length = 15) ∧
      w.clients (ascii ['r']) = .abd (.getMaxTagValue 1 (ascii ['o']) 0 ⟨-1, []⟩ none) ∧
      (∀ m ∈ w.toServers.sent, w.alive m.1 = true →
        (step largeConfig w (.serve m)).isSome = true) ∧
      ∀ m ∈ w.toClients.sent, ¬ (w.clients m.2.1).IsIdle → ¬ (w.clients m.2.1).IsExited →
        (step largeConfig w (.receive m .adjacent)).isSome = true := by
  obtain ⟨w, hshared, hsent, hclient, habd, hsodaw⟩ := exists_run_sampleRelay
  have htags : ∀ client opnum object tag payload,
      .writeTagged client opnum object tag payload ∈ w.events .abd → tag = ⟨1, ascii ['w']⟩ := by
    intro client opnum object tag payload hmem
    rw [habd] at hmem
    simp only [sampleRelayEvents, List.mem_cons, reduceCtorEq, Event.writeTagged.injEq,
      List.not_mem_nil, or_false, false_or] at hmem
    exact hmem.2.2.2.1
  have hservers : RoomAtServers largeConfig w :=
    { abdTags := fun client opnum object tag payload hmem ↦ by
        rw [htags client opnum object tag payload hmem]
        decide
      sodawTags := hsodaw ▸ Sodaw.shortTags_sampleHistory _
      keys := hsodaw ▸ Sodaw.roomForKeys_sampleHistory _ }
  have hclients : RoomAtClient w .adjacent :=
    { numbers := fun client opnum object tag payload hmem ↦ by
        rw [htags client opnum object tag payload hmem]
        decide
      blocks := fun tag hmade ↦ by
        rcases hmade with rfl | ⟨client, opnum, object, payload, hmem⟩
        · decide
        · rw [htags client opnum object tag payload hmem]
          decide }
  obtain ⟨hserve, hreceive⟩ := handled_when_shared (by decide) hshared
  exact ⟨w, hsent, hclient, hserve hservers, fun m hm ↦ hreceive m hm .adjacent hclients⟩

/-- The reader of `sampleRelay` waits on after the element. -/
theorem not_exited_of_large_sample : ∃ w : State 3,
    w.clients (ascii ['r']) = .abd (.getMaxTagValue 1 (ascii ['o']) 0 ⟨-1, []⟩ none) ∧
      ∀ clientId, w.clients clientId ≠ .abd .exited := by
  obtain ⟨w, hshared, -, hclient, habd, -⟩ := exists_run_sampleRelay
  refine ⟨w, hclient, not_exited_of_large (by decide) (by decide) hshared ?_⟩
  intro clientId opNum object payload hmem
  rw [habd] at hmem
  obtain rfl : payload = Abd.hundredBytes 5 := by
    simp only [sampleRelayEvents, List.mem_cons, reduceCtorEq, List.not_mem_nil, or_false,
      false_or, Event.writeInvoked.injEq] at hmem
    exact hmem.2.2.2
  decide

end Colas.Shared
