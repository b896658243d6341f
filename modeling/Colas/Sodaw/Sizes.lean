import Colas.Sodaw.Validity

/-!
# The sizes of coded elements

Every stripe that a writer sends has at least the bytes of one symbol: `encode` succeeds only with
data, and a stripe has a payload for each block of them. So what a server stores and relays has a
symbol of bytes, or it is the initial data (`Sized.of_run`).
-/

set_option autoImplicit false
set_option relaxedAutoImplicit false

namespace Colas.Sodaw

open TransitionSystem

variable {n : ℕ} {config : Config n} {s t : State n}

/-- The frame is the initial data or has the bytes of a symbol. -/
def IsSized (config : Config n) (frame : Frame) : Prop :=
  frame = config.initData ∨ symbolSize ≤ frame.length

/-- What servers store, what they relay and what writers send is large enough. -/
structure Sized (config : Config n) (s : State n) : Prop where
  requested : ∀ {i name frames}, (i, name, frames) ∈ s.calls.requests.sent →
    name.phase = .writePut → symbolSize ≤ frames.payload.length
  stored : ∀ object i, IsSized config ((s.servers i).version config.initData object).2
  element : ∀ {i name frames}, (i, name, frames) ∈ s.elements.sent →
    IsSized config frames.payload

/-- A stripe of a payload has the bytes of a symbol. -/
theorem symbolSize_le_stripe {payload : Frame} {written : EncodeData}
    (h : encodePayload config payload = some written) (i : Fin n) :
    symbolSize ≤ (written.encodedData.getD i []).length := by
  simp only [encodePayload, Option.bind_eq_bind, Option.bind_eq_some_iff] at h
  obtain ⟨info, hcreate, hencode⟩ := h
  obtain ⟨-, -, -, -, rfl⟩ := createEncodeData_eq_some_iff.mp hcreate
  obtain ⟨hencodable, rfl⟩ := encode_eq_some_iff.mp hencode
  set raw := rawEncodeData config.parameters payload
  have hblocks : 0 < blockCount raw :=
    blockCount_pos hencodable.rawDataSize_pos hencodable.blockSize_pos
  have hsymbol : symbolSize ≤
      (config.codecs raw.algorithm).payloadSize raw.k raw.symbolSize :=
    (config.codecs raw.algorithm).symbolSize_le_payloadSize _ _
  have hstripe : (encoded config.codecs raw).encodedData.getD i [] =
      stripe (config.codecs raw.algorithm) raw (blockCount raw) i := getD_encoded i.isLt
  change symbolSize ≤ ((encoded config.codecs raw).encodedData.getD i []).length
  rw [hstripe, length_stripe]
  exact hsymbol.trans (Nat.le_mul_of_pos_left _ hblocks)

theorem sized_initial : Sized config (State.initial : State n) where
  requested := fun h ↦ absurd h List.not_mem_nil
  stored := fun object i ↦ Or.inl <| by
    simp [State.initial, Server.version, Server.initial, contents]
  element := fun h ↦ absurd h List.not_mem_nil

/-- A turn whose stripes have the bytes of a symbol. -/
theorem Sized.takeTurn (h : Sized config s) {clientId : CString} {turn : Turn n Client Phase}
    (hmulticast : ∀ name content, turn.multicast = some (name, content) →
      name.phase = .writePut → ∀ i, symbolSize ≤ (content i).payload.length) :
    Sized config (s.takeTurn clientId turn) where
  requested := fun {i name frames} hmem hphase ↦ by
    rcases (turn.mem_requests_sendOn s.calls).mp hmem with ⟨content, hcall, rfl⟩ | hold
    · exact hmulticast name content hcall hphase i
    · exact h.requested hold hphase
  stored := h.stored
  element := h.element

/-- A step of a client. -/
theorem Sized.clientStep (h : Sized config s) {a : Action n} (hstep : ClientStep config s a t) :
    Sized config t := by
  cases hstep with
  | write => exact h.takeTurn (by rintro name content ⟨⟩ ⟨⟩)
  | read => exact h.takeTurn (by rintro name content ⟨⟩ ⟨⟩)
  | receive i name frames turn hsent hturn =>
    have hcollected : Sized config { s with calls := s.calls.collect (i, name, frames) } :=
      { h with }
    refine hcollected.takeTurn fun other content hcall ↦ ?_
    rw [hturn.multicast_eq] at hcall
    cases hcall
  | receiveElement i name frames turn hsent hturn =>
    have hdelivered : Sized config { s with elements := s.elements.deliver (i, name, frames) } :=
      { h with }
    refine hdelivered.takeTurn fun other content hcall ↦ ?_
    rw [hturn.multicast_eq] at hcall
    cases hcall
  | timeout clientId turn hturn =>
    refine h.takeTurn fun name content hcall hphase i ↦ ?_
    generalize s.clients clientId = client at hturn
    cases hturn with
    | startWrite hmany hnext hencode =>
      cases hcall
      exact symbolSize_le_stripe hencode i
    | startRead => cases hcall; cases hphase
    | decoded => cases hcall; cases hphase
    | failed => cases hcall

/-- A step of a server. -/
theorem Sized.serverMove (h : Sized config s) {a : Action n} (hmove : ServerMove config s a t) :
    Sized config t := by
  cases hmove with
  | serve i name frames server output hsent halive hwell hhandles =>
    refine
      { requested := fun {j other body} hmem ↦ ?_
        stored := fun object j ↦ ?_
        element := fun {j other body} hmem ↦ ?_ }
    · rw [requests_sent_handle] at hmem
      exact h.requested hmem
    · rw [servers_handle]
      split_ifs with hj
      · subst hj
        rcases hhandles.version_eq object with hsame | ⟨hphase, rfl, hnew⟩
        · rw [hsame]
          exact h.stored object j
        · rw [hnew]
          exact Or.inr (h.requested hsent hphase)
      · exact h.stored object j
    · rcases mem_elements_handle.mp hmem with ⟨rfl, hnew⟩ | hold
      · cases hhandles.sendsElement hnew with
        | relay key reader hphase =>
          have hlarge : symbolSize ≤ frames.payload.length := h.requested hsent hphase
          exact Or.inr hlarge
        | first => exact h.stored frames.object j
      · exact h.element hold
  | serveNotice i j notice server hsent halive hwell hversion hhandles =>
    refine { h with stored := fun object k ↦ ?_ }
    rw [servers_handleNotice]
    split_ifs with hk
    · rw [hversion, ← hk]
      exact h.stored object k
    · exact h.stored object k
  | stop => exact { h with }

/-- In every run everything that servers store and relay is large enough. -/
theorem Sized.of_run {guard : State n → Action n → Prop}
    (run : Run (step config) guard State.initial s) : Sized config s :=
  run.invariant_reach sized_initial fun _ _ _ hrun h _ hstep ↦
    (step_cases hstep).elim h.clientStep fun hserver ↦
      h.serverMove (hserver.move (Shape.of_run hrun))

end Colas.Sodaw
