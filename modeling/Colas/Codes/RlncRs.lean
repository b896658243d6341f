import Mathlib.Algebra.Order.Floor.Semiring
import Mathlib.Data.Rat.Floor
import Mathlib.Data.List.GetD
import Colas.Utilities.Tag

/-!
# Encoding and decoding

`encode` cuts the data of a writer into blocks of `K` symbols, pads the last one with spaces, and
lets the codec write `N` payloads for each block; stripe `s`, which goes to server `s`, is the
concatenation of the payloads `s` of all blocks. `decode` cuts `K` stripes back into payloads and
feeds the payloads of each block to a decoder. The codec itself is outside the repository; `Codec`
is its interface, with the two facts about sizes that its interface states, and `Codec.Decodes` is
what a block codec is for: a decoder that has read `K` different payloads of one block is complete,
and the data of a complete decoder are the block.

A computation that overflows an `int`, reads or writes outside an array, divides by zero, uses a
variable without a value or does not end has no result. `encode` is a loop over the blocks, whose
state is `Encoding` and which fills a block with a generator that counts bytes. What it comes to is
`encoded`: `encode_eq_some_iff` says when it returns that.
-/

set_option autoImplicit false
set_option relaxedAutoImplicit false

namespace Colas

/-- The value of an `int` expression whose mathematical value is not negative. -/
def checkedInt (value : ℕ) : Option ℕ := if value < 2 ^ 31 then some value else none

theorem checkedInt_of_lt {value : ℕ} (h : value < 2 ^ 31) : checkedInt value = some value :=
  if_pos h

theorem checkedInt_of_le {value : ℕ} (h : 2 ^ 31 ≤ value) : checkedInt value = none :=
  if_neg h.not_gt

theorem checkedInt_eq_some_iff {value result : ℕ} :
    checkedInt value = some result ↔ value < 2 ^ 31 ∧ value = result := by
  by_cases h : value < 2 ^ 31
  · rw [checkedInt_of_lt h, Option.some.injEq]
    exact ⟨fun heq ↦ ⟨h, heq⟩, fun heq ↦ heq.2⟩
  · rw [checkedInt_of_le (not_lt.mp h)]
    exact ⟨fun hnone ↦ by simp at hnone, fun heq ↦ absurd heq.1 h⟩

/-- `CodingAlgorithm`. -/
inductive CodingAlgorithm
  | fullVector
  | reedSolomon
  deriving DecidableEq

/-- The encoders and decoders of the codec library, for one coding algorithm. -/
structure Codec where
  /-- `payload_size` of a coder for a number of symbols of a size. -/
  payloadSize : ℕ → ℕ → ℕ
  /-- The payload that an encoder writes for a block, when it has written a number of payloads
  before. -/
  writePayload : ℕ → ℕ → Frame → ℕ → Frame
  /-- The states of a decoder. -/
  Decoder : Type
  /-- A new decoder. -/
  build : ℕ → ℕ → Decoder
  /-- `read_payload`. -/
  readPayload : Decoder → Frame → Decoder
  /-- `is_complete`. -/
  isComplete : Decoder → Bool
  /-- The symbols of the decoder. -/
  dataOut : Decoder → Frame
  /-- A payload fills its buffer. -/
  length_writePayload : ∀ k symbolSize block count,
    (writePayload k symbolSize block count).length = payloadSize k symbolSize
  /-- A payload contains a symbol. -/
  symbolSize_le_payloadSize : ∀ k symbolSize, symbolSize ≤ payloadSize k symbolSize

/-- A decoder that has read different payloads of one block. -/
def Codec.decoderAfter (codec : Codec) (k symbolSize : ℕ) (block : Frame) (counts : List ℕ) :
    codec.Decoder :=
  counts.foldl
    (fun decoder count ↦ codec.readPayload decoder (codec.writePayload k symbolSize block count))
    (codec.build k symbolSize)

/-- Any `K` different payloads of one block decode to the block. -/
structure Codec.Decodes (codec : Codec) : Prop where
  /-- The data of a complete decoder are the block. -/
  dataOut_eq : ∀ {k symbolSize block counts}, block.length = k * symbolSize → counts.Nodup →
    codec.isComplete (codec.decoderAfter k symbolSize block counts) = true →
      codec.dataOut (codec.decoderAfter k symbolSize block counts) = block
  /-- A decoder is complete after `K` payloads. -/
  isComplete : ∀ {k symbolSize block counts}, block.length = k * symbolSize → counts.Nodup →
    counts.length = k → codec.isComplete (codec.decoderAfter k symbolSize block counts) = true

/-- `EncodeData`. A field that `create_EncodeData` does not set is written by `encode`, `decode` or
`get_encoded_info` before it is read. -/
structure EncodeData where
  /-- `decoded_data`. -/
  decodedData : Frame
  /-- `encoded_data`. -/
  encodedData : List Frame
  /-- `raw_data`. -/
  rawData : Frame
  /-- `encoded_symbol_size`. -/
  encodedSymbolSize : ℕ
  /-- `offset_index`. -/
  offsetIndex : ℕ
  /-- `num_blocks`. -/
  numBlocks : ℕ
  /-- `symbol_size`. -/
  symbolSize : ℕ
  /-- `raw_data_size`. -/
  rawDataSize : ℕ
  /-- `padded_data_size`. -/
  paddedDataSize : ℕ
  /-- `total_data_size`. -/
  totalDataSize : ℤ
  /-- `N`. -/
  n : ℕ
  /-- `K`. -/
  k : ℕ
  /-- `algorithm`. -/
  algorithm : CodingAlgorithm

/-! ### Encoding -/

/-- What the generator of `encode` changes: the number of bytes that it has returned, and the data
that are left. -/
structure Input where
  /-- `data_encoded`. -/
  dataEncoded : ℕ
  /-- The bytes that `data` points to. -/
  data : Frame

/-- The generator of `encode`: the next byte of the data, and a space after the last one. -/
def Input.next (rawDataSize : ℕ) (input : Input) : Option (Byte × Input) :=
  if input.dataEncoded < rawDataSize then
    match input.data with
    | [] => none
    | byte :: rest => some (byte, ⟨input.dataEncoded + 1, rest⟩)
  else some (32, ⟨input.dataEncoded + 1, input.data⟩)

/-- `std::generate`, for a number of bytes. -/
def Input.generate (rawDataSize : ℕ) : ℕ → Input → Option (Frame × Input)
  | 0, input => some ([], input)
  | count + 1, input => do
    let (byte, input) ← input.next rawDataSize
    let (rest, input) ← generate rawDataSize count input
    some (byte :: rest, input)

/-- What the loop of `encode` changes. -/
structure Encoding where
  /-- The state of the generator. -/
  input : Input
  /-- The number of payloads that the encoder has written. -/
  written : ℕ
  /-- `striped_data`. -/
  stripedData : List (List Frame)
  /-- `encoded_symbol_size`, which is not initialised. -/
  encodedSymbolSize : Option ℕ
  /-- `block_num`. -/
  blockNum : ℕ

/-- One turn of the loop of `encode`: a block is filled, and `N` payloads are written for it, one
for each stripe. -/
def Encoding.step (codec : Codec) (info : EncodeData) (encoding : Encoding) : Option Encoding := do
  let (dataIn, input) ← encoding.input.generate info.rawDataSize (info.k * info.symbolSize)
  some
    { input := input
      written := encoding.written + info.n
      stripedData := encoding.stripedData.mapIdx fun i stripe ↦
        stripe ++ [codec.writePayload info.k info.symbolSize dataIn (encoding.written + i)]
      encodedSymbolSize :=
        if info.n = 0 then encoding.encodedSymbolSize
        else some (codec.payloadSize info.k info.symbolSize)
      blockNum := encoding.blockNum + 1 }

/-- The loop of `encode`, with a bound on the number of turns. -/
def encodeLoop (codec : Codec) (info : EncodeData) : ℕ → Encoding → Option Encoding
  | 0, _ => none
  | fuel + 1, encoding =>
    if encoding.input.dataEncoded < info.rawDataSize then do
      let encoding ← encoding.step codec info
      encodeLoop codec info fuel encoding
    else some encoding

/-- The state before the loop of `encode`. -/
def Encoding.initial (info : EncodeData) : Encoding :=
  ⟨⟨0, info.rawData⟩, 0, List.replicate info.n [], none, 0⟩

/-- `encode`. Every turn of the loop takes a byte, so that the bound on the turns is reached only
with empty blocks, for which the loop does not end. -/
def encode (codecs : CodingAlgorithm → Codec) (info : EncodeData) : Option EncodeData := do
  let _blockSize ← checkedInt (info.k * info.symbolSize)
  let encoding ← encodeLoop (codecs info.algorithm) info (info.rawDataSize + 1) (.initial info)
  let encodedSymbolSize ← encoding.encodedSymbolSize
  let _stripeSize ← checkedInt (encoding.blockNum * encodedSymbolSize)
  some { info with
    encodedSymbolSize := encodedSymbolSize
    numBlocks := encoding.blockNum
    paddedDataSize := encoding.input.dataEncoded - info.rawDataSize
    encodedData := encoding.stripedData.map List.flatten
    totalDataSize := Int.bmod encoding.input.dataEncoded (2 ^ 32) }

/-! ### What the encoding loop comes to -/

/-- The bytes of a block: those of the data, and a space after the last one. -/
def block (info : EncodeData) (b : ℕ) : Frame :=
  (List.range (info.k * info.symbolSize)).map fun i ↦
    (info.rawData.take info.rawDataSize).getD (b * (info.k * info.symbolSize) + i) 32

/-- The payload of a stripe for a block. One encoder writes all payloads, `N` for each block. -/
def blockPayload (codec : Codec) (info : EncodeData) (b s : ℕ) : Frame :=
  codec.writePayload info.k info.symbolSize (block info b) (b * info.n + s)

/-- A stripe. -/
def stripe (codec : Codec) (info : EncodeData) (blockNum s : ℕ) : Frame :=
  (List.range blockNum).flatMap fun b ↦ blockPayload codec info b s

/-- The number of turns of the encoding loop, each of which takes a block of bytes. -/
def blockCount (info : EncodeData) : ℕ :=
  (info.rawDataSize + info.k * info.symbolSize - 1) / (info.k * info.symbolSize)

/-- The number of bytes of all blocks. -/
def blocksSize (info : EncodeData) : ℕ := blockCount info * (info.k * info.symbolSize)

/-- What `encode` returns, if it returns. -/
def encoded (codecs : CodingAlgorithm → Codec) (info : EncodeData) : EncodeData :=
  { info with
    encodedSymbolSize := (codecs info.algorithm).payloadSize info.k info.symbolSize
    numBlocks := blockCount info
    paddedDataSize := blocksSize info - info.rawDataSize
    encodedData := (List.range info.n).map (stripe (codecs info.algorithm) info (blockCount info))
    totalDataSize := Int.bmod (blocksSize info) (2 ^ 32) }

/-- The conditions under which `encode` returns: the sizes are positive, the data are as long as
they are said to be, and no `int` overflows. -/
structure Encodable (codecs : CodingAlgorithm → Codec) (info : EncodeData) : Prop where
  rawDataSize_pos : 0 < info.rawDataSize
  rawDataSize_le : info.rawDataSize ≤ info.rawData.length
  n_pos : 0 < info.n
  blockSize_pos : 0 < info.k * info.symbolSize
  blockSize_lt : info.k * info.symbolSize < 2 ^ 31
  stripeSize_lt :
    blockCount info * (codecs info.algorithm).payloadSize info.k info.symbolSize < 2 ^ 31

section EncodingLoop

variable {codec : Codec} {info : EncodeData} {rawDataSize count : ℕ} {input input' : Input}

/-- The generator after a number of bytes of the data. -/
def Input.after (info : EncodeData) (count : ℕ) : Input :=
  ⟨count, info.rawData.drop (min count info.rawDataSize)⟩

/-- The generator returns the data and then spaces. -/
theorem next_after (h : info.rawDataSize ≤ info.rawData.length) (count : ℕ) :
    (Input.after info count).next info.rawDataSize =
      some ((info.rawData.take info.rawDataSize).getD count 32, Input.after info (count + 1)) := by
  by_cases hlt : count < info.rawDataSize
  · have hdrop : info.rawData.drop count = info.rawData[count] :: info.rawData.drop (count + 1) :=
      List.drop_eq_getElem_cons (hlt.trans_le h)
    have hmin : min count info.rawDataSize = count := Nat.min_eq_left hlt.le
    have hmin' : min (count + 1) info.rawDataSize = count + 1 := Nat.min_eq_left hlt
    have hgetD : (info.rawData.take info.rawDataSize).getD count 32 = info.rawData[count] := by
      rw [List.getD_eq_getElem _ _ (by rw [List.length_take]; omega), List.getElem_take]
    rw [Input.next, Input.after, if_pos hlt, hmin, hdrop, hgetD, Input.after, hmin']
  · have hmin : min count info.rawDataSize = info.rawDataSize := by omega
    have hmin' : min (count + 1) info.rawDataSize = info.rawDataSize := by omega
    have hgetD : (info.rawData.take info.rawDataSize).getD count 32 = 32 :=
      List.getD_eq_default _ _ (by rw [List.length_take]; omega)
    rw [Input.next, Input.after, if_neg hlt, hgetD, Input.after, hmin, hmin']

theorem generate_after (h : info.rawDataSize ≤ info.rawData.length) (size count : ℕ) :
    (Input.after info count).generate info.rawDataSize size =
      some ((List.range size).map fun i ↦ (info.rawData.take info.rawDataSize).getD (count + i) 32,
        Input.after info (count + size)) := by
  induction size generalizing count with
  | zero => rfl
  | succ size ih =>
    have hbytes : ((List.range (size + 1)).map fun i ↦
        (info.rawData.take info.rawDataSize).getD (count + i) 32) =
          (info.rawData.take info.rawDataSize).getD count 32 :: (List.range size).map fun i ↦
            (info.rawData.take info.rawDataSize).getD (count + 1 + i) 32 := by
      rw [List.range_succ_eq_map, List.map_cons, List.map_map]
      refine congrArg _ (List.map_congr_left fun i _ ↦ ?_)
      rw [Function.comp_apply, Nat.succ_eq_add_one, Nat.add_right_comm, Nat.add_assoc count]
    have hcount : count + 1 + size = count + (size + 1) := by omega
    simp only [Input.generate, next_after h, ih, Option.bind_eq_bind, Option.bind_some, hbytes,
      hcount]

/-- The state of the loop after a number of blocks. -/
def Encoding.after (codec : Codec) (info : EncodeData) (blocks : ℕ) : Encoding where
  input := Input.after info (blocks * (info.k * info.symbolSize))
  written := blocks * info.n
  stripedData := (List.range info.n).map fun s ↦
    (List.range blocks).map fun b ↦ blockPayload codec info b s
  encodedSymbolSize := if blocks = 0 then none else some (codec.payloadSize info.k info.symbolSize)
  blockNum := blocks

theorem initial_eq_after : Encoding.initial info = Encoding.after codec info 0 := by
  simp [Encoding.initial, Encoding.after, Input.after, List.map_const']

/-- One turn of the loop codes the next block. -/
theorem step_after (h : info.rawDataSize ≤ info.rawData.length) (hn : 0 < info.n) (blocks : ℕ) :
    (Encoding.after codec info blocks).step codec info =
      some (Encoding.after codec info (blocks + 1)) := by
  have hpayloads : (Encoding.after codec info blocks).stripedData.mapIdx (fun i stripe ↦
      stripe ++ [codec.writePayload info.k info.symbolSize (block info blocks)
        (blocks * info.n + i)]) = (Encoding.after codec info (blocks + 1)).stripedData := by
    refine List.ext_getElem (by simp [Encoding.after]) fun s hs hs' ↦ ?_
    simp [Encoding.after, List.range_succ, blockPayload]
  rw [Encoding.step, Encoding.after, generate_after h]
  simp only [Option.bind_eq_bind, Option.bind_some, if_neg hn.ne']
  refine congrArg some ?_
  rw [Encoding.after]
  congr 1
  · rw [Nat.succ_mul]
  · rw [Nat.succ_mul]

theorem lt_blockCount_iff (hblock : 0 < info.k * info.symbolSize) {b : ℕ} :
    b < blockCount info ↔ b * (info.k * info.symbolSize) < info.rawDataSize := by
  rw [blockCount, Nat.lt_iff_add_one_le, Nat.le_div_iff_mul_le hblock, Nat.succ_mul]
  omega

/-- Data have at least one block. -/
theorem blockCount_pos (hdata : 0 < info.rawDataSize) (hblock : 0 < info.k * info.symbolSize) :
    0 < blockCount info :=
  (lt_blockCount_iff hblock).mpr (by rwa [Nat.zero_mul])

/-- The loop ends after the last block. -/
theorem encodeLoop_after (h : info.rawDataSize ≤ info.rawData.length) (hn : 0 < info.n)
    (hblock : 0 < info.k * info.symbolSize) {fuel blocks : ℕ} (hle : blocks ≤ blockCount info)
    (hfuel : blockCount info < blocks + fuel) :
    encodeLoop codec info fuel (Encoding.after codec info blocks) =
      some (Encoding.after codec info (blockCount info)) := by
  induction fuel generalizing blocks with
  | zero => omega
  | succ fuel ih =>
    have hturn : (Encoding.after codec info blocks).input.dataEncoded < info.rawDataSize ↔
        blocks < blockCount info := (lt_blockCount_iff hblock).symm
    rw [encodeLoop]
    split_ifs with hmore
    · have hlt := hturn.mp hmore
      rw [step_after h hn, Option.bind_eq_bind, Option.bind_some]
      exact ih hlt (by omega)
    · have heq : blocks = blockCount info := le_antisymm hle (not_lt.mp (mt hturn.mpr hmore))
      rw [heq]

/-- What every turn keeps holds at the end of the loop, which has taken all data. -/
theorem encodeLoop_invariant {P : Encoding → Prop} (hstep : ∀ encoding encoding',
      P encoding → encoding.step codec info = some encoding' → P encoding') {fuel : ℕ}
    {encoding last : Encoding} (h : encodeLoop codec info fuel encoding = some last)
    (hP : P encoding) : P last ∧ info.rawDataSize ≤ last.input.dataEncoded := by
  induction fuel generalizing encoding with
  | zero => cases h
  | succ fuel ih =>
    rw [encodeLoop] at h
    split_ifs at h with hmore
    · obtain ⟨next, hnext, hrest⟩ := Option.bind_eq_some_iff.mp h
      exact ih hrest (hstep _ _ hP hnext)
    · obtain rfl := Option.some.inj h
      exact ⟨hP, not_lt.mp hmore⟩

/-- The generator counts the bytes that it returns, and takes those of the data away. -/
theorem next_spec {byte : Byte} (h : input.next rawDataSize = some (byte, input')) :
    input'.dataEncoded = input.dataEncoded + 1 ∧
      min input'.dataEncoded rawDataSize + input'.data.length =
        min input.dataEncoded rawDataSize + input.data.length := by
  obtain ⟨dataEncoded, data⟩ := input
  simp only [Input.next] at h
  split_ifs at h with hlt
  · cases data with
    | nil => cases h
    | cons first rest =>
      simp only [Option.some.injEq, Prod.mk.injEq] at h
      obtain ⟨-, rfl⟩ := h
      refine ⟨rfl, ?_⟩
      simp only [List.length_cons]
      omega
  · simp only [Option.some.injEq, Prod.mk.injEq] at h
    obtain ⟨-, rfl⟩ := h
    refine ⟨rfl, ?_⟩
    simp only
    omega

theorem generate_spec {dataIn : Frame}
    (h : input.generate rawDataSize count = some (dataIn, input')) :
    input'.dataEncoded = input.dataEncoded + count ∧
      min input'.dataEncoded rawDataSize + input'.data.length =
        min input.dataEncoded rawDataSize + input.data.length := by
  induction count generalizing input dataIn with
  | zero =>
    simp only [Input.generate, Option.some.injEq, Prod.mk.injEq] at h
    obtain ⟨-, rfl⟩ := h
    exact ⟨rfl, rfl⟩
  | succ count ih =>
    simp only [Input.generate, Option.bind_eq_bind, Option.bind_eq_some_iff, Prod.exists,
      Option.some.injEq, Prod.mk.injEq] at h
    obtain ⟨byte, middle, hnext, rest, last, hrest, -, rfl⟩ := h
    obtain ⟨hone, hbyte⟩ := next_spec hnext
    obtain ⟨hcount, hlength⟩ := ih hrest
    exact ⟨by omega, hlength.trans hbyte⟩

/-- A turn of the loop takes a block of bytes, and sets `encoded_symbol_size` if it writes a
payload. -/
theorem step_spec {encoding encoding' : Encoding}
    (h : encoding.step codec info = some encoding') :
    encoding'.input.dataEncoded = encoding.input.dataEncoded + info.k * info.symbolSize ∧
      min encoding'.input.dataEncoded info.rawDataSize + encoding'.input.data.length =
        min encoding.input.dataEncoded info.rawDataSize + encoding.input.data.length ∧
      (info.n = 0 → encoding'.encodedSymbolSize = encoding.encodedSymbolSize) := by
  simp only [Encoding.step, Option.bind_eq_bind, Option.bind_eq_some_iff, Prod.exists,
    Option.some.injEq] at h
  obtain ⟨dataIn, input, hgenerate, rfl⟩ := h
  obtain ⟨hcount, hlength⟩ := generate_spec hgenerate
  exact ⟨hcount, hlength, fun hn ↦ if_pos hn⟩

/-- If the loop ends with a symbol size, its sizes are positive and the data are complete. -/
theorem sizes_of_encodeLoop {fuel size : ℕ} {last : Encoding}
    (h : encodeLoop codec info fuel (.initial info) = some last)
    (hsize : last.encodedSymbolSize = some size) : 0 < info.rawDataSize ∧
      info.rawDataSize ≤ info.rawData.length ∧ 0 < info.n ∧ 0 < info.k * info.symbolSize := by
  have hraw : 0 < info.rawDataSize := by
    refine Nat.pos_of_ne_zero fun hzero ↦ ?_
    cases fuel with
    | zero => cases h
    | succ fuel =>
      rw [encodeLoop, if_neg (by simp [hzero])] at h
      rw [← Option.some.inj h] at hsize
      cases hsize
  refine ⟨hraw, ?_, Nat.pos_of_ne_zero fun hn ↦ ?_, Nat.pos_of_ne_zero fun hblock ↦ ?_⟩
  · have htaken := encodeLoop_invariant (P := fun encoding ↦
        min encoding.input.dataEncoded info.rawDataSize + encoding.input.data.length =
          info.rawData.length)
      (fun _ _ hP hstep ↦ (step_spec hstep).2.1.trans hP) h (by simp [Encoding.initial])
    omega
  · have hnone := encodeLoop_invariant (P := fun encoding ↦ encoding.encodedSymbolSize = none)
      (fun _ _ hP hstep ↦ ((step_spec hstep).2.2 hn).trans hP) h rfl
    rw [hnone.1] at hsize
    cases hsize
  · have hstuck := encodeLoop_invariant (P := fun encoding ↦ encoding.input.dataEncoded = 0)
      (fun _ _ hP hstep ↦ (step_spec hstep).1.trans (by rw [hP, hblock])) h rfl
    omega

end EncodingLoop

/-- `encode` returns exactly if its data are encodable. -/
theorem encode_eq_some_iff {codecs : CodingAlgorithm → Codec} {info written : EncodeData} :
    encode codecs info = some written ↔
      Encodable codecs info ∧ encoded codecs info = written := by
  have hloop : 0 < info.rawDataSize → info.rawDataSize ≤ info.rawData.length → 0 < info.n →
      0 < info.k * info.symbolSize →
        encodeLoop (codecs info.algorithm) info (info.rawDataSize + 1) (.initial info) =
          some (Encoding.after (codecs info.algorithm) info (blockCount info)) ∧
        (Encoding.after (codecs info.algorithm) info (blockCount info)).encodedSymbolSize =
          some ((codecs info.algorithm).payloadSize info.k info.symbolSize) := by
    intro hraw hdata hn hblock
    have hpos : 0 < blockCount info := blockCount_pos hraw hblock
    have hcount : blockCount info ≤ info.rawDataSize := by
      have hlast := (lt_blockCount_iff hblock).mp (Nat.sub_one_lt hpos.ne')
      have hle := Nat.le_mul_of_pos_right (blockCount info - 1) hblock
      omega
    rw [initial_eq_after]
    exact ⟨encodeLoop_after hdata hn hblock (Nat.zero_le _) (by omega), if_neg hpos.ne'⟩
  have hflatten : (Encoding.after (codecs info.algorithm) info
      (blockCount info)).stripedData.map List.flatten =
        (List.range info.n).map (stripe (codecs info.algorithm) info (blockCount info)) := by
    rw [Encoding.after, List.map_map]
    rfl
  simp only [encode, Option.bind_eq_bind, Option.bind_eq_some_iff, checkedInt_eq_some_iff,
    Option.some.injEq]
  constructor
  · rintro ⟨_, ⟨hblockSize, -⟩, last, hlast, size, hsize, _, ⟨hstripeSize, -⟩, rfl⟩
    obtain ⟨hraw, hdata, hn, hblock⟩ := sizes_of_encodeLoop hlast hsize
    obtain ⟨hend, hendSize⟩ := hloop hraw hdata hn hblock
    obtain rfl := Option.some.inj (hend.symm.trans hlast)
    obtain rfl := Option.some.inj (hendSize.symm.trans hsize)
    refine ⟨⟨hraw, hdata, hn, hblock, hblockSize, hstripeSize⟩, ?_⟩
    rw [hflatten]
    rfl
  · rintro ⟨h, rfl⟩
    obtain ⟨hend, hendSize⟩ :=
      hloop h.rawDataSize_pos h.rawDataSize_le h.n_pos h.blockSize_pos
    refine ⟨_, ⟨h.blockSize_lt, rfl⟩, _, hend, _, hendSize, _, ⟨h.stripeSize_lt, rfl⟩, ?_⟩
    rw [hflatten]
    rfl

/-! ### Decoding -/

/-- The bytes of a stripe for a block, as `convert_from_C_to_vector` cuts them out. -/
def symbolOf (info : EncodeData) (row : Frame) (b : ℕ) : Option Frame :=
  if (b + 1) * info.encodedSymbolSize ≤ row.length then
    some ((row.drop (b * info.encodedSymbolSize)).take info.encodedSymbolSize)
  else none

/-- `convert_from_C_to_vector`, for one block. -/
def convertFromCToVector (info : EncodeData) (b : ℕ) : Option (List Frame) :=
  (List.range info.k).mapM fun c ↦ do
    let row ← info.encodedData[c + info.offsetIndex]?
    symbolOf info row b

/-- The loop of `decode` over the payloads of a block, which ends when the decoder is complete. -/
def decodeBlock (codec : Codec) (decoder : codec.Decoder) : List Frame → Option Frame
  | [] => none
  | payload :: rest =>
    let decoder := codec.readPayload decoder payload
    if codec.isComplete decoder then some (codec.dataOut decoder)
    else decodeBlock codec decoder rest

/-- `decode` with the decoders of one algorithm: whether it succeeds, and the structure afterwards.
`read_payload` reads `payload_size` bytes of a symbol. -/
def decodeWith (codec : Codec) (info : EncodeData) : Option (Bool × EncodeData) :=
  let payloadSize := codec.payloadSize info.k info.symbolSize
  if info.encodedSymbolSize < payloadSize then none
  else do
    let symbols ← (List.range info.numBlocks).mapM (convertFromCToVector info)
    let decoded := symbols.mapM fun payloads ↦
      decodeBlock codec (codec.build info.k info.symbolSize)
        (payloads.map fun payload ↦ payload.take payloadSize)
    match decoded with
    | none => some (false, info)
    | some blocks => do
      let _decodedDataSize ← checkedInt blocks.flatten.length
      some (true, { info with decodedData := blocks.flatten })

/-- `decode`. -/
def decode (codecs : CodingAlgorithm → Codec) (info : EncodeData) : Option (Bool × EncodeData) :=
  decodeWith (codecs info.algorithm) info

end Colas
