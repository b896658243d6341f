import Mathlib.Algebra.Order.Floor.Semifield
import Colas.BaseProcess.Client
import Colas.Codes.RoundTrip

/-!
# The coding parameters of writers, readers and servers

`K` and the number of blocks are computed in several places, with differently placed rounding.
`createEncodeData` is `create_EncodeData`, which both the writer and the reader call;
`initializeSODAW` gives the `K` with which a server unregisters readers; the majority for which the
reader waits is `majority`; and `getEncodedInfo` reconstructs the symbol size from the frames that
the reader has collected.

`create_EncodeData` applies `ceil` before it divides by two, and the conversion to `int` then rounds
down. `CodingAgrees` is what the reader needs of all this, and `codingAgrees_iff` says when it has
it: the number of servers is odd, and the stripes together are shorter than `2 ^ 31` bytes, so that
no `int` overflows. With an even number of servers the reader collects one frame more than
`encoded_data` has rows (`not_codingAgrees_two`).
-/

set_option autoImplicit false
set_option relaxedAutoImplicit false

namespace Colas

/-- The fields of `Parameters` that determine the code. -/
structure Parameters where
  /-- `num_servers`. -/
  numServers : ℕ
  /-- `filesize_kb`. -/
  filesizeKb : ℚ
  /-- `coding_algorithm`. -/
  codingAlgorithm : CodingAlgorithm

/-- `(unsigned int) (parameters.filesize_kb*1024)`. -/
def Parameters.filesize (parameters : Parameters) : ℕ := ⌊parameters.filesizeKb * 1024⌋₊

/-- `SYMBOL_SIZE`. -/
def symbolSize : ℕ := 1024

/-- `create_EncodeData`. -/
def createEncodeData (parameters : Parameters) : Option EncodeData :=
  let k := ⌊(⌈(parameters.numServers : ℚ) + 1⌉₊ : ℚ) / 2⌋₊
  do
    let blockSize ← checkedInt (k * symbolSize)
    let rawDataSize ← checkedInt parameters.filesize
    if blockSize = 0 then none
    else do
      let numBlocks ← checkedInt ⌈(parameters.filesize : ℚ) / blockSize⌉₊
      some
        { decodedData := []
          encodedData := []
          rawData := []
          encodedSymbolSize := 0
          offsetIndex := 0
          numBlocks := numBlocks
          symbolSize := symbolSize
          rawDataSize := rawDataSize
          paddedDataSize := 0
          totalDataSize := 0
          n := parameters.numServers
          k := k
          algorithm := parameters.codingAlgorithm }

/-- The `K` that `initialize_SODAW` stores in `server_args`. -/
def initializeSODAW (numServers : ℕ) : ℕ := ⌈((numServers : ℚ) + 1) / 2⌉₊

/-- `get_encoded_info`. The rows of `encoded_data` have the size of the last frame, and there are
`K` of them. -/
def getEncodedInfo (info : EncodeData) (codedElements : List Frame) : Option EncodeData := do
  let cumSize ← codedElements.foldlM (fun cumSize dataFrame ↦ do
    let frameSize ← checkedInt dataFrame.length
    checkedInt (cumSize + frameSize)) 0
  let frameSize := (codedElements.getLast?.map List.length).getD 0
  if codedElements.length ≤ info.k ∧ ∀ dataFrame ∈ codedElements, dataFrame.length ≤ frameSize then
    let symbols ← checkedInt (info.numBlocks * info.k)
    if symbols = 0 then none
    else some { info with
      encodedData := codedElements
      encodedSymbolSize := cumSize / symbols }
  else none

/-- The receive loop of a reader stops with these frames: the last one makes them a majority. -/
def StopsWith (numServers : ℕ) (frames : List Frame) : Prop :=
  frames.dropLast.length < majority numServers ∧ majority numServers ≤ frames.length

/-- Writer, reader and server agree: on `K`, on the number of frames, on the number of blocks and on
the size of an encoded symbol, and the reader stays inside its arrays. -/
def CodingAgrees (codecs : CodingAlgorithm → Codec) (parameters : Parameters) : Prop :=
  ∃ info, createEncodeData parameters = some info ∧
    info.k = initializeSODAW parameters.numServers ∧
    ∀ payload : Frame, payload.length = parameters.filesize →
      ∃ written, encode codecs { info with rawData := payload, rawDataSize := payload.length } =
          some written ∧
        ∀ frames, StopsWith parameters.numServers frames →
          (∀ dataFrame ∈ frames, dataFrame ∈ written.encodedData) →
            frames.length = info.k ∧ ∃ read, getEncodedInfo info frames = some read ∧
              read.encodedSymbolSize = written.encodedSymbolSize ∧
              read.numBlocks = written.numBlocks

/-! ### The computations over exact numbers -/

/-- The `K` of `create_EncodeData`. -/
theorem floor_ceil_add_one_div_two (n : ℕ) : ⌊(⌈(n : ℚ) + 1⌉₊ : ℚ) / 2⌋₊ = (n + 1) / 2 := by
  have hceil : ⌈(n : ℚ) + 1⌉₊ = n + 1 := by
    have hcast : (n : ℚ) + 1 = ((n + 1 : ℕ) : ℚ) := by push_cast; rfl
    rw [hcast, Nat.ceil_natCast]
  rw [hceil]
  exact_mod_cast Nat.floor_div_eq_div (K := ℚ) (n + 1) 2

/-- Rounding a quotient up. -/
theorem ceil_div_eq (a : ℕ) {b : ℕ} (hb : 0 < b) : ⌈(a : ℚ) / b⌉₊ = (a + b - 1) / b := by
  have hb' : (0 : ℚ) < b := by exact_mod_cast hb
  refine le_antisymm (Nat.ceil_le.mpr ?_) ?_
  · rw [div_le_iff₀ hb']
    have hlt := Nat.lt_div_mul_add hb (a := a + b - 1)
    have hle : a ≤ (a + b - 1) / b * b := by omega
    exact_mod_cast hle
  · have hle : (a : ℚ) ≤ ⌈(a : ℚ) / b⌉₊ * b := (div_le_iff₀ hb').mp (Nat.le_ceil _)
    have hle' : a ≤ ⌈(a : ℚ) / b⌉₊ * b := by exact_mod_cast hle
    refine Nat.le_of_lt_succ (Nat.div_lt_of_lt_mul ?_)
    rw [Nat.succ_eq_add_one, Nat.mul_add, Nat.mul_comm b]
    omega

/-- A majority is the `K` of `create_EncodeData` exactly for an odd number of servers. -/
theorem add_one_div_two_eq_majority_iff (n : ℕ) : (n + 1) / 2 = majority n ↔ n % 2 = 1 := by
  rw [majority_eq]
  omega

/-- The cumulative size of frames of one length, if it is an `int`. -/
theorem foldlM_checkedInt {frames : List Frame} {size : ℕ}
    (hsize : ∀ dataFrame ∈ frames, dataFrame.length = size) {start : ℕ} (hstart : start < 2 ^ 31) :
    frames.foldlM (fun cumSize dataFrame ↦ do
        let frameSize ← checkedInt dataFrame.length
        checkedInt (cumSize + frameSize)) start =
      checkedInt (start + frames.length * size) := by
  induction frames generalizing start with
  | nil =>
    rw [List.length_nil, Nat.zero_mul, Nat.add_zero, checkedInt_of_lt hstart]
    rfl
  | cons first rest ih =>
    have hrest : start + (rest.length + 1) * size = start + size + rest.length * size := by ring
    rw [List.foldlM_cons, List.length_cons, hrest, hsize first List.mem_cons_self]
    by_cases hlt : start + size < 2 ^ 31
    · rw [checkedInt_of_lt (by omega : size < 2 ^ 31)]
      simp only [Option.bind_eq_bind, Option.bind_some, checkedInt_of_lt hlt]
      exact ih (fun dataFrame hmem ↦ hsize dataFrame (List.mem_cons_of_mem _ hmem)) hlt
    · have hfirst : ((checkedInt size).bind fun frameSize ↦ checkedInt (start + frameSize)) =
          none := by
        by_cases hsmall : size < 2 ^ 31
        · rw [checkedInt_of_lt hsmall, Option.bind_some, checkedInt_of_le (by omega)]
        · rw [checkedInt_of_le (by omega), Option.bind_none]
      simp only [Option.bind_eq_bind, hfirst, Option.bind_none]
      exact (checkedInt_of_le (by omega)).symm

/-- `get_encoded_info` on at most `K` frames of one length, with a total size and a number of
symbols that are `int`s. -/
theorem getEncodedInfo_eq (info : EncodeData) {frames : List Frame} {size : ℕ}
    (hsize : ∀ dataFrame ∈ frames, dataFrame.length = size)
    (htotal : frames.length * size < 2 ^ 31) (hcount : frames.length ≤ info.k)
    (hsymbols : info.numBlocks * info.k < 2 ^ 31) (hpos : info.numBlocks * info.k ≠ 0) :
    getEncodedInfo info frames = some { info with
      encodedData := frames
      encodedSymbolSize := frames.length * size / (info.numBlocks * info.k) } := by
  have hlast : ∀ dataFrame ∈ frames,
      dataFrame.length ≤ (frames.getLast?.map List.length).getD 0 := by
    intro dataFrame hmem
    have hne : frames ≠ [] := List.ne_nil_of_mem hmem
    rw [List.getLast?_eq_some_getLast hne, Option.map_some, Option.getD_some, hsize _ hmem,
      hsize _ (List.getLast_mem hne)]
  rw [getEncodedInfo, foldlM_checkedInt hsize (by norm_num), Nat.zero_add,
    checkedInt_of_lt htotal, Option.bind_eq_bind, Option.bind_some, if_pos ⟨hcount, hlast⟩,
    checkedInt_of_lt hsymbols]
  simp [hpos]

/-- On `K` frames of one length `get_encoded_info` recovers the size of a payload, if the total size
is an `int`. -/
theorem getEncodedInfo_stripes (info : EncodeData) {frames : List Frame} {payloadSize : ℕ}
    (hsize : ∀ dataFrame ∈ frames, dataFrame.length = info.numBlocks * payloadSize)
    (hcount : frames.length = info.k) (hpos : 0 < info.numBlocks * info.k)
    (hpayload : 0 < payloadSize) (htotal : info.k * (info.numBlocks * payloadSize) < 2 ^ 31) :
    getEncodedInfo info frames =
      some { info with encodedData := frames, encodedSymbolSize := payloadSize } := by
  have hcancel : info.k * (info.numBlocks * payloadSize) =
      payloadSize * (info.numBlocks * info.k) := by
    ring
  have hsymbols : info.numBlocks * info.k < 2 ^ 31 := by
    rw [hcancel] at htotal
    exact (Nat.le_mul_of_pos_left _ hpayload).trans_lt htotal
  rw [getEncodedInfo_eq info hsize (by rwa [hcount]) hcount.le hsymbols hpos.ne', hcount, hcancel,
    Nat.mul_div_cancel _ hpos]

/-- `get_encoded_info` has no result when the total size is not an `int`. -/
theorem getEncodedInfo_eq_none (info : EncodeData) {frames : List Frame} {size : ℕ}
    (hsize : ∀ dataFrame ∈ frames, dataFrame.length = size)
    (htotal : 2 ^ 31 ≤ frames.length * size) : getEncodedInfo info frames = none := by
  rw [getEncodedInfo, foldlM_checkedInt hsize (by norm_num), Nat.zero_add, checkedInt_of_le htotal]
  rfl

/-- When `get_encoded_info` has a result on `K` frames of one length, the total size is an `int` and
the result has the size of a payload. -/
theorem of_getEncodedInfo {info read : EncodeData} {frames : List Frame} {payloadSize : ℕ}
    (hsize : ∀ dataFrame ∈ frames, dataFrame.length = info.numBlocks * payloadSize)
    (hcount : frames.length = info.k) (hpos : 0 < info.numBlocks * info.k)
    (hpayload : 0 < payloadSize) (hread : getEncodedInfo info frames = some read) :
    info.k * (info.numBlocks * payloadSize) < 2 ^ 31 ∧
      read = { info with encodedData := frames, encodedSymbolSize := payloadSize } := by
  have htotal : info.k * (info.numBlocks * payloadSize) < 2 ^ 31 := by
    by_contra htotal
    rw [getEncodedInfo_eq_none info hsize (by rw [hcount]; exact not_lt.mp htotal)] at hread
    cases hread
  rw [getEncodedInfo_stripes info hsize hcount hpos hpayload htotal, Option.some.injEq] at hread
  exact ⟨htotal, hread.symm⟩

/-! ### When the parameters agree -/

section Agreement

variable {codecs : CodingAlgorithm → Codec} {parameters : Parameters}

/-- The number of blocks of a file for `k` symbols in a block. -/
def fileBlocks (parameters : Parameters) (k : ℕ) : ℕ :=
  (parameters.filesize + k * symbolSize - 1) / (k * symbolSize)

/-- What `create_EncodeData` returns when no `int` overflows and there is a server. -/
def freshEncodeData (parameters : Parameters) : EncodeData where
  decodedData := []
  encodedData := []
  rawData := []
  encodedSymbolSize := 0
  offsetIndex := 0
  numBlocks := fileBlocks parameters ((parameters.numServers + 1) / 2)
  symbolSize := symbolSize
  rawDataSize := parameters.filesize
  paddedDataSize := 0
  totalDataSize := 0
  n := parameters.numServers
  k := (parameters.numServers + 1) / 2
  algorithm := parameters.codingAlgorithm

theorem createEncodeData_eq_some_iff {info : EncodeData} :
    createEncodeData parameters = some info ↔
      (parameters.numServers + 1) / 2 * symbolSize < 2 ^ 31 ∧ parameters.filesize < 2 ^ 31 ∧
        (parameters.numServers + 1) / 2 * symbolSize ≠ 0 ∧
          fileBlocks parameters ((parameters.numServers + 1) / 2) < 2 ^ 31 ∧
            freshEncodeData parameters = info := by
  set k := (parameters.numServers + 1) / 2 with hk
  have hceil : k * symbolSize ≠ 0 →
      ⌈(parameters.filesize : ℚ) / (k * symbolSize : ℕ)⌉₊ = fileBlocks parameters k :=
    fun hne ↦ ceil_div_eq parameters.filesize (Nat.pos_of_ne_zero hne)
  simp only [createEncodeData, floor_ceil_add_one_div_two, ← hk, Option.bind_eq_bind,
    Option.bind_eq_some_iff, checkedInt_eq_some_iff, Option.ite_none_left_eq_some,
    Option.some.injEq]
  constructor
  · rintro ⟨_, ⟨hblock, rfl⟩, _, ⟨hfile, rfl⟩, hne, numBlocks, ⟨hcount, rfl⟩, heq⟩
    rw [hceil hne] at hcount heq
    exact ⟨hblock, hfile, hne, hcount, heq⟩
  · rintro ⟨hblock, hfile, hne, hcount, heq⟩
    rw [← hceil hne] at hcount
    refine ⟨_, ⟨hblock, rfl⟩, _, ⟨hfile, rfl⟩, hne, _, ⟨hcount, rfl⟩, ?_⟩
    rw [hceil hne]
    exact heq

/-- The data of a writer, with the parameters of `create_EncodeData`. -/
def rawEncodeData (parameters : Parameters) (payload : Frame) : EncodeData :=
  { freshEncodeData parameters with rawData := payload, rawDataSize := payload.length }

/-- A writer cuts a file of the configured size into the configured number of blocks. -/
theorem blockCount_rawEncodeData {payload : Frame} (h : payload.length = parameters.filesize) :
    blockCount (rawEncodeData parameters payload) =
      fileBlocks parameters ((parameters.numServers + 1) / 2) := by
  rw [blockCount, fileBlocks, ← h]
  rfl

/-- Every stripe of a file of the configured size has the same length. -/
theorem length_of_mem_encoded {payload : Frame} (h : payload.length = parameters.filesize)
    {dataFrame : Frame}
    (hmem : dataFrame ∈ (encoded codecs (rawEncodeData parameters payload)).encodedData) :
    dataFrame.length = fileBlocks parameters ((parameters.numServers + 1) / 2) *
      (codecs parameters.codingAlgorithm).payloadSize ((parameters.numServers + 1) / 2)
        symbolSize := by
  obtain ⟨s, -, rfl⟩ := List.mem_map.mp hmem
  rw [length_stripe, blockCount_rawEncodeData h]
  rfl

/-- A reader with the parameters of the writer holds the stripes that it has collected. -/
theorem holdsStripes_of_collected {payload : Frame} (h : payload.length = parameters.filesize)
    (servers : List ℕ) :
    HoldsStripes (encoded codecs (rawEncodeData parameters payload))
      { freshEncodeData parameters with
        encodedData := servers.map fun s ↦
          (encoded codecs (rawEncodeData parameters payload)).encodedData.getD s []
        encodedSymbolSize := (codecs parameters.codingAlgorithm).payloadSize
          ((parameters.numServers + 1) / 2) symbolSize } servers where
  k := rfl
  symbolSize := rfl
  algorithm := rfl
  numBlocks := (blockCount_rawEncodeData h).symm
  encodedSymbolSize := rfl
  encodedData := List.prefix_rfl

/-- A file that is not empty has a block. -/
theorem fileBlocks_pos (hfile : 1 ≤ parameters.filesize) {k : ℕ} (hk : 0 < k) :
    0 < fileBlocks parameters k := by
  have hblock : 0 < k * symbolSize := Nat.mul_pos hk (by decide)
  exact Nat.div_pos (by omega) hblock

/-- A list of frames that stops the reader has the length of a majority. -/
theorem StopsWith.length_eq {numServers : ℕ} {frames : List Frame}
    (h : StopsWith numServers frames) : frames.length = majority numServers := by
  obtain ⟨hbefore, hafter⟩ := h
  have hpos := majority_pos numServers
  rw [List.length_dropLast] at hbefore
  omega

/-- If the parameters agree, the number of servers is odd and the total size is an `int`. -/
theorem bounds_of_codingAgrees (hservers : 1 ≤ parameters.numServers)
    (h : CodingAgrees codecs parameters) :
    parameters.numServers % 2 = 1 ∧
      majority parameters.numServers * (fileBlocks parameters (majority parameters.numServers) *
        (codecs parameters.codingAlgorithm).payloadSize (majority parameters.numServers)
          symbolSize) < 2 ^ 31 := by
  obtain ⟨info, hcreate, hserver, hreads⟩ := h
  obtain ⟨-, -, -, -, rfl⟩ := createEncodeData_eq_some_iff.mp hcreate
  have hk : (parameters.numServers + 1) / 2 = majority parameters.numServers := hserver
  refine ⟨(add_one_div_two_eq_majority_iff _).mp hk, ?_⟩
  -- the reader collects the first stripe of some file as often as it needs
  obtain ⟨payload, hpayload⟩ : ∃ payload : Frame, payload.length = parameters.filesize :=
    ⟨List.replicate parameters.filesize 0, List.length_replicate⟩
  obtain ⟨written, hencode, hframes⟩ := hreads payload hpayload
  obtain ⟨-, rfl⟩ := encode_eq_some_iff.mp hencode
  obtain ⟨first, hfirst⟩ : ∃ first,
      first ∈ (encoded codecs (rawEncodeData parameters payload)).encodedData :=
    ⟨_, List.mem_map_of_mem (List.mem_range.mpr hservers)⟩
  have hall : ∀ dataFrame ∈ List.replicate (majority parameters.numServers) first,
      dataFrame = first := fun dataFrame hframe ↦ List.eq_of_mem_replicate hframe
  have hstops : StopsWith parameters.numServers
      (List.replicate (majority parameters.numServers) first) := by
    have hpos := majority_pos parameters.numServers
    constructor
    · rw [List.length_dropLast, List.length_replicate]
      omega
    · exact List.length_replicate.ge
  obtain ⟨-, read, hread, -⟩ := hframes _ hstops fun dataFrame hframe ↦ by
    rw [hall dataFrame hframe]
    exact hfirst
  by_contra htotal
  have hnone := getEncodedInfo_eq_none (freshEncodeData parameters)
    (fun dataFrame hframe ↦ (congrArg List.length (hall dataFrame hframe)).trans
      (length_of_mem_encoded hpayload hfirst))
    (by rw [List.length_replicate, hk]; exact not_lt.mp htotal)
  rw [hnone] at hread
  exact absurd hread (by simp)

/-- If the number of servers is odd and the total size is an `int`, the parameters agree. -/
theorem codingAgrees_of_bounds (hservers : 1 ≤ parameters.numServers)
    (hfile : 1 ≤ parameters.filesize) (hfile' : parameters.filesize < 2 ^ 24)
    (hodd : parameters.numServers % 2 = 1)
    (htotal : majority parameters.numServers *
      (fileBlocks parameters (majority parameters.numServers) *
        (codecs parameters.codingAlgorithm).payloadSize (majority parameters.numServers)
          symbolSize) < 2 ^ 31) : CodingAgrees codecs parameters := by
  have hk := (add_one_div_two_eq_majority_iff _).mpr hodd
  rw [← hk] at htotal
  set k := (parameters.numServers + 1) / 2 with hkdef
  set blocks := fileBlocks parameters k with hblocksdef
  set payloadSize := (codecs parameters.codingAlgorithm).payloadSize k symbolSize with hsize
  have hkpos : 0 < k := by omega
  have hnonempty : k * symbolSize ≠ 0 := (Nat.mul_pos hkpos (by decide)).ne'
  have hblocks : 0 < blocks := fileBlocks_pos hfile hkpos
  have hsymbol : symbolSize ≤ payloadSize :=
    (codecs parameters.codingAlgorithm).symbolSize_le_payloadSize k symbolSize
  have hpayload : 0 < payloadSize := lt_of_lt_of_le (by decide) hsymbol
  -- every `int` on the way is at most the total size
  have hstripe : blocks * payloadSize < 2 ^ 31 :=
    (Nat.le_mul_of_pos_left _ hkpos).trans_lt htotal
  have hblock : k * symbolSize < 2 ^ 31 :=
    (Nat.mul_le_mul_left k (hsymbol.trans (Nat.le_mul_of_pos_left _ hblocks))).trans_lt htotal
  have hcreate : createEncodeData parameters = some (freshEncodeData parameters) :=
    createEncodeData_eq_some_iff.mpr ⟨hblock, hfile'.trans (by norm_num),
      hnonempty, (Nat.le_mul_of_pos_right _ hpayload).trans_lt hstripe,
      rfl⟩
  refine ⟨_, hcreate, hk, fun payload hlength ↦
    ⟨encoded codecs (rawEncodeData parameters payload), encode_eq_some_iff.mpr
      ⟨?_, rfl⟩, fun frames hstops hmem ↦ ?_⟩⟩
  · exact
      { rawDataSize_pos := hfile.trans_eq hlength.symm
        rawDataSize_le := le_rfl
        n_pos := hservers
        blockSize_pos := Nat.pos_of_ne_zero hnonempty
        blockSize_lt := hblock
        stripeSize_lt := (Nat.mul_le_mul_right payloadSize
          (blockCount_rawEncodeData hlength).le).trans_lt hstripe }
  · have hcount : frames.length = k := hstops.length_eq.trans hk.symm
    have hread := getEncodedInfo_stripes (freshEncodeData parameters)
      (fun dataFrame hframe ↦ length_of_mem_encoded hlength (hmem dataFrame hframe)) hcount
      (Nat.mul_pos hblocks hkpos) hpayload htotal
    exact ⟨hcount, _, hread, rfl, (blockCount_rawEncodeData hlength).symm⟩

/-- The reader agrees with the writer exactly if the number of servers is odd and the stripes of a
majority are together shorter than `2 ^ 31` bytes. -/
theorem codingAgrees_iff (hservers : 1 ≤ parameters.numServers)
    (hfile : 1 ≤ parameters.filesize) (hfile' : parameters.filesize < 2 ^ 24) :
    CodingAgrees codecs parameters ↔
      parameters.numServers % 2 = 1 ∧
        majority parameters.numServers * (fileBlocks parameters (majority parameters.numServers) *
          (codecs parameters.codingAlgorithm).payloadSize (majority parameters.numServers)
            symbolSize) < 2 ^ 31 :=
  ⟨bounds_of_codingAgrees hservers,
    fun ⟨hodd, htotal⟩ ↦ codingAgrees_of_bounds hservers hfile hfile' hodd htotal⟩

end Agreement

/-- With two servers `K` is one and the reader collects two frames. -/
theorem not_codingAgrees_two :
    ¬ CodingAgrees (fun _ ↦ Codec.complement) ⟨2, 1, .fullVector⟩ := fun h ↦
  absurd (bounds_of_codingAgrees (by decide) h).1 (by decide)

/-- With three servers and a file of one kilobyte everybody agrees. -/
theorem codingAgrees_three :
    CodingAgrees (fun _ ↦ Codec.complement) ⟨3, 1, .fullVector⟩ :=
  (codingAgrees_iff (by decide) (by decide +kernel) (by decide +kernel)).mpr
    ⟨by decide, by decide +kernel⟩

end Colas
