import Audible.RecoderCodec

set_option autoImplicit false

/- What reading and writing again makes of frames and headers. -/
namespace Audible.Recoder

/-- `count` calls of `read_frame`. -/
def readFrames (channels width : Nat) : Nat → List Byte → List (List CInt) × List Byte
  | 0, input => ([], input)
  | count + 1, input =>
      let frame := readFrame channels width input
      let rest := readFrames channels width count frame.2
      (frame.1 :: rest.1, rest.2)

def writeFrames (frames : List (List CInt)) (channels width : Nat) : List Byte :=
  frames.flatMap fun fp => writeFrame fp channels width

/-- The four bytes that `getStdinInt` takes for the end of input. -/
def ones : List Byte := List.replicate 4 255#8

theorem readFrames_append (channels width count : Nat) (bytes rest : List Byte)
    (positive : 0 < width) (short : width ≤ 4)
    (whole : bytes.length = count * (channels * width)) :
    readFrames channels width count (bytes ++ rest) =
      ((BigEndian.fields (channels * width) count bytes).map
        fun frame => (BigEndian.fields width channels frame).map decodeSample, rest) := by
  induction count generalizing bytes with
  | zero => simp_all [readFrames, BigEndian.fields]
  | succ count ih =>
      have size : bytes.length = count * (channels * width) + channels * width := by
        rw [whole, Nat.succ_mul]
      have front : (bytes.take (channels * width)).length = channels * width := by
        rw [List.length_take]
        omega
      have tail : (bytes.drop (channels * width)).length = count * (channels * width) := by
        rw [List.length_drop]
        omega
      have split : bytes ++ rest =
          bytes.take (channels * width) ++ (bytes.drop (channels * width) ++ rest) := by
        rw [← List.append_assoc, List.take_append_drop]
      rw [readFrames, split, readFrame_append _ _ _ _ positive short front, ih _ tail,
        BigEndian.fields, List.map_cons]

theorem writeFrame_map_decodeSample (channels width : Nat) (frame : List (List Byte))
    (count : frame.length = channels) :
    writeFrame (frame.map decodeSample) channels width =
      (frame.map fun field => putByteInt (decodeSample field) width).flatten := by
  rw [writeFrame, List.take_of_length_le (by simp [count]), List.flatMap_def, List.map_map]
  rfl

/-- The bytes written back, sample by sample. -/
theorem writeFrames_readFrames (channels width count : Nat) (bytes rest : List Byte)
    (positive : 0 < width) (short : width ≤ 4)
    (whole : bytes.length = count * (channels * width)) :
    writeFrames (readFrames channels width count (bytes ++ rest)).1 channels width =
      ((BigEndian.fields width (count * channels) bytes).map
        fun field => putByteInt (decodeSample field) width).flatten := by
  rw [readFrames_append _ _ _ _ _ positive short whole, writeFrames,
    BigEndian.fields_mul _ _ _ _ whole, List.flatMap_map]
  simp only [writeFrame_map_decodeSample, BigEndian.fields_length]
  rw [List.map_flatMap, List.flatMap_def, List.flatMap_def, List.flatten_flatten, List.map_map]
  rfl

/-- Frames read from `bytes` are the two's-complement values of its fields, and writing
them reproduces `bytes`. -/
def FramesRoundTrip (channels width count : Nat) (bytes rest : List Byte) : Prop :=
  let frames := (readFrames channels width count (bytes ++ rest)).1
  writeFrames frames channels width = bytes ∧
    frames.flatten.map BitVec.toInt =
      (BigEndian.fields width (count * channels) bytes).map BigEndian.signedValue

theorem framesRoundTrip_iff (channels width count : Nat) (bytes rest : List Byte)
    (positive : 0 < width) (short : width ≤ 4)
    (whole : bytes.length = count * (channels * width)) :
    FramesRoundTrip channels width count bytes rest ↔
      ∀ field ∈ BigEndian.fields width (count * channels) bytes, field ≠ ones := by
  have whole' : bytes.length = count * channels * width := by rw [whole, Nat.mul_assoc]
  have sized := fun field => @BigEndian.length_of_mem_fields _ _ _ field whole'
  have written : writeFrames (readFrames channels width count (bytes ++ rest)).1 channels width =
        bytes ↔ ∀ field ∈ BigEndian.fields width (count * channels) bytes, field ≠ ones := by
    rw [writeFrames_readFrames _ _ _ _ _ positive short whole,
      BigEndian.flatten_map_fields_iff _ _ _ _ whole' (fun field => putByteInt_length _ _)]
    refine forall₂_congr fun field member => ?_
    have length := sized field member
    rw [← length]
    exact putByteInt_decodeSample field (by omega)
  rw [FramesRoundTrip, written]
  refine ⟨And.left, fun notOnes => ⟨notOnes, ?_⟩⟩
  have flat : (readFrames channels width count (bytes ++ rest)).1.flatten =
      (BigEndian.fields width (count * channels) bytes).map decodeSample := by
    rw [readFrames_append _ _ _ _ _ positive short whole, BigEndian.fields_mul _ _ _ _ whole,
      List.map_flatMap, List.flatMap_def]
  rw [flat, List.map_map]
  apply List.map_congr_left
  intro field member
  have length := sized field member
  exact toInt_decodeSample field (by omega) (notOnes field member)

/-- Frames of samples that fit their width are read back as written. -/
def SamplesRoundTrip (channels width : Nat) (frames : List (List CInt)) (rest : List Byte) : Prop :=
  readFrames channels width frames.length (writeFrames frames channels width ++ rest) =
    (frames, rest)

/-- The samples of `width` bytes. -/
def InRange (width : Nat) (sample : CInt) : Prop :=
  -((256 ^ width : Nat) : Int) ≤ 2 * sample.toInt ∧ 2 * sample.toInt < ((256 ^ width : Nat) : Int)

theorem writeFrame_eq (frame : List CInt) (width : Nat) :
    writeFrame frame frame.length width = (frame.map fun s => putByteInt s width).flatten := by
  rw [writeFrame, List.take_length, List.flatMap_def]

@[simp] theorem writeFrame_length (frame : List CInt) (channels width : Nat)
    (size : frame.length = channels) :
    (writeFrame frame channels width).length = channels * width := by
  subst size
  simp [writeFrame, List.length_flatMap]

theorem readFrame_writeFrame (frame : List CInt) (channels width : Nat) (rest : List Byte)
    (positive : 0 < width) (short : width ≤ 4) (size : frame.length = channels) :
    readFrame channels width (writeFrame frame channels width ++ rest) =
      (frame.map fun s => decodeSample (putByteInt s width), rest) := by
  subst size
  have cut := BigEndian.fields_flatten width (frame.map fun s => putByteInt s width) (by simp)
  rw [List.length_map] at cut
  rw [readFrame_append _ _ _ _ positive short (by simp), writeFrame_eq, cut, List.map_map]
  rfl

theorem readFrames_writeFrames (frames : List (List CInt)) (channels width : Nat)
    (rest : List Byte) (positive : 0 < width) (short : width ≤ 4)
    (sized : ∀ frame ∈ frames, frame.length = channels) :
    readFrames channels width frames.length (writeFrames frames channels width ++ rest) =
      (frames.map fun frame => frame.map fun s => decodeSample (putByteInt s width), rest) := by
  induction frames with
  | nil => rfl
  | cons frame frames ih =>
      have front := sized frame (by simp)
      have tail := ih fun other member => sized other (by simp [member])
      rw [writeFrames, List.flatMap_cons, List.append_assoc, List.length_cons, readFrames,
        readFrame_writeFrame _ _ _ _ positive short front]
      rw [writeFrames] at tail
      rw [tail, List.map_cons]

theorem samplesRoundTrip_iff (channels width : Nat) (frames : List (List CInt)) (rest : List Byte)
    (positive : 0 < width) (short : width ≤ 4)
    (sized : ∀ frame ∈ frames, frame.length = channels)
    (fits : ∀ frame ∈ frames, ∀ sample ∈ frame, InRange width sample) :
    SamplesRoundTrip channels width frames rest ↔
      ¬ (width = 4 ∧ ∃ frame ∈ frames, EOF ∈ frame) := by
  have each : ∀ frame ∈ frames, ((frame.map fun s => decodeSample (putByteInt s width)) = frame ↔
      ¬ (width = 4 ∧ EOF ∈ frame)) := by
    intro frame member
    rw [BigEndian.map_eq_self_iff]
    have sample : ∀ s ∈ frame, (decodeSample (putByteInt s width) = s ↔
        ¬ (width = 4 ∧ s = EOF)) := fun s inside =>
      decodeSample_putByteInt s width positive short (fits frame member s inside).1
        (fits frame member s inside).2
    rw [forall₂_congr sample]
    grind
  rw [SamplesRoundTrip, readFrames_writeFrames _ _ _ _ positive short sized, Prod.mk.injEq,
    and_iff_left rfl, BigEndian.map_eq_self_iff, forall₂_congr each]
  grind

def headerField (bytes : List Byte) (k : Nat) : List Byte := (bytes.drop (4 * k)).take 4

/-- What reading the bytes of one header word yields. -/
def decodeField (field : List Byte) : CInt :=
  if BigEndian.value field = 2 ^ 32 - 1 then 0 else BitVec.ofNat 32 (BigEndian.value field)

def decodeHeader (bytes : List Byte) : AudioHeader where
  magicNumber := decodeField (headerField bytes 0)
  dataOffset := decodeField (headerField bytes 1)
  dataSize := decodeField (headerField bytes 2)
  encoding := decodeField (headerField bytes 3)
  sampleRate := decodeField (headerField bytes 4)
  channels := decodeField (headerField bytes 5)

theorem readField_append (bytes rest : List Byte) (k : Nat) (inside : 4 * k + 4 ≤ bytes.length) :
    getStdinInt 4 (bytes.drop (4 * k) ++ rest) =
      (decodeField (headerField bytes k), bytes.drop (4 * (k + 1)) ++ rest) := by
  have front : (headerField bytes k).length = 4 := by
    rw [headerField, List.length_take, List.length_drop]
    omega
  have split : bytes.drop (4 * k) ++ rest =
      headerField bytes k ++ (bytes.drop (4 * (k + 1)) ++ rest) := by
    rw [headerField, ← List.append_assoc, Nat.mul_succ, ← List.drop_drop, List.take_append_drop]
  have read := getStdinInt_append (headerField bytes k) (bytes.drop (4 * (k + 1)) ++ rest)
    (by omega) (by omega)
  rw [front] at read
  rw [split, read, decodeField]

theorem readHeader_append (bytes rest : List Byte) (whole : bytes.length = 24) :
    readHeader (bytes ++ rest) = (validHeader (decodeHeader bytes), decodeHeader bytes, rest) := by
  have field := fun k (inside : 4 * k + 4 ≤ bytes.length) => readField_append bytes rest k inside
  have start := field 0 (by omega)
  rw [Nat.mul_zero, List.drop_zero] at start
  have finish : bytes.drop (4 * (5 + 1)) = [] := List.drop_eq_nil_of_le (by omega)
  simp only [readHeader, start, field 1 (by omega), field 2 (by omega), field 3 (by omega),
    field 4 (by omega), field 5 (by omega), finish, List.nil_append, decodeHeader]

theorem decodeField_eq (field : List Byte) (size : field.length = 4) :
    decodeField field = decodeSample field := by
  have read := readSample_append field [] (by omega) (by omega)
  rw [getStdinInt_append field [] (by omega) (by omega), size, signExtend_four] at read
  exact read

theorem putCharInt_decodeField (field : List Byte) (size : field.length = 4) :
    putCharInt (decodeField field) = field ↔ field ≠ ones := by
  have written := putByteInt_decodeSample field (by omega)
  rwa [size, ← decodeField_eq field size, putByteInt_eq _ _ (by omega), ← putCharInt_eq] at written

theorem fields_header (bytes : List Byte) :
    BigEndian.fields 4 6 bytes = [headerField bytes 0, headerField bytes 1, headerField bytes 2,
      headerField bytes 3, headerField bytes 4, headerField bytes 5] := by
  simp [BigEndian.fields, headerField, List.drop_drop]

@[simp] theorem putCharInt_length (i : CInt) : (putCharInt i).length = 4 := rfl

@[simp] theorem writeHeader_length (header : AudioHeader) : (writeHeader header).length = 24 := rfl

theorem writeHeader_decodeHeader (bytes : List Byte) (whole : bytes.length = 24) :
    writeHeader (decodeHeader bytes) = bytes ↔
      ∀ field ∈ BigEndian.fields 4 6 bytes, field ≠ ones := by
  have written : writeHeader (decodeHeader bytes) =
      ((BigEndian.fields 4 6 bytes).map fun field => putCharInt (decodeField field)).flatten := by
    simp [fields_header, writeHeader, decodeHeader]
  rw [written, BigEndian.flatten_map_fields_iff _ _ _ _ whole (fun field => putCharInt_length _)]
  exact forall₂_congr fun field member =>
    putCharInt_decodeField field (BigEndian.length_of_mem_fields whole member)

@[simp] theorem decodeField_ones : decodeField ones = 0 := by decide

/-- Reading 24 bytes as a header and writing it gives the same bytes. -/
def HeaderRoundTrip (bytes rest : List Byte) : Prop :=
  writeHeader (readHeader (bytes ++ rest)).2.1 = bytes

/-- A header that is accepted has no other field of ones than these two. -/
theorem headerRoundTrip_iff (bytes rest : List Byte) (whole : bytes.length = 24)
    (accepted : (readHeader (bytes ++ rest)).1 = true) :
    HeaderRoundTrip bytes rest ↔ headerField bytes 2 ≠ ones ∧ headerField bytes 4 ≠ ones := by
  rw [readHeader_append bytes rest whole] at accepted
  simp only [validHeader, validMagicNumber, validDataOffset, validEncoding, validChannels,
    decodeHeader, Bool.and_eq_true] at accepted
  obtain ⟨⟨⟨magic, offset⟩, encoding⟩, channels⟩ := accepted
  have magicOk : headerField bytes 0 ≠ ones := fun same => by
    simp [same, audioMagic] at magic
  have offsetOk : headerField bytes 1 ≠ ones := fun same => by
    simp [same] at offset
  have encodingOk : headerField bytes 3 ≠ ones := fun same => by
    simp [same] at encoding
  have channelsOk : headerField bytes 5 ≠ ones := fun same => by
    simp [same] at channels
  rw [HeaderRoundTrip, readHeader_append bytes rest whole, writeHeader_decodeHeader bytes whole,
    fields_header]
  simp [magicOk, offsetOk, encodingOk, channelsOk]

/-- The codec loses exactly one value: a word of four bytes `0xff`, which `getStdinInt` takes
for the end of input and reads as zero. Samples of one to three bytes always survive. -/
theorem codec_roundTrip_iff (channels width count : Nat) (bytes rest : List Byte)
    (frames : List (List CInt)) :
    (channels = 1 ∨ channels = 2 → 0 < width → width ≤ 4 → bytes.length = count * (channels * width) →
      (FramesRoundTrip channels width count bytes rest ↔
        ∀ field ∈ BigEndian.fields width (count * channels) bytes, field ≠ ones)) ∧
    (channels = 1 ∨ channels = 2 → 0 < width → width ≤ 4 →
      (∀ frame ∈ frames, frame.length = channels) →
      (∀ frame ∈ frames, ∀ sample ∈ frame, InRange width sample) →
      (SamplesRoundTrip channels width frames rest ↔
        ¬ (width = 4 ∧ ∃ frame ∈ frames, EOF ∈ frame))) ∧
    (bytes.length = 24 → (readHeader (bytes ++ rest)).1 = true →
      (HeaderRoundTrip bytes rest ↔ headerField bytes 2 ≠ ones ∧ headerField bytes 4 ≠ ones)) := by
  refine ⟨?_, ?_, headerRoundTrip_iff bytes rest⟩
  · intro _ positive short whole
    exact framesRoundTrip_iff channels width count bytes rest positive short whole
  · intro _ positive short sized fits
    exact samplesRoundTrip_iff channels width frames rest positive short sized fits

/-- 24-bit samples of ones, 32-bit samples, and a header with a data size and a rate. -/
theorem codec_roundTrip_examples :
    FramesRoundTrip 2 3 1 [255#8, 255#8, 255#8, 128#8, 0#8, 1#8] [7#8] ∧
    SamplesRoundTrip 1 4 [[-2], [2147483647]] [] ∧
    HeaderRoundTrip ([0x2e#8, 0x73#8, 0x6e#8, 0x64#8] ++ BigEndian.digits 4 24 ++
      BigEndian.digits 4 6 ++ BigEndian.digits 4 4 ++ BigEndian.digits 4 44100 ++
      BigEndian.digits 4 2) [] := by
  refine ⟨?_, ?_, ?_⟩
  · exact ((codec_roundTrip_iff 2 3 1 _ _ []).1 (by decide) (by decide) (by decide) (by decide)).mpr
      (by decide)
  · refine ((codec_roundTrip_iff 1 4 0 [] [] _).2.1 (by decide) (by decide) (by decide) (by decide)
      ?_).mpr (by decide)
    have low : InRange 4 (-2) := by simp [InRange]
    have high : InRange 4 2147483647 := by simp [InRange]
    simp only [List.mem_cons, List.not_mem_nil, or_false]
    rintro frame (rfl | rfl) sample inside
    · exact List.mem_singleton.mp inside ▸ low
    · exact List.mem_singleton.mp inside ▸ high
  · exact ((codec_roundTrip_iff 0 0 0 _ _ []).2.2 (by decide) (by decide)).mpr (by decide)

def CodecRoundTrips : Prop :=
  (∀ (channels width count : Nat) (bytes rest : List Byte), channels = 1 ∨ channels = 2 →
    0 < width → width ≤ 4 → bytes.length = count * (channels * width) →
    FramesRoundTrip channels width count bytes rest) ∧
  (∀ (channels width : Nat) (frames : List (List CInt)) (rest : List Byte),
    channels = 1 ∨ channels = 2 → 0 < width → width ≤ 4 →
    (∀ frame ∈ frames, frame.length = channels) →
    (∀ frame ∈ frames, ∀ sample ∈ frame, InRange width sample) →
    SamplesRoundTrip channels width frames rest) ∧
  ∀ bytes rest : List Byte, bytes.length = 24 → (readHeader (bytes ++ rest)).1 = true →
    HeaderRoundTrip bytes rest

/-- A mono 32-bit sample of `-1` is read as 0 and written as four zero bytes. -/
theorem codec_loses_minus_one : ¬ CodecRoundTrips := by
  intro ⟨frames, _, _⟩
  have survived := frames 1 4 1 ones [] (by decide) (by decide) (by decide) (by decide)
  exact absurd survived.1 (by decide)

end Audible.Recoder
