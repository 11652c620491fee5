import Audible.RecoderAnnotation

set_option autoImplicit false

/- Encrypting twice. Each sample of a stream is combined with its own word of the key stream,
so the two runs meet sample by sample. -/
namespace Audible.Recoder

/-- The next `n` words of the generator, and its state after them. -/
def keystream : Nat → BitVec 64 → List CInt × BitVec 64
  | 0, next => ([], next)
  | n + 1, next =>
      let draw := myrand32 next
      let rest := keystream n draw.2
      (draw.1 :: rest.1, rest.2)

theorem keystream_succ (n : Nat) (next : BitVec 64) :
    keystream (n + 1) next = ((myrand32 next).1 :: (keystream n (myrand32 next).2).1,
      (keystream n (myrand32 next).2).2) := rfl

@[simp] theorem keystream_length (n : Nat) (next : BitVec 64) :
    (keystream n next).1.length = n := by
  induction n generalizing next with
  | zero => rfl
  | succ n ih => rw [keystream_succ, List.length_cons, ih]

theorem keystream_add (m n : Nat) (next : BitVec 64) :
    keystream (m + n) next =
      ((keystream m next).1 ++ (keystream n (keystream m next).2).1,
        (keystream n (keystream m next).2).2) := by
  induction m generalizing next with
  | zero => simp only [Nat.zero_add, keystream, List.nil_append]
  | succ m ih =>
      rw [Nat.succ_add, keystream_succ, keystream_succ, ih, List.cons_append]

theorem cryptFrame_eq (frame : List CInt) (next : BitVec 64) :
    cryptFrame frame next =
      (List.zipWith (· ^^^ ·) frame (keystream frame.length next).1,
        (keystream frame.length next).2) := by
  induction frame generalizing next with
  | nil => rfl
  | cons sample frame ih =>
      rw [cryptFrame, ih, List.length_cons, keystream_succ, List.zipWith_cons_cons]

/-- What the bytes of one sample become. -/
def cryptField (width : Nat) (field : List Byte) (word : CInt) : List Byte :=
  putByteInt (decodeSample field ^^^ word) width

@[simp] theorem cryptField_length (width : Nat) (field : List Byte) (word : CInt) :
    (cryptField width field word).length = width :=
  putByteInt_length _ _

/-- What the bytes of consecutive samples become. -/
def cryptData (width : Nat) (words : List CInt) (data : List Byte) : List Byte :=
  (List.zipWith (cryptField width) (BigEndian.fields width words.length data) words).flatten

theorem mem_zipWith_cryptField {width : Nat} {fields : List (List Byte)} {words : List CInt}
    {part : List Byte} (member : part ∈ List.zipWith (cryptField width) fields words) :
    part.length = width := by
  rw [← List.map_uncurry_zip_eq_zipWith] at member
  obtain ⟨pair, -, rfl⟩ := List.mem_map.mp member
  exact cryptField_length _ _ _

theorem fields_cryptData (width : Nat) (words : List CInt) (data : List Byte) :
    BigEndian.fields width words.length (cryptData width words data) =
      List.zipWith (cryptField width) (BigEndian.fields width words.length data) words := by
  have cut := BigEndian.fields_flatten width
    (List.zipWith (cryptField width) (BigEndian.fields width words.length data) words)
    (fun part member => mem_zipWith_cryptField member)
  rw [List.length_zipWith, BigEndian.fields_length, Nat.min_self] at cut
  exact cut

theorem cryptData_length (width : Nat) (words : List CInt) (data : List Byte) :
    (cryptData width words data).length = words.length * width := by
  unfold cryptData
  generalize BigEndian.fields_length width words.length data = count
  generalize BigEndian.fields width words.length data = fields at count
  induction words generalizing fields with
  | nil => simp
  | cons word words ih =>
      cases fields with
      | nil => cases count
      | cons field fields =>
          rw [List.zipWith_cons_cons, List.flatten_cons, List.length_append, cryptField_length,
            ih fields (by simpa using count), List.length_cons, Nat.succ_mul, Nat.add_comm]

theorem cryptData_append (width : Nat) (wordsA wordsB : List CInt) (a b : List Byte)
    (whole : a.length = wordsA.length * width) :
    cryptData width (wordsA ++ wordsB) (a ++ b) =
      cryptData width wordsA a ++ cryptData width wordsB b := by
  unfold cryptData
  rw [List.length_append, BigEndian.fields_append _ _ _ _ _ whole,
    List.zipWith_append (by simp), List.flatten_append]

/-- One round: a frame is read, and its bytes are written encrypted. -/
theorem crypt_append (header : AudioHeader) (supported : header.Supported) (bytes rest : List Byte)
    (whole : bytes.length = header.channelCount * header.sampleWidth) (s : Stream)
    (unread : s.input = bytes ++ rest) :
    (crypt header s).input = rest ∧
    (crypt header s).next = (keystream header.channelCount s.next).2 ∧
    (crypt header s).output = s.output ++
      cryptData header.sampleWidth (keystream header.channelCount s.next).1 bytes := by
  have read := readFrame_append header.channelCount header.sampleWidth bytes rest
    supported.positive supported.short whole
  unfold crypt Stream.write
  dsimp only
  rw [unread, read, cryptFrame_eq, List.length_map, BigEndian.fields_length]
  refine ⟨rfl, rfl, ?_⟩
  have size : (List.zipWith (· ^^^ ·) ((BigEndian.fields header.sampleWidth header.channelCount
      bytes).map decodeSample) (keystream header.channelCount s.next).1).length =
        header.channelCount := by
    simp
  dsimp only
  rw [writeFrame, List.take_of_length_le (by omega), cryptData, keystream_length,
    List.flatMap_def, List.map_zipWith, List.zipWith_map_left]
  rfl

/-- The whole frame loop. -/
theorem recodeFrames_append (options : Options) (header : AudioHeader) (frames : CInt)
    (word : ModeWord 60 options) (supported : header.Supported) (count : Nat) (i : CInt)
    (bytes rest : List Byte)
    (whole : bytes.length = count * (header.channelCount * header.sampleWidth)) (s : Stream)
    (unread : s.input = bytes ++ rest) :
    (recodeFrames options header frames count i s).output = s.output ++
      cryptData header.sampleWidth (keystream (count * header.channelCount) s.next).1 bytes := by
  have speed : isSpeedUp options = false := modeBit word (by omega) (by omega)
  have slow : isSlowDown options = false := modeBit word (by omega) (by omega)
  have mode : isCrypt options = true := modeBit word (by omega) (by omega)
  induction count generalizing i bytes s with
  | zero => simp_all [recodeFrames, cryptData, keystream, BigEndian.fields]
  | succ count ih =>
      have size : bytes.length = count * (header.channelCount * header.sampleWidth) +
          header.channelCount * header.sampleWidth := by
        rw [whole, Nat.succ_mul]
      have front : (bytes.take (header.channelCount * header.sampleWidth)).length =
          header.channelCount * header.sampleWidth := by
        rw [List.length_take]
        omega
      have split : s.input = bytes.take (header.channelCount * header.sampleWidth) ++
          (bytes.drop (header.channelCount * header.sampleWidth) ++ rest) := by
        rw [← List.append_assoc, List.take_append_drop, unread]
      obtain ⟨input, next, output⟩ := crypt_append header supported _ _ front s split
      have tail := ih (i + 1) (bytes.drop (header.channelCount * header.sampleWidth))
        (by rw [List.length_drop]; omega) (crypt header s) input
      have joined := cryptData_append header.sampleWidth (keystream header.channelCount s.next).1
        (keystream (count * header.channelCount) (crypt header s).next).1
        (bytes.take (header.channelCount * header.sampleWidth))
        (bytes.drop (header.channelCount * header.sampleWidth)) (by rw [front, keystream_length])
      rw [List.take_append_drop] at joined
      rw [recodeFrames, recodeFrame, speed, slow, mode, if_neg Bool.false_ne_true,
        if_neg Bool.false_ne_true, if_pos rfl, tail, output, List.append_assoc, ← joined, next,
        Nat.succ_mul, Nat.add_comm (count * header.channelCount), keystream_add]

def wordOf (field : List Byte) : CInt := BitVec.ofNat 32 (BigEndian.value field)

/-- What is lost is a sample of four bytes that reads as the end of input before or after it
is encrypted with `word`, unless it does so both times. -/
def FieldSurvives (width : Nat) (field : List Byte) (word : CInt) : Prop :=
  width = 4 → wordOf field ≠ ~~~word ∧ (wordOf field = EOF → word = EOF)

theorem cryptField_twice_narrow (field : List Byte) (word : CInt) (narrow : field.length < 4) :
    cryptField field.length (cryptField field.length field word) word = field := by
  have notOnes : ∀ other : List Byte, other.length = field.length →
      BigEndian.value other ≠ 2 ^ 32 - 1 := by
    intro other length ones
    have full := congrArg List.length (eq_ones_of_value (by omega) ones)
    rw [List.length_replicate] at full
    omega
  have decoded : ∀ other : List Byte, other.length = field.length →
      BigEndian.digits field.length (decodeSample other).toNat = other := by
    intro other length
    rw [decodeSample, if_neg (notOnes other length), ← length]
    exact digits_signedValue other (by omega)
  have once := decoded (cryptField field.length field word) (cryptField_length _ _ _)
  have written : cryptField field.length field word =
      BigEndian.digits field.length ((decodeSample field).toNat ^^^ word.toNat) := by
    rw [cryptField, putByteInt_eq _ _ (by omega), BitVec.toNat_xor]
  rw [written] at once
  rw [cryptField, putByteInt_eq _ _ (by omega), BitVec.toNat_xor, written,
    BigEndian.digits_xor word.toNat once, Nat.xor_assoc, Nat.xor_self, Nat.xor_zero,
    decoded field rfl]

/-- A word read from four bytes. -/
theorem decodeSample_four (field : List Byte) (full : field.length = 4) :
    decodeSample field = if wordOf field = EOF then 0 else wordOf field := by
  have bound := BigEndian.value_lt field
  have ones := ofNat_eq_EOF_iff (BigEndian.value field) (by rw [full] at bound; exact bound)
  rw [← decodeField_eq field full]
  unfold decodeField wordOf
  simp only [ones]

theorem wordOf_cryptField (field : List Byte) (word : CInt) :
    wordOf (cryptField 4 field word) = decodeSample field ^^^ word := by
  rw [cryptField, putByteInt_eq _ _ (by omega), wordOf, BigEndian.value_digits]
  apply BitVec.eq_of_toNat_eq
  rw [BitVec.toNat_ofNat]
  have := (decodeSample field ^^^ word).isLt
  omega

theorem digits_wordOf (field : List Byte) (full : field.length = 4) :
    BigEndian.digits 4 (wordOf field).toNat = field := by
  have bound := BigEndian.value_lt field
  rw [full] at bound
  rw [wordOf, BitVec.toNat_ofNat, Nat.mod_eq_of_lt (show _ < 2 ^ 32 from bound), ← full,
    BigEndian.digits_value]

theorem xor_eq_EOF_iff (a b : CInt) : a ^^^ b = EOF ↔ a = ~~~b := by
  have ones : EOF = BitVec.allOnes 32 := by decide
  rw [ones]
  constructor
  · intro same
    rw [← BitVec.xor_allOnes, ← same, BitVec.xor_comm a, ← BitVec.xor_assoc, BitVec.xor_self,
      BitVec.zero_xor]
  · rintro rfl
    rw [← BitVec.xor_allOnes, BitVec.xor_comm b, BitVec.xor_assoc, BitVec.xor_self,
      BitVec.xor_zero]

/-- Encrypting a word that was read and encrypted before. -/
theorem xor_reread_xor (a word : CInt) :
    (if a ^^^ word = EOF then 0 else a ^^^ word) ^^^ word = if a = ~~~word then word else a := by
  by_cases lost : a = ~~~word
  · rw [if_pos lost, if_pos ((xor_eq_EOF_iff _ _).mpr lost)]
    exact BitVec.zero_xor
  · rw [if_neg lost, if_neg (mt (xor_eq_EOF_iff _ _).mp lost), BitVec.xor_assoc, BitVec.xor_self,
      BitVec.xor_zero]

theorem cryptField_twice_four (field : List Byte) (word : CInt) (full : field.length = 4) :
    cryptField 4 (cryptField 4 field word) word = field ↔
      wordOf field ≠ ~~~word ∧ (wordOf field = EOF → word = EOF) := by
  have spelled : cryptField 4 (cryptField 4 field word) word = field ↔
      wordOf (cryptField 4 (cryptField 4 field word) word) = wordOf field := by
    refine ⟨congrArg wordOf, fun same => ?_⟩
    have digits := congrArg (fun w : CInt => BigEndian.digits 4 w.toNat) same
    simpa only [digits_wordOf _ (cryptField_length _ _ _), digits_wordOf field full] using digits
  have notSelf : word ≠ ~~~word := by
    intro same
    have bit := congrArg (·.getLsbD 0) same
    simp at bit
  have zero : (0 : CInt) = ~~~word ↔ word = EOF := by
    rw [← xor_eq_EOF_iff]
    exact ⟨fun same => BitVec.zero_xor.symm.trans same, fun same => BitVec.zero_xor.trans same⟩
  rw [spelled, wordOf_cryptField, decodeSample_four _ (cryptField_length _ _ _), wordOf_cryptField,
    decodeSample_four field full, xor_reread_xor]
  by_cases ones : wordOf field = EOF
  · rw [if_pos ones, ones]
    by_cases same : word = EOF
    · subst same
      decide
    · have notZero : (0 : CInt) ≠ EOF := by decide
      rw [if_neg (mt zero.mp same)]
      exact ⟨fun read => absurd read notZero, fun survives => absurd (survives.2 rfl) same⟩
  · rw [if_neg ones]
    by_cases lost : wordOf field = ~~~word
    · rw [if_pos lost, lost]
      simp [notSelf]
    · rw [if_neg lost]
      simp [lost, ones]

theorem cryptField_twice (width : Nat) (field : List Byte) (word : CInt) (short : width ≤ 4)
    (size : field.length = width) :
    cryptField width (cryptField width field word) word = field ↔
      FieldSurvives width field word := by
  subst size
  unfold FieldSurvives
  by_cases full : field.length = 4
  · rw [full, cryptField_twice_four field word full]
    simp
  · have narrow := cryptField_twice_narrow field word (by omega)
    simp [full, narrow]

/-- Every sample survives its own word of the key stream. -/
def DataSurvives (width : Nat) (words : List CInt) (data : List Byte) : Prop :=
  ∀ pair ∈ (BigEndian.fields width words.length data).zip words, FieldSurvives width pair.1 pair.2

theorem zipWith_zipWith_eq_self_iff {α β : Type} (f : α → β → α) (items : List α) (keys : List β)
    (count : items.length = keys.length) :
    List.zipWith f (List.zipWith f items keys) keys = items ↔
      ∀ pair ∈ items.zip keys, f (f pair.1 pair.2) pair.2 = pair.1 := by
  induction items generalizing keys with
  | nil => simp
  | cons item items ih =>
      cases keys with
      | nil => simp at count
      | cons key keys =>
          have rest := ih keys (by simpa using count)
          simp only [List.zipWith_cons_cons, List.cons.injEq, rest, List.zip_cons_cons,
            List.forall_mem_cons]

theorem cryptData_twice (width : Nat) (words : List CInt) (data : List Byte) (short : width ≤ 4)
    (whole : data.length = words.length * width) :
    cryptData width words (cryptData width words data) = data ↔ DataSurvives width words data := by
  have fields : cryptData width words (cryptData width words data) = data ↔
      List.zipWith (cryptField width) (List.zipWith (cryptField width)
        (BigEndian.fields width words.length data) words) words =
          BigEndian.fields width words.length data := by
    conv_lhs => rw [← BigEndian.flatten_fields width words.length data whole]
    rw [cryptData, fields_cryptData, BigEndian.flatten_fields _ _ _ whole]
    constructor
    · intro same
      apply @BigEndian.flatten_injective width _ _ (fun part => mem_zipWith_cryptField)
        (fun part => BigEndian.length_of_mem_fields whole) (by simp)
      rw [same, BigEndian.flatten_fields _ _ _ whole]
    · intro same
      rw [same, BigEndian.flatten_fields _ _ _ whole]
  rw [fields, zipWith_zipWith_eq_self_iff _ _ _ (by simp)]
  refine forall₂_congr fun pair member => ?_
  exact cryptField_twice width pair.1 pair.2 short
    (BigEndian.length_of_mem_fields whole (List.of_mem_zip member).1)

/-- A complete stream: the header announces the annotation and the data, which is a whole
number of frames; anything may follow. -/
structure AuStream where
  header : AudioHeader
  notes : List Byte
  data : List Byte
  trailing : List Byte
  valid : validHeader header = true
  offset : header.dataOffset.toNat = 24 + notes.length
  present : header.dataSize.toNat = data.length
  whole : (frameSize header).toNat ∣ data.length

/-- The bytes up to the end of the data. -/
def AuStream.content (stream : AuStream) : List Byte :=
  writeHeader stream.header ++ stream.notes ++ stream.data

def AuStream.bytes (stream : AuStream) : List Byte := stream.content ++ stream.trailing

/-- The words that the samples of a stream are combined with under `key`. -/
def AuStream.words (stream : AuStream) (key : CInt) : List CInt :=
  (keystream (stream.data.length / stream.header.sampleWidth) (mysrand key)).1

theorem AuStream.supported (stream : AuStream) : stream.header.Supported :=
  supported_of_valid stream.valid

/-- A word written and read again, unless it reads as the end of the input. -/
theorem decodeField_putCharInt {i : CInt} (notEnd : i ≠ EOF) : decodeField (putCharInt i) = i := by
  have value := value_putCharInt i
  have top : i.toNat ≠ 2 ^ 32 - 1 := fun same => notEnd (BitVec.eq_of_toNat_eq same)
  rw [decodeField, value, if_neg top, BitVec.ofNat_toNat, BitVec.setWidth_eq]

/-- A valid header with a known size: only its rate may be read as something else. -/
theorem readHeader_known (header : AudioHeader) (rest : List Byte)
    (valid : validHeader header = true) (size : header.dataSize ≠ EOF) :
    readHeader (writeHeader header ++ rest) =
      (true, { header with sampleRate := decodeField (putCharInt header.sampleRate) }, rest) := by
  have accepted := valid
  simp only [validHeader, validMagicNumber, validDataOffset, validEncoding, validChannels,
    Bool.and_eq_true, decide_eq_true_eq] at valid
  obtain ⟨⟨⟨magic, aligned, -⟩, low, high⟩, channels⟩ := valid
  have magicOk : header.magicNumber ≠ EOF := fun same => by
    rw [same] at magic
    exact absurd magic (by decide)
  have offsetOk : header.dataOffset ≠ EOF := fun same => by
    rw [same] at aligned
    exact absurd aligned (by decide)
  have encodingOk : header.encoding ≠ EOF := fun same => by
    rw [same] at low
    exact absurd low (by decide)
  have channelsOk : header.channels ≠ EOF := fun same => by
    rw [same] at channels
    exact absurd channels (by decide)
  have decoded : decodeHeader (writeHeader header) =
      { header with sampleRate := decodeField (putCharInt header.sampleRate) } := by
    calc
      decodeHeader (writeHeader header) = { header with
          magicNumber := decodeField (putCharInt header.magicNumber)
          dataOffset := decodeField (putCharInt header.dataOffset)
          dataSize := decodeField (putCharInt header.dataSize)
          encoding := decodeField (putCharInt header.encoding)
          sampleRate := decodeField (putCharInt header.sampleRate)
          channels := decodeField (putCharInt header.channels) } := rfl
      _ = { header with sampleRate := decodeField (putCharInt header.sampleRate) } := by
        rw [decodeField_putCharInt magicOk, decodeField_putCharInt offsetOk,
          decodeField_putCharInt size, decodeField_putCharInt encodingOk,
          decodeField_putCharInt channelsOk]
  have kept : validHeader { header with sampleRate := decodeField (putCharInt header.sampleRate) } =
      validHeader header := rfl
  rw [readHeader_append _ _ rfl, decoded, kept, accepted]

theorem readHeader_writeHeader (header : AudioHeader) (rest : List Byte)
    (valid : validHeader header = true) (size : header.dataSize ≠ EOF)
    (rate : header.sampleRate ≠ EOF) :
    readHeader (writeHeader header ++ rest) = (true, header, rest) := by
  rw [readHeader_known header rest valid size, decodeField_putCharInt rate]

theorem readAnnotation_append (notes rest : List Byte) (size : CInt)
    (length : size.toNat = notes.length) (aligned : 8 ∣ notes.length) :
    readAnnotation size (notes ++ rest) =
      if notes.length ≤ annotationMax ∧ 255#8 ∉ notes then some (notes, rest) else none := by
  have present : notes.length ≤ (notes ++ rest).length := by simp
  rw [readAnnotation_eq, length, List.take_left, List.drop_left]
  simp only [aligned, present, true_and]

/-- The option word of `-c -k` with the given key and `-p`. -/
def cryptOptions (key : CInt) : Options := 1#64 <<< 60 ||| 1#64 <<< 59 ||| key.setWidth 64

theorem cryptOptions_word (key : CInt) : Word (cryptOptions key) 60 true key.toNat := by
  have word := @Word.or _ (key.setWidth 64) _ _ (word_mode true (.inl rfl)) <| by
    rw [BitVec.toNat_setWidth]
    omega
  rwa [BitVec.toNat_setWidth, Nat.mod_eq_of_lt (by omega)] at word

theorem cryptOptions_mode (key : CInt) : ModeWord 60 (cryptOptions key) :=
  ⟨true, key.toNat, cryptOptions_word key⟩

theorem cryptOptions_preserve (key : CInt) : isPreserve (cryptOptions key) = true :=
  (cryptOptions_word key).isPreserve

theorem getKey_cryptOptions (key : CInt) : getKey (cryptOptions key) = key := by
  apply BitVec.eq_of_toNat_eq
  rw [(cryptOptions_word key).getKey, Nat.mod_eq_of_lt key.isLt]

/-- An accepted command line with `-c` and `-p` yields the word of its key. -/
theorem validargs_crypt {argv : List (List Byte)} {options : Options}
    (accepted : validargs argv = (true, options)) (crypts : isCrypt options = true)
    (preserves : isPreserve options = true) : options = cryptOptions (getKey options) := by
  rcases validargs_word accepted with rfl | ⟨_, _, word⟩ | ⟨_, _, word⟩ | ⟨preserve, key, word, small⟩
  · cases crypts
  · rw [word.isCrypt] at crypts
    cases crypts
  · rw [word.isCrypt] at crypts
    cases crypts
  · rw [word.isPreserve] at preserves
    apply BitVec.eq_of_toNat_eq
    rw [word.value, (cryptOptions_word (getKey options)).value, word.getKey, preserves,
      Nat.mod_eq_of_lt small]

/-- Encrypting the stream and decrypting the result with the same key recovers the stream. -/
def Recovers (key : CInt) (argv argv' : List (List Byte)) (stream : AuStream) : Prop :=
  ∃ encrypted : List Byte, recode (cryptOptions key) argv stream.bytes = some (true, encrypted) ∧
    recode (cryptOptions key) argv' encrypted = some (true, stream.content)

theorem AuStream.samples (stream : AuStream) :
    stream.data.length / (frameSize stream.header).toNat * stream.header.channelCount =
      stream.data.length / stream.header.sampleWidth := by
  obtain ⟨count, length⟩ := stream.whole
  have supported := stream.supported
  have positive := supported.positive
  have channels : 0 < stream.header.channelCount := by
    rcases supported.channels with one | two <;> omega
  rw [supported.size] at length ⊢
  rw [length, Nat.mul_div_cancel_left _ (Nat.mul_pos channels positive),
    Nat.mul_right_comm, Nat.mul_div_cancel _ positive, Nat.mul_comm]

theorem AuStream.wholeSamples (stream : AuStream) (key : CInt) :
    stream.data.length = (stream.words key).length * stream.header.sampleWidth := by
  obtain ⟨count, length⟩ := stream.whole
  rw [stream.supported.size] at length
  rw [AuStream.words, keystream_length, length,
    Nat.div_mul_cancel ⟨stream.header.channelCount * count, by ring⟩]

def AuStream.encrypted (stream : AuStream) (key : CInt) : AuStream where
  header := stream.header
  notes := stream.notes
  data := cryptData stream.header.sampleWidth (stream.words key) stream.data
  trailing := []
  valid := stream.valid
  offset := stream.offset
  present := by rw [cryptData_length, ← stream.wholeSamples key, stream.present]
  whole := by
    rw [cryptData_length, ← stream.wholeSamples key]
    exact stream.whole

theorem AuStream.encrypted_length (stream : AuStream) (key : CInt) :
    (stream.encrypted key).data.length = stream.data.length :=
  (cryptData_length _ _ _).trans (stream.wholeSamples key).symm

theorem AuStream.encrypted_words (stream : AuStream) (key : CInt) :
    (stream.encrypted key).words key = stream.words key := by
  rw [AuStream.words, stream.encrypted_length key]
  rfl

/-- What the fields of a stream must not contain for a run to read them as they are. -/
structure AuStream.Readable (stream : AuStream) : Prop where
  size : stream.header.dataSize ≠ EOF
  rate : stream.header.sampleRate ≠ EOF
  room : stream.notes.length ≤ annotationMax
  ended : 255#8 ∉ stream.notes

theorem AuStream.Readable.encrypted {stream : AuStream} (readable : stream.Readable) (key : CInt) :
    (stream.encrypted key).Readable :=
  ⟨readable.size, readable.rate, readable.room, readable.ended⟩

theorem writeNotes (notes : List Byte) :
    writeAnnotation (buffer notes) notes.length = notes := by
  unfold writeAnnotation
  apply List.ext_getElem?
  intro i
  by_cases inside : i < notes.length
  · simp [buffer, inside]
  · simp [inside]

/-- One run over a complete stream. -/
theorem recode_crypt (key : CInt) (argv : List (List Byte)) (stream : AuStream)
    (size : stream.header.dataSize ≠ EOF) (rate : stream.header.sampleRate ≠ EOF) :
    recode (cryptOptions key) argv stream.bytes =
      if stream.notes.length ≤ annotationMax ∧ 255#8 ∉ stream.notes then
        some (true, writeHeader stream.header ++ stream.notes ++
          if stream.data.length / (frameSize stream.header).toNat < 2 ^ 31 then
            (stream.encrypted key).data else [])
      else some (false, []) := by
  have word := cryptOptions_mode key
  have speed : isSpeedUp (cryptOptions key) = false := modeBit word (by omega) (by omega)
  have slow : isSlowDown (cryptOptions key) = false := modeBit word (by omega) (by omega)
  have offset : (stream.header.dataOffset - 24).toNat = stream.notes.length := by
    have := stream.offset
    bv_omega
  have aligned : 8 ∣ stream.notes.length := by
    have valid := stream.valid
    simp only [validHeader, validDataOffset, Bool.and_eq_true, decide_eq_true_eq] at valid
    have multiple := congrArg BitVec.toNat valid.1.1.2.1
    rw [BitVec.toNat_umod, stream.offset] at multiple
    change (24 + stream.notes.length) % 8 = 0 at multiple
    omega
  have header := readHeader_writeHeader stream.header
    (stream.notes ++ (stream.data ++ stream.trailing)) stream.valid size rate
  have notes := readAnnotation_append stream.notes (stream.data ++ stream.trailing)
    (stream.header.dataOffset - 24) offset aligned
  have count : rounds (frameCount stream.header) =
      if stream.data.length / (frameSize stream.header).toNat < 2 ^ 31 then
        stream.data.length / (frameSize stream.header).toNat else 0 := by
    rw [rounds_eq, frameCount_toNat, stream.present]
  have bytes : stream.bytes = writeHeader stream.header ++
      (stream.notes ++ (stream.data ++ stream.trailing)) := by
    simp [AuStream.bytes, AuStream.content]
  unfold recode
  dsimp only
  rw [bytes, header, notes]
  split
  · rename_i never
    cases never
  · by_cases readable : stream.notes.length ≤ annotationMax ∧ 255#8 ∉ stream.notes
    · rw [if_pos readable, if_pos readable]
      dsimp only
      rw [cryptOptions_preserve, if_pos rfl, setNewDataSize, slow, speed,
        if_neg Bool.false_ne_true, if_neg Bool.false_ne_true]
      have data : recodeData (cryptOptions key) stream.header (frameCount stream.header)
          (stream.data ++ stream.trailing) =
            if stream.data.length / (frameSize stream.header).toNat < 2 ^ 31 then
              (stream.encrypted key).data else [] := by
        rw [recodeData, show (frameCount stream.header).toInt.toNat = _ from count]
        split
        · have length : stream.data.length = stream.data.length / (frameSize stream.header).toNat *
              (stream.header.channelCount * stream.header.sampleWidth) := by
            rw [← stream.supported.size, Nat.div_mul_cancel stream.whole]
          rw [recodeFrames_append (cryptOptions key) stream.header _ word stream.supported _ _
            stream.data stream.trailing length _ rfl, stream.samples, getKey_cryptOptions]
          rfl
        · rfl
      simp only [Option.bind_eq_bind, Option.bind_some, pure]
      rw [offset, writeNotes, data]
    · rw [if_neg readable, if_neg readable]

theorem getStdinInt_ne_EOF (i : Nat) (positive : 0 < i) (input : List Byte) :
    (getStdinInt i input).1 ≠ EOF := by
  have loop : ∀ (i : Nat) (stdin : CInt) (input : List Byte),
      (getStdinIntFrom stdin (i + 1) input).1 ≠ EOF := by
    intro i
    induction i with
    | zero =>
        intro stdin input
        rw [getStdinIntFrom]
        split
        · exact (by decide : (0 : CInt) ≠ EOF)
        · assumption
    | succ i ih =>
        intro stdin input
        rw [getStdinIntFrom]
        split
        · exact (by decide : (0 : CInt) ≠ EOF)
        · exact ih _ _
  obtain ⟨j, rfl⟩ := Nat.exists_eq_add_one.mpr positive
  exact loop j 0 input

theorem putCharInt_injective {a b : CInt} (same : putCharInt a = putCharInt b) : a = b := by
  apply BitVec.eq_of_toNat_eq
  rw [← value_putCharInt, same, value_putCharInt]

/-- No run writes a header with a size or a rate of `0xffffffff`. -/
theorem recode_crypt_fields {key : CInt} {argv : List (List Byte)} {input rest : List Byte}
    {header : AudioHeader}
    (returned : recode (cryptOptions key) argv input = some (true, writeHeader header ++ rest)) :
    header.dataSize ≠ EOF ∧ header.sampleRate ≠ EOF := by
  have word := cryptOptions_mode key
  have speed : isSpeedUp (cryptOptions key) = false := modeBit word (by omega) (by omega)
  have slow : isSlowDown (cryptOptions key) = false := modeBit word (by omega) (by omega)
  obtain ⟨sized, offset, notes, data, -, -, -, set, -, -, same⟩ := recode_output returned
  rw [setNewDataSize, slow, speed, if_neg Bool.false_ne_true, if_neg Bool.false_ne_true,
    Option.some.injEq] at set
  rw [List.append_assoc] at same
  have sizes := congrArg (headerField · 2) same
  have rates := congrArg (headerField · 4) same
  have size := putCharInt_injective (show putCharInt header.dataSize = putCharInt sized.dataSize
    from sizes)
  have rate := putCharInt_injective (show putCharInt header.sampleRate = putCharInt sized.sampleRate
    from rates)
  rw [size, rate, ← set]
  exact ⟨getStdinInt_ne_EOF _ (by omega) _, getStdinInt_ne_EOF _ (by omega) _⟩

/-- The second run. -/
theorem recode_encrypted (key : CInt) (argv : List (List Byte)) {stream : AuStream}
    (readable : stream.Readable)
    (few : stream.data.length / (frameSize stream.header).toNat < 2 ^ 31) :
    recode (cryptOptions key) argv (stream.encrypted key).bytes =
      some (true, writeHeader stream.header ++ stream.notes ++
        cryptData stream.header.sampleWidth (stream.words key)
          (cryptData stream.header.sampleWidth (stream.words key) stream.data)) := by
  have readable' := readable.encrypted key
  have again := recode_crypt key argv (stream.encrypted key) readable'.size readable'.rate
  have few' : (stream.encrypted key).data.length /
      (frameSize (stream.encrypted key).header).toNat < 2 ^ 31 := by
    rw [stream.encrypted_length key]
    exact few
  have words : ((stream.encrypted key).encrypted key).data =
      cryptData stream.header.sampleWidth (stream.words key) (stream.encrypted key).data := by
    rw [← stream.encrypted_words key]
    rfl
  rw [if_pos ⟨readable'.room, readable'.ended⟩, if_pos few', words] at again
  exact again

/-- From `2 ^ 31` frames on no data is written, so the data is not recovered. -/
theorem recode_encrypted_many {key : CInt} {argv : List (List Byte)} {stream : AuStream}
    (readable : stream.Readable)
    (many : ¬ stream.data.length / (frameSize stream.header).toNat < 2 ^ 31) :
    recode (cryptOptions key) argv (writeHeader stream.header ++ stream.notes) ≠
      some (true, stream.content) := by
  intro returned
  have word := cryptOptions_mode key
  have speed : isSpeedUp (cryptOptions key) = false := modeBit word (by omega) (by omega)
  have slow : isSlowDown (cryptOptions key) = false := modeBit word (by omega) (by omega)
  obtain ⟨sized, offset, notes, rest, -, -, -, set, start, -, same⟩ := recode_output returned
  rw [readHeader_writeHeader _ _ stream.valid readable.size readable.rate] at set same
  dsimp only at set same
  have none := (recodeData_length (cryptOptions key) { sized with dataOffset := offset }
    (frameCount stream.header) rest).1 word
  rw [rounds_eq, frameCount_toNat, stream.present, if_neg many, Nat.zero_mul,
    List.length_eq_zero_iff] at none
  rw [none, List.append_nil, AuStream.content, List.append_assoc] at same
  have offsets := putCharInt_injective (show putCharInt stream.header.dataOffset = putCharInt offset
    from congrArg (headerField · 1) same)
  have lengths := congrArg List.length same
  simp only [List.length_append, writeHeader_length] at lengths
  have announced := stream.offset
  rw [offsets] at announced
  have empty : stream.data.length = 0 := by omega
  rw [empty, Nat.zero_div] at many
  omega

/-- Decryption undoes encryption exactly when the fields of the stream are read as they are,
the number of frames fits an `int` and no 32-bit sample is lost on the way. -/
theorem recovers_iff (key : CInt) (argv argv' : List (List Byte)) (stream : AuStream) :
    Recovers key argv argv' stream ↔
      stream.Readable ∧ stream.data.length / (frameSize stream.header).toNat < 2 ^ 31 ∧
        DataSurvives stream.header.sampleWidth (stream.words key) stream.data := by
  have twice := cryptData_twice stream.header.sampleWidth (stream.words key) stream.data
    stream.supported.short (stream.wholeSamples key)
  have content : stream.content = writeHeader stream.header ++ (stream.notes ++ stream.data) :=
    List.append_assoc _ _ _
  have second : (stream.encrypted key).bytes =
      writeHeader stream.header ++ stream.notes ++ (stream.encrypted key).data :=
    List.append_nil _
  constructor
  · rintro ⟨encrypted, first, again⟩
    have fields := again
    rw [content] at fields
    obtain ⟨size, rate⟩ := recode_crypt_fields fields
    rw [recode_crypt key argv stream size rate] at first
    split at first
    · rename_i kept
      have readable : stream.Readable := ⟨size, rate, kept.1, kept.2⟩
      split at first
      · rename_i few
        rw [Option.some.injEq, Prod.mk.injEq, ← second] at first
        rw [← first.2, recode_encrypted key argv' readable few, Option.some.injEq,
          Prod.mk.injEq] at again
        exact ⟨readable, few, twice.mp (List.append_cancel_left again.2)⟩
      · rename_i many
        rw [Option.some.injEq, Prod.mk.injEq, List.append_nil] at first
        rw [← first.2] at again
        exact absurd again (recode_encrypted_many readable many)
    · cases first
  · rintro ⟨readable, few, survives⟩
    refine ⟨(stream.encrypted key).bytes, ?_, ?_⟩
    · rw [recode_crypt key argv stream readable.size readable.rate,
        if_pos ⟨readable.room, readable.ended⟩, if_pos few, second]
    · rw [recode_encrypted key argv' readable few, twice.mpr survives]
      rfl

/-- A mono 32-bit stream with the single sample `-1`. -/
def minusOneStream : AuStream where
  header := { magicNumber := audioMagic, dataOffset := 24, dataSize := 4, encoding := 5,
              sampleRate := 8000, channels := 1 }
  notes := []
  data := ones
  trailing := []
  valid := by decide
  offset := by decide
  present := by decide
  whole := by decide

/-- The sample is read as 0, so it comes back as 0 unless the key hides it again. -/
theorem recovers_not_minus_one :
    ¬ ∀ (key : CInt) (argv argv' : List (List Byte)) (stream : AuStream),
      Recovers key argv argv' stream := by
  intro always
  obtain ⟨encrypted, first, again⟩ := always 1 [] [] minusOneStream
  have once : recode (cryptOptions 1) [] minusOneStream.bytes = some (true, encrypted) := first
  rw [show recode (cryptOptions 1) [] minusOneStream.bytes = some (true,
    writeHeader minusOneStream.header ++ (minusOneStream.encrypted 1).data) by decide] at once
  cases once
  exact absurd again (by decide)

end Audible.Recoder
