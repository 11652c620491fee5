import Audible.RecoderFrames

set_option autoImplicit false

/- Two runs over one stream, both of which keep the annotation: speeding up what was slowed down,
and speeding up twice. -/
namespace Audible.Recoder

theorem everyNth_append {α : Type} (N i : Nat) (frames more : List α) :
    everyNth N i (frames ++ more) = everyNth N i frames ++ everyNth N (i + frames.length) more := by
  induction frames generalizing i with
  | nil => rfl
  | cons frame frames ih =>
      rw [List.cons_append, everyNth_cons, everyNth_cons, ih, List.length_cons,
        show i + 1 + frames.length = i + (frames.length + 1) by omega]
      split
      · rw [List.cons_append]
      · rfl

theorem everyNth_map {α β : Type} (f : α → β) (N i : Nat) (frames : List α) :
    everyNth N i (frames.map f) = (everyNth N i frames).map f := by
  induction frames generalizing i with
  | nil => rfl
  | cons frame frames ih =>
      rw [List.map_cons, everyNth_cons, everyNth_cons, ih]
      split
      · rw [List.map_cons]
      · rfl

/-- The index counts modulo `N`. -/
theorem everyNth_add {α : Type} (N i : Nat) (frames : List α) :
    everyNth N (i + N) frames = everyNth N i frames := by
  induction frames generalizing i with
  | nil => rfl
  | cons frame frames ih =>
      rw [everyNth_cons, everyNth_cons, show i + N + 1 = i + 1 + N by omega, ih]
      simp only [Nat.dvd_add_left (Nat.dvd_refl N)]

theorem everyNth_between {α : Type} (N i : Nat) (frames : List α) (after : 0 < i)
    (before : i + frames.length ≤ N) : everyNth N i frames = [] := by
  induction frames generalizing i with
  | nil => rfl
  | cons frame frames ih =>
      rw [List.length_cons] at before
      have never : ¬ N ∣ i := Nat.not_dvd_of_pos_of_lt after (by omega)
      rw [everyNth_cons, if_neg never, ih (i + 1) (by omega) (by omega)]

theorem everyNth_length {α : Type} (N : Nat) (positive : 0 < N) (i : Nat) (frames : List α) :
    (everyNth N i frames).length + keptFrames N i = keptFrames N (i + frames.length) := by
  induction frames generalizing i with
  | nil => rw [everyNth_nil, List.length_nil, Nat.zero_add, Nat.add_zero]
  | cons frame frames ih =>
      have rest := ih (i + 1)
      rw [keptFrames_succ N i positive] at rest
      rw [everyNth_cons, List.length_cons, show i + (frames.length + 1) = i + 1 + frames.length by
        omega, ← rest]
      split
      · rw [List.length_cons]
        omega
      · omega

/-- Of the frames at the multiples of `M`, the one at `i` has the index of how many precede it. -/
theorem everyNth_everyNth {α : Type} (M N : Nat) (positive : 0 < M) (i : Nat) (frames : List α) :
    everyNth N (keptFrames M i) (everyNth M i frames) = everyNth (M * N) i frames := by
  induction frames generalizing i with
  | nil => rfl
  | cons frame frames ih =>
      have rest := ih (i + 1)
      rw [keptFrames_succ M i positive] at rest
      rw [everyNth_cons, everyNth_cons (M * N)]
      by_cases kept : M ∣ i
      · obtain ⟨k, rfl⟩ := kept
        have before : keptFrames M (M * k) = k := by
          rw [keptFrames_eq M _ positive, if_pos (Nat.dvd_mul_right M k), Nat.add_zero,
            Nat.mul_div_cancel_left k positive]
        rw [if_pos (Nat.dvd_mul_right M k), before] at rest
        rw [if_pos (Nat.dvd_mul_right M k), before, everyNth_cons, rest]
        simp only [Nat.mul_dvd_mul_iff_left positive]
      · have dropped : ¬ M * N ∣ i := fun both => kept (Nat.dvd_trans (Nat.dvd_mul_right M N) both)
        rw [if_neg kept, Nat.add_zero] at rest
        rw [if_neg kept, if_neg dropped, rest]

@[simp] theorem insertedFrames_length (N : CInt) (S T : List CInt) :
    (insertedFrames N S T).length = (N.toInt - 1).toNat := by
  rw [insertedFrames, List.length_map, List.length_range']

theorem slowedDown_length (N : CInt) (frames : List (List CInt)) :
    (slowedDown N frames).length = slowedFrames N.toInt frames.length := by
  induction frames with
  | nil => simp [slowedDown, slowedFrames]
  | cons S frames ih =>
      cases frames with
      | nil => simp [slowedDown, slowedFrames]
      | cons T frames =>
          rw [slowedDown_cons, List.length_append, List.length_cons, insertedFrames_length, ih]
          simp only [slowedFrames, List.length_cons, Nat.add_sub_cancel]
          ring

/-- Interpolation keeps the number of samples. -/
theorem slowedDown_sized (N : CInt) (channels : Nat) (frames : List (List CInt))
    (sized : ∀ frame ∈ frames, frame.length = channels) :
    ∀ frame ∈ slowedDown N frames, frame.length = channels := by
  induction frames with
  | nil => exact sized
  | cons S frames ih =>
      cases frames with
      | nil => exact sized
      | cons T frames =>
          have rest := ih fun frame member => sized frame (List.mem_cons_of_mem S member)
          have first := sized S (by simp)
          have second := sized T (by simp)
          intro frame member
          rw [slowedDown_cons, List.mem_append, List.mem_cons] at member
          rcases member with (rfl | inserted) | later
          · exact first
          · obtain ⟨k, -, rfl⟩ := List.mem_map.mp inserted
            rw [interpolateFrame, List.length_zipWith, first, second, Nat.min_self]
          · exact rest frame later

/-- The frames that were there before are the ones at the multiples of the factor. -/
theorem everyNth_slowedDown (N : CInt) (positive : 1 ≤ N.toInt) (frames : List (List CInt)) :
    everyNth N.toInt.natAbs 0 (slowedDown N frames) = frames := by
  induction frames with
  | nil => rfl
  | cons S frames ih =>
      cases frames with
      | nil => rw [show slowedDown N [S] = [S] from rfl, everyNth_cons, if_pos (Nat.dvd_zero _),
          everyNth_nil]
      | cons T frames =>
          have inserted := everyNth_between N.toInt.natAbs 1 (insertedFrames N S T) (by omega)
            (by rw [insertedFrames_length]; omega)
          have next : 0 + (S :: insertedFrames N S T).length = 0 + N.toInt.natAbs := by
            rw [List.length_cons, insertedFrames_length]
            omega
          rw [slowedDown_cons, everyNth_append, next, everyNth_add, ih, everyNth_cons,
            if_pos (Nat.dvd_zero _), inserted]
          rfl

/-- A frame as it is read after it was written. -/
def reread (width : Nat) (frame : List CInt) : List CInt :=
  frame.map fun s => decodeSample (putByteInt s width)

theorem decodeSample_reread (field : List Byte) (short : field.length ≤ 4) :
    decodeSample (putByteInt (decodeSample field) field.length) = decodeSample field := by
  by_cases lost : field = ones
  · subst lost
    decide
  · rw [(putByteInt_decodeSample field short).mpr lost]

theorem readFrames_add (channels width m n : Nat) (input : List Byte) :
    readFrames channels width (m + n) input =
      let front := readFrames channels width m input
      let rest := readFrames channels width n front.2
      (front.1 ++ rest.1, rest.2) := by
  induction m generalizing input with
  | zero => rw [Nat.zero_add]; rfl
  | succ m ih =>
      rw [Nat.succ_add, readFrames, ih]
      rfl

@[simp] theorem readFrames_length (channels width count : Nat) (input : List Byte) :
    (readFrames channels width count input).1.length = count := by
  induction count generalizing input with
  | zero => rfl
  | succ count ih => rw [readFrames, List.length_cons, ih]

theorem readFrames_sized (channels width count : Nat) (input : List Byte) :
    ∀ frame ∈ (readFrames channels width count input).1, frame.length = channels := by
  induction count generalizing input with
  | zero => exact fun frame member => absurd member List.not_mem_nil
  | succ count ih =>
      intro frame member
      rw [readFrames, List.mem_cons] at member
      rcases member with rfl | member
      · exact readFrame_length _ _ _
      · exact ih _ frame member

/-- Past the end of the input every sample is zero. -/
theorem readFrame_nil (channels width : Nat) (positive : 0 < width) :
    readFrame channels width [] = (List.replicate channels 0, []) := by
  have sample : getStdinInt width [] = (0, []) := by
    obtain ⟨more, rfl⟩ := Nat.exists_eq_add_one.mpr positive
    rw [getStdinInt, getStdinIntFrom]
    exact if_pos (by decide)
  have zero : signExtend 0 width = 0 := by
    unfold signExtend
    rw [if_neg (by simp)]
  induction channels with
  | zero => rfl
  | succ channels ih =>
      rw [readFrame, sample, zero]
      dsimp only
      rw [ih, List.replicate_succ]

theorem readFrames_nil (channels width count : Nat) (positive : 0 < width) :
    readFrames channels width count [] =
      (List.replicate count (List.replicate channels 0), []) := by
  induction count with
  | zero => rfl
  | succ count ih =>
      rw [readFrames, readFrame_nil channels width positive]
      dsimp only
      rw [ih, List.replicate_succ]

/-- Frames are read back, and zeros where more of them are read than were written. -/
theorem readFrames_written (frames : List (List CInt)) (channels width more : Nat)
    (positive : 0 < width) (short : width ≤ 4)
    (sized : ∀ frame ∈ frames, frame.length = channels) :
    (readFrames channels width (frames.length + more) (writeFrames frames channels width)).1 =
      frames.map (reread width) ++ List.replicate more (List.replicate channels 0) := by
  have written := readFrames_writeFrames frames channels width [] positive short sized
  rw [List.append_nil] at written
  rw [readFrames_add, written]
  dsimp only
  rw [readFrames_nil channels width more positive]
  rfl

/-- A stream whose header and annotation are accepted and kept; any bytes may follow. -/
structure Intake where
  header : AudioHeader
  notes : List Byte
  data : List Byte
  valid : validHeader header = true
  offset : header.dataOffset.toNat = 24 + notes.length
  size : header.dataSize ≠ EOF
  rate : header.sampleRate ≠ EOF
  room : notes.length ≤ annotationMax
  ended : 255#8 ∉ notes

def Intake.bytes (intake : Intake) : List Byte :=
  writeHeader intake.header ++ intake.notes ++ intake.data

theorem Intake.size_positive (intake : Intake) : 0 < (frameSize intake.header).toNat := by
  have supported := supported_of_valid intake.valid
  rw [supported.size]
  exact Nat.mul_pos (by rcases supported.channels with one | two <;> omega) supported.positive

def Intake.frames (intake : Intake) : List (List CInt) :=
  (intake.header.inputFrames intake.data).1

theorem Intake.frames_length (intake : Intake) :
    intake.frames.length = intake.header.frameTotal :=
  readFrames_length _ _ _ _

theorem Intake.frames_sized (intake : Intake) :
    ∀ frame ∈ intake.frames, frame.length = intake.header.channelCount :=
  readFrames_sized _ _ _ _

/-- The same stream with other data, and a size that announces it. -/
def Intake.resized (intake : Intake) (size : CInt) (known : size ≠ EOF) (data : List Byte) :
    Intake where
  header := { intake.header with dataSize := size }
  notes := intake.notes
  data := data
  valid := intake.valid
  offset := intake.offset
  size := known
  rate := intake.rate
  room := intake.room
  ended := intake.ended

theorem Intake.resized_total (intake : Intake) (size : CInt) (known : size ≠ EOF)
    (data : List Byte) : (intake.resized size known data).header.frameTotal =
      size.toNat / (frameSize intake.header).toNat := rfl

theorem Intake.recodes {options : Options} (keeps : isPreserve options = true)
    (argv : List (List Byte)) (intake : Intake) :
    recode options argv intake.bytes =
      (setNewDataSize options intake.header (frameSize intake.header)
        (frameCount intake.header)).map fun sized => (true, writeHeader sized ++ intake.notes ++
          recodeData options sized (frameCount intake.header) intake.data) := by
  have offset : (intake.header.dataOffset - 24).toNat = intake.notes.length := by
    have := intake.offset
    bv_omega
  have aligned : 8 ∣ intake.notes.length := by
    have valid := intake.valid
    simp only [validHeader, validDataOffset, Bool.and_eq_true, decide_eq_true_eq] at valid
    have multiple := congrArg BitVec.toNat valid.1.1.2.1
    rw [BitVec.toNat_umod, intake.offset] at multiple
    change (24 + intake.notes.length) % 8 = 0 at multiple
    omega
  have header := readHeader_writeHeader intake.header (intake.notes ++ intake.data) intake.valid
    intake.size intake.rate
  have notes := readAnnotation_append intake.notes intake.data (intake.header.dataOffset - 24)
    offset aligned
  rw [if_pos ⟨intake.room, intake.ended⟩] at notes
  unfold recode
  rw [Intake.bytes, List.append_assoc, header]
  dsimp only
  rw [notes]
  dsimp only
  rw [keeps, if_pos rfl, if_neg (by decide)]
  cases set : setNewDataSize options intake.header (frameSize intake.header)
    (frameCount intake.header) with
  | none => rfl
  | some sized =>
      have kept := congrArg AudioHeader.dataOffset (setNewDataSize_eq set)
      dsimp only at kept
      simp only [Option.bind_eq_bind, Option.bind_some, Option.map_some, pure, kept, offset,
        writeNotes]

/-- The frames written by a run that speeds up or slows down. -/
theorem Intake.recodeData_speeds {options : Options} {mode : List Byte} (intake : Intake)
    (sized : AudioHeader) (same : sized = { intake.header with dataSize := sized.dataSize })
    (few : intake.header.frameTotal < 2 ^ 31) (up : isSpeedUp options = decide (mode = flag 0x75#8))
    (slow : isSlowDown options = decide (mode = flag 0x64#8))
    (speeds : mode = flag 0x75#8 ∨ mode = flag 0x64#8) :
    recodeData options sized (frameCount intake.header) intake.data =
      writeFrames (recodedFrames mode (getFactor options) intake.frames)
        intake.header.channelCount intake.header.sampleWidth := by
  have count : frameCount intake.header = BitVec.ofNat 32 intake.header.frameTotal := by
    rw [frameCount_eq, BitVec.ofInt_natCast]
    rfl
  have final := (recodeStream_eq sized _ few up slow speeds intake.data).2
  rw [recodeData_eq, count, final, same]
  rfl

/-- The announced size of a stream that is sped up by `N`. -/
def Intake.fasterSize (intake : Intake) (N : Nat) : CInt :=
  BitVec.ofNat 32 ((intake.header.frameTotal / N + 1) * (frameSize intake.header).toNat)

theorem Intake.speedUp {options : Options} (word : ModeWord 62 options)
    (keeps : isPreserve options = true) (factor : 1 ≤ (getFactor options).toInt)
    (argv : List (List Byte)) (intake : Intake) (few : intake.header.frameTotal < 2 ^ 31) :
    recode options argv intake.bytes = some (true,
      writeHeader { intake.header with
        dataSize := intake.fasterSize (getFactor options).toInt.natAbs } ++ intake.notes ++
      writeFrames (everyNth (getFactor options).toInt.natAbs 0 intake.frames)
        intake.header.channelCount intake.header.sampleWidth) := by
  have up : isSpeedUp options = true := modeBit word (by omega) (by omega)
  have slow : isSlowDown options = false := modeBit word (by omega) (by omega)
  rw [intake.recodes keeps]
  cases set : setNewDataSize options intake.header (frameSize intake.header)
    (frameCount intake.header) with
  | none =>
      rw [setNewDataSize, slow, up, if_neg Bool.false_ne_true, if_pos rfl] at set
      split at set
      · rename_i overflow
        rw [overflow.2] at factor
        exact absurd factor (by decide)
      · cases set
  | some sized =>
      have size : sized.dataSize = intake.fasterSize (getFactor options).toInt.natAbs := by
        have value : (frameCount intake.header).toInt = intake.header.frameTotal := by
          rw [frameCount_eq, BitVec.ofInt_natCast]
          exact toInt_ofNat_of_lt _ few
        have quotient : ((intake.header.frameTotal : Int)).tdiv (getFactor options).toInt =
            ((intake.header.frameTotal / (getFactor options).toInt.natAbs : Nat) : Int) := by
          rw [Int.tdiv_eq_ediv_of_nonneg (by omega), Int.natCast_ediv, Int.natAbs_of_nonneg (by omega)]
        rw [setNewDataSize_speed word set, value, quotient, Intake.fasterSize, ← BitVec.ofInt_natCast]
        push_cast
        rfl
      have same := setNewDataSize_eq set
      have data := @Intake.recodeData_speeds options (flag 0x75#8) intake sized same few
        (by rw [up]; rfl) (by rw [slow]; rfl) (.inl rfl)
      rw [recodedFrames, if_pos rfl] at data
      rw [Option.map_some, data, same, size]

/-- The announced size of a stream that is slowed down by `factor`. -/
def Intake.slowerSize (intake : Intake) (factor : Int) : CInt :=
  BitVec.ofNat 32 (slowedFrames factor intake.header.frameTotal *
    (frameSize intake.header).toNat)

theorem Intake.slowerSize_known (intake : Intake) (factor : Int)
    (fits : slowedFrames factor intake.header.frameTotal * (frameSize intake.header).toNat <
      2 ^ 32 - 1) : intake.slowerSize factor ≠ EOF := by
  have top : EOF.toNat = 2 ^ 32 - 1 := by decide
  intro ended
  have size := congrArg BitVec.toNat ended
  rw [Intake.slowerSize, BitVec.toNat_ofNat, top] at size
  omega

theorem Intake.slowDown {options : Options} (word : ModeWord 61 options)
    (keeps : isPreserve options = true) (factor : 1 ≤ (getFactor options).toInt)
    (argv : List (List Byte)) (intake : Intake) (filled : 1 ≤ intake.header.frameTotal)
    (few : intake.header.frameTotal < 2 ^ 31) :
    recode options argv intake.bytes = some (true,
      writeHeader { intake.header with
        dataSize := intake.slowerSize (getFactor options).toInt } ++ intake.notes ++
      writeFrames (slowedDown (getFactor options) intake.frames)
        intake.header.channelCount intake.header.sampleWidth) := by
  have up : isSpeedUp options = false := modeBit word (by omega) (by omega)
  have slow : isSlowDown options = true := modeBit word (by omega) (by omega)
  rw [intake.recodes keeps]
  cases set : setNewDataSize options intake.header (frameSize intake.header)
    (frameCount intake.header) with
  | none =>
      rw [setNewDataSize, slow, if_pos rfl] at set
      cases set
  | some sized =>
      have size : sized.dataSize = intake.slowerSize (getFactor options).toInt := by
        have frames : ((intake.header.dataSize.toNat / (frameSize intake.header).toNat : Nat) : Int) +
            ((getFactor options).toInt - 1) *
              (((intake.header.dataSize.toNat / (frameSize intake.header).toNat : Nat) : Int) - 1) =
            (slowedFrames (getFactor options).toInt intake.header.frameTotal : Nat) := by
          rw [slowedFrames, AudioHeader.frameTotal] at *
          rw [Int.natCast_add, Int.natCast_mul, Int.toNat_of_nonneg (by omega),
            Int.natCast_sub (by omega)]
          rfl
        rw [setNewDataSize_slow word set, frames, Intake.slowerSize, ← BitVec.ofInt_natCast]
        push_cast
        rfl
      have same := setNewDataSize_eq set
      have data := @Intake.recodeData_speeds options (flag 0x64#8) intake sized same few
        (by rw [up]; rfl) (by rw [slow]; rfl) (.inr rfl)
      rw [recodedFrames, if_neg (by decide)] at data
      rw [Option.map_some, data, same, size]

/-- What a run reads of a stream that announces `more` frames than its data has. -/
theorem Intake.resized_frames (intake : Intake) (size : CInt) (known : size ≠ EOF)
    (frames : List (List CInt)) (more : Nat)
    (sized : ∀ frame ∈ frames, frame.length = intake.header.channelCount)
    (announced : size.toNat = (frames.length + more) * (frameSize intake.header).toNat) :
    (intake.resized size known (writeFrames frames intake.header.channelCount
      intake.header.sampleWidth)).frames =
        frames.map (reread intake.header.sampleWidth) ++
          List.replicate more (List.replicate intake.header.channelCount 0) := by
  have supported := supported_of_valid intake.valid
  have total : (intake.resized size known (writeFrames frames intake.header.channelCount
      intake.header.sampleWidth)).header.frameTotal = frames.length + more := by
    rw [intake.resized_total, announced, Nat.mul_div_cancel _ intake.size_positive]
  rw [Intake.frames, AudioHeader.inputFrames, total]
  exact readFrames_written frames _ _ more supported.positive supported.short sized

/-- What a run is given when the fields of a complete stream are read as they are. -/
def AuStream.intake (stream : AuStream) (readable : stream.Readable) : Intake where
  header := stream.header
  notes := stream.notes
  data := stream.data ++ stream.trailing
  valid := stream.valid
  offset := stream.offset
  size := readable.size
  rate := readable.rate
  room := readable.room
  ended := readable.ended

theorem AuStream.intake_bytes (stream : AuStream) (readable : stream.Readable) :
    (stream.intake readable).bytes = stream.bytes :=
  (List.append_assoc _ _ _).symm

theorem AuStream.wholeFrames (stream : AuStream) : stream.data.length =
    stream.header.frameTotal * (stream.header.channelCount * stream.header.sampleWidth) := by
  rw [AudioHeader.frameTotal, stream.present, ← stream.supported.size,
    Nat.div_mul_cancel stream.whole]

theorem AuStream.frames_eq (stream : AuStream) (readable : stream.Readable) :
    (stream.intake readable).frames =
      (BigEndian.fields (stream.header.channelCount * stream.header.sampleWidth)
        stream.header.frameTotal stream.data).map fun frame =>
          (BigEndian.fields stream.header.sampleWidth stream.header.channelCount frame).map
            decodeSample :=
  congrArg Prod.fst (readFrames_append stream.header.channelCount stream.header.sampleWidth
    stream.header.frameTotal stream.data stream.trailing stream.supported.positive
    stream.supported.short stream.wholeFrames)

/-- What is decoded once is written and decoded again as it is. -/
theorem AuStream.frames_reread (stream : AuStream) (readable : stream.Readable) :
    (stream.intake readable).frames.map (reread stream.header.sampleWidth) =
      (stream.intake readable).frames := by
  rw [stream.frames_eq readable, List.map_map]
  refine List.map_congr_left fun frame member => ?_
  have size := BigEndian.length_of_mem_fields stream.wholeFrames member
  rw [Function.comp_apply, reread, List.map_map]
  refine List.map_congr_left fun field inside => ?_
  have width := BigEndian.length_of_mem_fields size inside
  have again := decodeSample_reread field (by rw [width]; exact stream.supported.short)
  rwa [width] at again

/-- The decoded frames spell the data, unless a sample of four bytes is taken for the end of the
input. -/
theorem AuStream.writeFrames_frames (stream : AuStream) (readable : stream.Readable) :
    writeFrames (stream.intake readable).frames stream.header.channelCount
        stream.header.sampleWidth = stream.data ↔
      ∀ field ∈ BigEndian.fields stream.header.sampleWidth
        (stream.data.length / stream.header.sampleWidth) stream.data, field ≠ ones := by
  have count : stream.data.length / stream.header.sampleWidth =
      stream.header.frameTotal * stream.header.channelCount := by
    rw [stream.wholeFrames, ← Nat.mul_assoc, Nat.mul_div_cancel _ stream.supported.positive]
  have whole : stream.data.length =
      stream.header.frameTotal * stream.header.channelCount * stream.header.sampleWidth := by
    rw [stream.wholeFrames, Nat.mul_assoc]
  have written : writeFrames (stream.intake readable).frames stream.header.channelCount
      stream.header.sampleWidth = _ :=
    writeFrames_readFrames stream.header.channelCount stream.header.sampleWidth
      stream.header.frameTotal stream.data stream.trailing stream.supported.positive
      stream.supported.short stream.wholeFrames
  rw [written, count, BigEndian.flatten_map_fields_iff _ _ _ _ whole
    (fun field => putByteInt_length _ _)]
  refine forall₂_congr fun field member => ?_
  have width := BigEndian.length_of_mem_fields whole member
  rw [← width]
  exact putByteInt_decodeSample field (by rw [width]; exact stream.supported.short)

/-- The word of an accepted line that speeds up or slows down. -/
theorem speed_word {argv : List (List Byte)} {options : Options}
    (accepted : validargs argv = (true, options)) :
    (isSpeedUp options = true → ModeWord 62 options) ∧
      (isSlowDown options = true → ModeWord 61 options) := by
  rcases validargs_word accepted with rfl | word | word | word
  · exact ⟨fun never => absurd never (by decide), fun never => absurd never (by decide)⟩
  · have slow : isSlowDown options = false := modeBit word (by omega) (by omega)
    rw [slow]
    exact ⟨fun _ => word, fun never => absurd never Bool.false_ne_true⟩
  · have up : isSpeedUp options = false := modeBit word (by omega) (by omega)
    rw [up]
    exact ⟨fun never => absurd never Bool.false_ne_true, fun _ => word⟩
  · have up : isSpeedUp options = false := modeBit word.modeWord (by omega) (by omega)
    have slow : isSlowDown options = false := modeBit word.modeWord (by omega) (by omega)
    rw [up, slow]
    exact ⟨fun never => absurd never Bool.false_ne_true,
      fun never => absurd never Bool.false_ne_true⟩

theorem slowedFrames_succ (N q : Nat) (positive : 1 ≤ N) :
    slowedFrames (N : Int) (q + 1) = 1 + N * q := by
  obtain ⟨m, rfl⟩ := Nat.exists_eq_add_one.mpr positive
  rw [slowedFrames, Nat.add_sub_cancel, show (((m + 1 : Nat) : Int) - 1).toNat = m by omega]
  ring

/-- The stream that is written when it is slowed down by `N`. -/
def Intake.slowed (intake : Intake) (N : CInt) (known : intake.slowerSize N.toInt ≠ EOF) : Intake :=
  intake.resized (intake.slowerSize N.toInt) known
    (writeFrames (slowedDown N intake.frames) intake.header.channelCount intake.header.sampleWidth)

theorem Intake.slowed_frames (intake : Intake) (N : CInt)
    (known : intake.slowerSize N.toInt ≠ EOF)
    (fits : slowedFrames N.toInt intake.header.frameTotal * (frameSize intake.header).toNat <
      2 ^ 32) :
    (intake.slowed N known).header.frameTotal = slowedFrames N.toInt intake.header.frameTotal ∧
      (intake.slowed N known).frames =
        (slowedDown N intake.frames).map (reread intake.header.sampleWidth) := by
  have size : (intake.slowerSize N.toInt).toNat =
      (slowedDown N intake.frames).length * (frameSize intake.header).toNat := by
    rw [Intake.slowerSize, BitVec.toNat_ofNat, Nat.mod_eq_of_lt fits, slowedDown_length,
      intake.frames_length]
  have sized := slowedDown_sized N _ _ intake.frames_sized
  have frames := intake.resized_frames _ known _ 0 sized size
  rw [List.replicate_zero, List.append_nil] at frames
  refine ⟨?_, frames⟩
  rw [Intake.slowed, intake.resized_total, size, Nat.mul_div_cancel _ intake.size_positive,
    slowedDown_length, intake.frames_length]

/-- Speeding a slowed stream up again by the same factor. -/
theorem Intake.speedUp_slowed {options : Options} {N : CInt} (word : ModeWord 62 options)
    (keeps : isPreserve options = true) (same : getFactor options = N) (factor : 2 ≤ N.toInt)
    (argv : List (List Byte)) (intake : Intake) (filled : 1 ≤ intake.header.frameTotal)
    (known : intake.slowerSize N.toInt ≠ EOF)
    (few : slowedFrames N.toInt intake.header.frameTotal < 2 ^ 31)
    (fits : slowedFrames N.toInt intake.header.frameTotal *
      (frameSize intake.header).toNat < 2 ^ 32) :
    recode options argv (intake.slowed N known).bytes =
      some (true, writeHeader { intake.header with
          dataSize := BitVec.ofNat 32 (intake.header.frameTotal * (frameSize intake.header).toNat) } ++
        intake.notes ++ writeFrames (intake.frames.map (reread intake.header.sampleWidth))
          intake.header.channelCount intake.header.sampleWidth) := by
  subst same
  obtain ⟨total, frames⟩ := intake.slowed_frames (getFactor options) known fits
  have run := (intake.slowed (getFactor options) known).speedUp word keeps (by omega) argv
    (by rw [total]; exact few)
  have size : (intake.slowed (getFactor options) known).fasterSize
      (getFactor options).toInt.natAbs =
        BitVec.ofNat 32 (intake.header.frameTotal * (frameSize intake.header).toNat) := by
    obtain ⟨q, count⟩ := Nat.exists_eq_add_one.mpr filled
    obtain ⟨n, value⟩ := Int.eq_ofNat_of_zero_le (show 0 ≤ (getFactor options).toInt by omega)
    have two : 1 < n := by omega
    have announced : slowedFrames (getFactor options).toInt intake.header.frameTotal / n + 1 =
        intake.header.frameTotal := by
      rw [value, count, slowedFrames_succ n q (by omega), Nat.add_mul_div_left 1 q (by omega),
        Nat.div_eq_of_lt two, Nat.zero_add]
    rw [Intake.fasterSize, total, value, Int.natAbs_natCast]
    rw [value] at announced
    rw [announced]
    rfl
  rw [frames, everyNth_map, everyNth_slowedDown _ (by omega), size] at run
  exact run

/-- Speeding up by the factor of the first run undoes slowing down, whatever was inserted, exactly
when no sample of the stream reads as the end of the input. -/
theorem speedUp_slowDown_iff {down up : List (List Byte)} {slower faster : Options}
    (accepted : validargs down = (true, slower)) (accepted' : validargs up = (true, faster))
    (slows : isSlowDown slower = true) (speeds : isSpeedUp faster = true)
    (keeps : isPreserve slower = true) (keeps' : isPreserve faster = true)
    (same : getFactor faster = getFactor slower) (factor : 2 ≤ (getFactor slower).toInt)
    (stream : AuStream) (readable : stream.Readable) (filled : stream.data ≠ [])
    (few : slowedFrames (getFactor slower).toInt stream.header.frameTotal < 2 ^ 31)
    (fits : slowedFrames (getFactor slower).toInt stream.header.frameTotal *
      (frameSize stream.header).toNat < 2 ^ 32 - 1) :
    (∃ slowed, recode slower down stream.bytes = some (true, slowed) ∧
      recode faster up slowed = some (true, stream.content)) ↔
      ∀ field ∈ BigEndian.fields stream.header.sampleWidth
        (stream.data.length / stream.header.sampleWidth) stream.data, field ≠ ones := by
  have whole : stream.header.frameTotal * (frameSize stream.header).toNat =
      stream.header.dataSize.toNat := by
    rw [stream.present, stream.wholeFrames, stream.supported.size]
  have some : 1 ≤ stream.header.frameTotal := by
    refine Nat.pos_of_ne_zero fun none => filled ?_
    have length := stream.wholeFrames
    rw [none, Nat.zero_mul] at length
    exact List.length_eq_zero_iff.mp length
  have known := (stream.intake readable).slowerSize_known (getFactor slower).toInt fits
  have fewer : stream.header.frameTotal < 2 ^ 31 := by
    unfold slowedFrames at few
    omega
  have first := (stream.intake readable).slowDown ((speed_word accepted).2 slows) keeps (by omega)
    down some fewer
  have second := (stream.intake readable).speedUp_slowed ((speed_word accepted').1 speeds) keeps'
    same factor up some known few (Nat.lt_trans fits (by decide))
  rw [stream.intake_bytes readable] at first
  have slowedBytes := first.trans (show _ = Option.some (true,
    ((stream.intake readable).slowed (getFactor slower) known).bytes) from rfl)
  have restored : BitVec.ofNat 32 (stream.header.frameTotal * (frameSize stream.header).toNat) =
      stream.header.dataSize := by
    rw [whole, BitVec.ofNat_toNat, BitVec.setWidth_eq]
  have output : recode faster up ((stream.intake readable).slowed (getFactor slower) known).bytes =
      Option.some (true, writeHeader { stream.header with dataSize := stream.header.dataSize } ++
        stream.notes ++ writeFrames (stream.intake readable).frames stream.header.channelCount
          stream.header.sampleWidth) := by
    rw [← restored, ← stream.frames_reread readable]
    exact second
  rw [← stream.writeFrames_frames readable]
  constructor
  · rintro ⟨slowed, once, twice⟩
    have bytes := slowedBytes.symm.trans once
    rw [Option.some.injEq, Prod.mk.injEq] at bytes
    rw [← bytes.2] at twice
    have content := output.symm.trans twice
    rw [Option.some.injEq, Prod.mk.injEq] at content
    exact List.append_cancel_left content.2
  · intro spelled
    refine ⟨_, slowedBytes, output.trans ?_⟩
    rw [spelled]
    rfl

def fiveSamples : AuStream where
  header := { magicNumber := audioMagic, dataOffset := 24, dataSize := 5, encoding := 2,
              sampleRate := 8000, channels := 1 }
  notes := []
  data := [10#8, 30#8, 20#8, 255#8, 50#8]
  trailing := []
  valid := by decide
  offset := by decide
  present := by decide
  whole := by decide

theorem fiveSamples_readable : fiveSamples.Readable :=
  ⟨by decide, by decide, by decide, by decide⟩

/-- Nine samples come to be five again. -/
theorem speedUp_slowDown_five :
    ∃ slowed, recode (validargs (bytesOf halfAsFast)).2 (bytesOf halfAsFast) fiveSamples.bytes =
        some (true, slowed) ∧
      recode (validargs twiceAsFast).2 twiceAsFast slowed = some (true, fiveSamples.content) :=
  (speedUp_slowDown_iff (Prod.ext (by decide) rfl) (Prod.ext (by decide) rfl) (by decide)
    (by decide) (by decide) (by decide) (by decide) (by decide) fiveSamples fiveSamples_readable
    (by decide) (by decide) (by decide)).mpr (by decide)

theorem everyNth_subset {α : Type} (N i : Nat) (frames : List α) : everyNth N i frames ⊆ frames := by
  induction frames generalizing i with
  | nil => exact List.Subset.refl _
  | cons frame frames ih =>
      rw [everyNth_cons]
      split
      · exact List.cons_subset_cons frame (ih (i + 1))
      · exact List.subset_cons_of_subset frame (ih (i + 1))

/-- Half of the announced bytes and one frame. -/
theorem Intake.faster_small (intake : Intake) (M : Nat) (half : 2 ≤ M) :
    (intake.header.frameTotal / M + 2) * (frameSize intake.header).toNat < 2 ^ 31 + 17 := by
  have supported := supported_of_valid intake.valid
  have size : (frameSize intake.header).toNat ≤ 8 := by
    rw [supported.size]
    have short := supported.short
    rcases supported.channels with one | two
    · rw [one]
      omega
    · rw [two]
      omega
  have present : intake.header.frameTotal * (frameSize intake.header).toNat < 2 ^ 32 :=
    Nat.lt_of_le_of_lt (Nat.div_mul_le_self _ _) intake.header.dataSize.isLt
  have twice : intake.header.frameTotal / M * 2 ≤ intake.header.frameTotal :=
    Nat.le_trans (Nat.mul_le_mul_left _ half) (Nat.div_mul_le_self _ _)
  have bytes := Nat.mul_le_mul_right (frameSize intake.header).toNat twice
  rw [Nat.mul_right_comm] at bytes
  rw [Nat.add_mul]
  omega

theorem Intake.fasterSize_toNat (intake : Intake) (M : Nat) (half : 2 ≤ M) :
    (intake.fasterSize M).toNat =
      (intake.header.frameTotal / M + 1) * (frameSize intake.header).toNat := by
  have small := intake.faster_small M half
  rw [Nat.add_mul] at small
  rw [Intake.fasterSize, BitVec.toNat_ofNat, Nat.mod_eq_of_lt]
  rw [Nat.add_mul]
  omega

theorem Intake.fasterSize_known (intake : Intake) (M : Nat) (half : 2 ≤ M) :
    intake.fasterSize M ≠ EOF := by
  have small := intake.faster_small M half
  rw [Nat.add_mul] at small
  have top : EOF.toNat = 2 ^ 32 - 1 := by decide
  intro ended
  have size := congrArg BitVec.toNat ended
  rw [intake.fasterSize_toNat M half, top, Nat.add_mul] at size
  omega

/-- The stream that is written when it is sped up by `M`. -/
def Intake.sped (intake : Intake) (M : Nat) (half : 2 ≤ M) : Intake :=
  intake.resized (intake.fasterSize M) (intake.fasterSize_known M half)
    (writeFrames (everyNth M 0 intake.frames) intake.header.channelCount
      intake.header.sampleWidth)

theorem Intake.sped_total (intake : Intake) (M : Nat) (half : 2 ≤ M) :
    (intake.sped M half).header.frameTotal = intake.header.frameTotal / M + 1 := by
  rw [Intake.sped, intake.resized_total, intake.fasterSize_toNat M half,
    Nat.mul_div_cancel _ intake.size_positive]

/-- Where `M` divides the number of frames, one frame more is announced than is written, and it is
read as zeros. -/
theorem Intake.sped_frames (intake : Intake) (M : Nat) (half : 2 ≤ M)
    (same : intake.frames.map (reread intake.header.sampleWidth) = intake.frames) :
    (intake.sped M half).frames = everyNth M 0 intake.frames ++
      List.replicate (if M ∣ intake.header.frameTotal then 1 else 0)
        (List.replicate intake.header.channelCount 0) := by
  have count := everyNth_length M (by omega) 0 intake.frames
  have none : keptFrames M 0 = 0 := Nat.div_eq_of_lt (by omega)
  rw [none, Nat.add_zero, Nat.zero_add, intake.frames_length,
    keptFrames_eq M _ (show 0 < M by omega)] at count
  have announced : (intake.fasterSize M).toNat = ((everyNth M 0 intake.frames).length +
      if M ∣ intake.header.frameTotal then 1 else 0) * (frameSize intake.header).toNat := by
    rw [intake.fasterSize_toNat M half, count]
    split <;> rfl
  have sized : ∀ frame ∈ everyNth M 0 intake.frames, frame.length = intake.header.channelCount :=
    fun frame member => intake.frames_sized frame (everyNth_subset M 0 _ member)
  have frames := intake.resized_frames _ (intake.fasterSize_known M half) _ _ sized announced
  rwa [← everyNth_map, same] at frames

/-- Speeding up a stream that was sped up by `M`. -/
theorem Intake.speedUp_sped {options : Options} {N : CInt} (word : ModeWord 62 options)
    (keeps : isPreserve options = true) (factor : getFactor options = N) (forward : 1 ≤ N.toInt)
    (argv : List (List Byte)) (intake : Intake) (M : Nat) (half : 2 ≤ M)
    (same : intake.frames.map (reread intake.header.sampleWidth) = intake.frames)
    (few : intake.header.frameTotal < 2 ^ 31) :
    recode options argv (intake.sped M half).bytes = some (true,
      writeHeader { intake.header with
        dataSize := (intake.sped M half).fasterSize N.toInt.natAbs } ++ intake.notes ++
      (writeFrames (everyNth (M * N.toInt.natAbs) 0 intake.frames) intake.header.channelCount
          intake.header.sampleWidth ++
        if M * N.toInt.natAbs ∣ intake.header.frameTotal then
          writeFrame (List.replicate intake.header.channelCount 0) intake.header.channelCount
            intake.header.sampleWidth
        else [])) := by
  subst factor
  have total := intake.sped_total M half
  have frames := intake.sped_frames M half same
  have fewer : (intake.sped M half).header.frameTotal < 2 ^ 31 := by
    have less : intake.header.frameTotal / M ≤ intake.header.frameTotal / 2 :=
      Nat.div_le_div_left half (by omega)
    rw [total]
    omega
  have run := (intake.sped M half).speedUp word keeps forward argv fewer
  have none : keptFrames M 0 = 0 := Nat.div_eq_of_lt (by omega)
  have composed := everyNth_everyNth M (getFactor options).toInt.natAbs (show 0 < M by omega) 0
    intake.frames
  have count := everyNth_length M (show 0 < M by omega) 0 intake.frames
  rw [none] at composed
  rw [none, Nat.add_zero, Nat.zero_add, intake.frames_length,
    keptFrames_eq M _ (show 0 < M by omega)] at count
  have last : everyNth (getFactor options).toInt.natAbs (0 + (everyNth M 0 intake.frames).length)
      (List.replicate (if M ∣ intake.header.frameTotal then 1 else 0)
        (List.replicate intake.header.channelCount (0 : CInt))) =
      if M * (getFactor options).toInt.natAbs ∣ intake.header.frameTotal then
        [List.replicate intake.header.channelCount 0] else [] := by
    rw [Nat.zero_add, count]
    by_cases even : M ∣ intake.header.frameTotal
    · simp only [if_pos even, Nat.add_zero, List.replicate_one, everyNth_cons, everyNth_nil,
        Nat.dvd_div_iff_mul_dvd even]
    · have dropped : ¬ M * (getFactor options).toInt.natAbs ∣ intake.header.frameTotal :=
        fun both => even (Nat.dvd_trans (Nat.dvd_mul_right M _) both)
      rw [if_neg even, if_neg even, if_neg dropped, List.replicate_zero, everyNth_nil]
  rw [frames, everyNth_append, composed, last, writeFrames_append] at run
  refine run.trans ?_
  split
  · rw [writeFrames_cons, writeFrames_nil, List.append_nil]
    rfl
  · rfl

/-- The two ways announce the same size. -/
theorem Intake.sped_fasterSize_iff (intake : Intake) (M N : Nat) (half : 2 ≤ M) (forward : 1 ≤ N) :
    (intake.sped M half).fasterSize N = intake.fasterSize (M * N) ↔
      ¬ N ∣ intake.header.frameTotal / M + 1 := by
  have small := intake.faster_small M half
  have twice : 2 ≤ M * N := Nat.le_trans half (Nat.le_mul_of_pos_right M forward)
  have first : (intake.sped M half).fasterSize N = BitVec.ofNat 32
      (((intake.header.frameTotal / M + 1) / N + 1) * (frameSize intake.header).toNat) := by
    rw [Intake.fasterSize, intake.sped_total M half]
    rfl
  have less : ((intake.header.frameTotal / M + 1) / N + 1) * (frameSize intake.header).toNat ≤
      (intake.header.frameTotal / M + 2) * (frameSize intake.header).toNat :=
    Nat.mul_le_mul_right _ (Nat.succ_le_succ (Nat.div_le_self _ N))
  rw [← BitVec.toNat_inj, intake.fasterSize_toNat (M * N) twice, first, BitVec.toNat_ofNat,
    Nat.mod_eq_of_lt (by omega), ← Nat.div_div_eq_div_mul, Nat.succ_div]
  constructor
  · intro same divides
    rw [if_pos divides] at same
    exact absurd (Nat.eq_of_mul_eq_mul_right intake.size_positive same) (by omega)
  · intro never
    rw [if_neg never]

theorem writeHeader_resized_iff (header : AudioHeader) (size size' : CInt)
    (notes data more : List Byte) :
    writeHeader { header with dataSize := size } ++ notes ++ (data ++ more) =
        writeHeader { header with dataSize := size' } ++ notes ++ data ↔
      size = size' ∧ more = [] := by
  constructor
  · intro same
    rw [List.append_assoc, List.append_assoc] at same
    have fields := congrArg (headerField · 2) same
    have sizes := putCharInt_injective (show putCharInt size = putCharInt size' from fields)
    subst sizes
    have tails := List.append_cancel_left (List.append_cancel_left same)
    exact ⟨rfl, by simpa using tails⟩
  · rintro ⟨rfl, rfl⟩
    rw [List.append_nil]

/-- Speeding up by `M` and then by `N` is speeding up by `M * N` exactly when `setNewDataSize` does
not count one frame too many on the way: the product must not divide the number of frames, nor the
second factor the number that the first run announces. -/
theorem speedUp_speedUp_iff {once twice whole : List (List Byte)} {first second product : Options}
    (accepted : validargs once = (true, first)) (accepted' : validargs twice = (true, second))
    (accepted'' : validargs whole = (true, product))
    (speeds : isSpeedUp first = true) (speeds' : isSpeedUp second = true)
    (speeds'' : isSpeedUp product = true) (keeps : isPreserve first = true)
    (keeps' : isPreserve second = true) (keeps'' : isPreserve product = true)
    (half : 2 ≤ (getFactor first).toInt) (forward : 1 ≤ (getFactor second).toInt)
    (factors : (getFactor product).toInt = (getFactor first).toInt * (getFactor second).toInt)
    (stream : AuStream) (readable : stream.Readable) (few : stream.header.frameTotal < 2 ^ 31) :
    (∃ faster, recode first once stream.bytes = some (true, faster) ∧
      recode second twice faster = recode product whole stream.bytes) ↔
      ¬ (getFactor product).toInt.natAbs ∣ stream.header.frameTotal ∧
        ¬ (getFactor second).toInt.natAbs ∣
          stream.header.frameTotal / (getFactor first).toInt.natAbs + 1 := by
  let intake := stream.intake readable
  have half' : 2 ≤ (getFactor first).toInt.natAbs := by omega
  have forward' : 1 ≤ (getFactor second).toInt.natAbs := by omega
  have positive : 1 ≤ (getFactor product).toInt := by
    rw [factors]
    have least := Int.mul_le_mul half forward (by omega) (by omega)
    omega
  have direct := intake.speedUp ((speed_word accepted'').1 speeds'') keeps'' positive whole few
  have start := intake.speedUp ((speed_word accepted).1 speeds) keeps (by omega) once few
  have next := intake.speedUp_sped ((speed_word accepted').1 speeds') keeps' rfl forward twice
    (getFactor first).toInt.natAbs half' (stream.frames_reread readable) few
  have multiplied : (getFactor product).toInt.natAbs =
      (getFactor first).toInt.natAbs * (getFactor second).toInt.natAbs := by
    rw [factors, Int.natAbs_mul]
  rw [multiplied] at direct ⊢
  rw [stream.intake_bytes readable] at direct start
  generalize (getFactor first).toInt.natAbs = M at *
  generalize (getFactor second).toInt.natAbs = N at *
  have firstBytes : recode first once stream.bytes = some (true, (intake.sped M half').bytes) := start
  have outputs : recode second twice (intake.sped M half').bytes =
      recode product whole stream.bytes ↔
        (intake.sped M half').fasterSize N = intake.fasterSize (M * N) ∧
          ¬ M * N ∣ stream.header.frameTotal := by
    rw [next, direct, Option.some.injEq, Prod.mk.injEq, and_iff_right rfl]
    refine (writeHeader_resized_iff _ _ _ _ _ _).trans (and_congr_right fun _ => ?_)
    split
    · rename_i divides
      have some := writeFrame_length (List.replicate stream.header.channelCount 0)
        stream.header.channelCount stream.header.sampleWidth List.length_replicate
      rw [← stream.supported.size] at some
      refine iff_of_false (fun empty => ?_) (not_not_intro divides)
      have length := congrArg List.length empty
      exact absurd (some.symm.trans length) (Nat.pos_iff_ne_zero.mp intake.size_positive)
    · rename_i never
      exact iff_of_true rfl never
  have sizes : (intake.sped M half').fasterSize N = intake.fasterSize (M * N) ↔
      ¬ N ∣ stream.header.frameTotal / M + 1 := intake.sped_fasterSize_iff M N half' forward'
  rw [and_comm, ← sizes, ← outputs]
  constructor
  · rintro ⟨faster, run, again⟩
    rw [firstBytes, Option.some.injEq, Prod.mk.injEq] at run
    rwa [← run.2] at again
  · exact fun same => ⟨_, firstBytes, same⟩

/-- The command line `audible -u -f 4 -p`. -/
def fourTimesAsFast : List (List Byte) :=
  [[0x61#8], [0x2d#8, 0x75#8], [0x2d#8, 0x66#8], [0x34#8], [0x2d#8, 0x70#8]]

/-- Of five samples the first and the last are left. -/
theorem speedUp_speedUp_five :
    ∃ faster, recode (validargs twiceAsFast).2 twiceAsFast fiveSamples.bytes = some (true, faster) ∧
      recode (validargs twiceAsFast).2 twiceAsFast faster =
        recode (validargs fourTimesAsFast).2 fourTimesAsFast fiveSamples.bytes :=
  (speedUp_speedUp_iff (Prod.ext (by decide) rfl) (Prod.ext (by decide) rfl)
    (Prod.ext (by decide) rfl) (by decide) (by decide) (by decide) (by decide) (by decide)
    (by decide) (by decide) (by decide) (by decide) fiveSamples fiveSamples_readable
    (by decide)).mpr (by decide)

end Audible.Recoder
