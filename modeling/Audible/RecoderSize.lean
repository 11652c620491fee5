import Audible.RecoderLength
import Mathlib.Tactic.IntervalCases
import Mathlib.Tactic.Linarith

set_option autoImplicit false

/- When the header that `recode` writes describes the bytes that follow it. -/
namespace Audible.Recoder

/-- A header of 24 bytes, an annotation that ends at its data offset, on a multiple of eight,
and exactly as many bytes of data as its data size. -/
def OutputDescribed (out : List Byte) : Prop :=
  ∃ head notes data : List Byte, out = head ++ notes ++ data ∧ head.length = 24 ∧
    BigEndian.value (headerField out 1) = 24 + notes.length ∧ 8 ∣ notes.length ∧
    BigEndian.value (headerField out 2) = data.length

theorem value_putCharInt (i : CInt) : BigEndian.value (putCharInt i) = i.toNat := by
  rw [putCharInt_eq, BigEndian.value_digits]
  exact Nat.mod_eq_of_lt i.isLt

theorem headerField_writeHeader (header : AudioHeader) (rest : List Byte) :
    headerField (writeHeader header ++ rest) 1 = putCharInt header.dataOffset ∧
      headerField (writeHeader header ++ rest) 2 = putCharInt header.dataSize :=
  ⟨rfl, rfl⟩

theorem outputDescribed_iff (header : AudioHeader) (notes data : List Byte)
    (offset : header.dataOffset.toNat = 24 + notes.length) (aligned : 8 ∣ notes.length) :
    OutputDescribed (writeHeader header ++ notes ++ data) ↔
      header.dataSize.toNat = data.length := by
  have fields := headerField_writeHeader header (notes ++ data)
  rw [← List.append_assoc] at fields
  unfold OutputDescribed
  rw [fields.1, fields.2, value_putCharInt, value_putCharInt, offset]
  constructor
  · rintro ⟨head, notes', data', same, size, atOffset, -, described⟩
    have lengths := congrArg List.length same
    simp only [List.length_append, writeHeader_length, size] at lengths
    omega
  · intro described
    exact ⟨writeHeader header, notes, data, rfl, rfl, rfl, aligned, described⟩

theorem setNewDataSize_eq {options : Options} {header sized : AudioHeader} {size frames : CInt}
    (set : setNewDataSize options header size frames = some sized) :
    sized = { header with dataSize := sized.dataSize } := by
  unfold setNewDataSize at set
  split at set
  · cases set
    rfl
  · split at set
    · split at set
      · cases set
      · cases set
        rfl
    · cases set
      rfl

theorem padToEight_size (remaining k : Nat) : (padToEight remaining k).1 = k + remaining := by
  induction remaining generalizing k with
  | zero => rfl
  | succ remaining ih =>
      rw [padToEight, ih]
      omega

theorem getNewAnnotation_aligned {options : Options} {argv : List (List Byte)}
    {inputNotes : List Byte} {new : Nat × List Write}
    (written : getNewAnnotation options argv inputNotes = some new) : 8 ∣ new.1 := by
  unfold getNewAnnotation at written
  simp only [Option.bind_eq_bind, Option.bind_eq_some_iff, Option.some.injEq, pure] at written
  obtain ⟨args, -, string, -, rfl⟩ := written
  dsimp only
  rw [padToEight_size]
  omega

@[simp] theorem writeAnnotation_length (ap : Nat → Byte) (size : Nat) :
    (List.length <| writeAnnotation ap size) = size := by
  unfold writeAnnotation
  simp

/-- What a successful run has written. -/
theorem recode_output {options : Options} {argv : List (List Byte)} {input out : List Byte}
    (returned : recode options argv input = some (true, out)) :
    ∃ (sized : AudioHeader) (offset : CInt) (notes rest inputNotes : List Byte),
      validHeader (readHeader input).2.1 = true ∧
      readAnnotation ((readHeader input).2.1.dataOffset - 24) (readHeader input).2.2 =
        some (inputNotes, rest) ∧
      setNewDataSize options (readHeader input).2.1 (frameSize (readHeader input).2.1)
        (frameCount (readHeader input).2.1) = some sized ∧
      offset.toNat = 24 + notes.length ∧ 8 ∣ notes.length ∧
      out = writeHeader { sized with dataOffset := offset } ++ notes ++
        recodeData options { sized with dataOffset := offset }
          (frameCount (readHeader input).2.1) rest := by
  have valid : (readHeader input).1 = validHeader (readHeader input).2.1 := rfl
  unfold recode at returned
  dsimp only at returned
  split at returned
  · cases returned
  rename_i accepted
  rw [valid, Bool.not_eq_true', Bool.not_eq_false] at accepted
  split at returned
  · cases returned
  rename_i inputNotes rest read
  have unread := read
  split at returned
  · simp only [Option.bind_eq_bind, Option.bind_eq_some_iff, Option.some.injEq, Prod.mk.injEq,
      true_and, pure] at returned
    obtain ⟨sized, set, rfl⟩ := returned
    have kept := congrArg AudioHeader.dataOffset (setNewDataSize_eq set)
    dsimp only at kept
    unfold readAnnotation at read
    split at read
    · cases read
    · rename_i fits
      rw [not_or, not_not] at fits
      obtain ⟨aligned, short⟩ := fits
      have multiple := congrArg BitVec.toNat aligned
      rw [← kept, BitVec.toNat_umod] at multiple
      unfold annotationMax at short
      refine ⟨sized, sized.dataOffset, _, rest, inputNotes, accepted, unread, set, ?_, ?_, rfl⟩
      · rw [writeAnnotation_length]
        bv_omega
      · rw [writeAnnotation_length]
        exact Nat.dvd_of_mod_eq_zero multiple
  · simp only [Option.bind_eq_bind, Option.bind_eq_some_iff, pure] at returned
    obtain ⟨new, written, returned⟩ := returned
    split at returned
    · cases returned
    split at returned
    · cases returned
    · rename_i fits
      simp only [Option.bind_eq_some_iff, Option.some.injEq, Prod.mk.injEq, true_and] at returned
      obtain ⟨sized, set, rfl⟩ := returned
      unfold annotationMax at fits
      refine ⟨sized, _, _, rest, inputNotes, accepted, unread, set, ?_, ?_, rfl⟩
      · rw [writeAnnotation_length]
        bv_omega
      · rw [writeAnnotation_length]
        exact getNewAnnotation_aligned written

/-- `q` whole frames of `size` bytes according to the header, and what is left over. With `-1`
for a factor `recode` neither drops nor inserts a frame. From `2 ^ 31` frames on the frame
count is negative and no frame is written. -/
def HeaderFits (options : Options) (header : AudioHeader) : Prop :=
  let size : Int := (frameSize header).toNat
  let q : Int := header.dataSize.toNat / size
  let factor : Int := (getFactor options).toInt
  if isSpeedUp options then
    factor ≠ -1 ∧ (q < 2 ^ 31 ∧ ¬ factor ∣ q ∨
      2 ^ 31 ≤ q ∧ factor ≤ 2 ^ 32 - q ∧ 2 ^ 32 - q < 2 * factor)
  else if isSlowDown options then
    if factor = -1 then q < 2 ^ 31 ∧ 2 ^ 32 ∣ 2 * (q - 1) * size
    else if q = 0 then factor = 1
    else if q < 2 ^ 31 then (factor * (q - 1) + 1) * size < 2 ^ 32
    else 2 ^ 32 ∣ factor * (q - 1) + 1
  else q < 2 ^ 31 ∧ size ∣ header.dataSize.toNat

instance (options : Options) (header : AudioHeader) : Decidable (HeaderFits options header) := by
  dsimp only [HeaderFits]
  infer_instance

def rounds (frames : CInt) : Nat := frames.toInt.toNat

theorem rounds_eq (frames : CInt) :
    rounds frames = if frames.toNat < 2 ^ 31 then frames.toNat else 0 := by
  unfold rounds
  rw [BitVec.toInt_eq_toNat_cond]
  have := frames.isLt
  split <;> split <;> omega

theorem frameCount_toNat (header : AudioHeader) :
    (frameCount header).toNat = header.dataSize.toNat / (frameSize header).toNat :=
  BitVec.toNat_udiv

/-- The bytes of data that follow the header. -/
theorem recodeData_length (options : Options) (header : AudioHeader) (frames : CInt)
    (input : List Byte) :
    (ModeWord 60 options → (recodeData options header frames input).length =
      rounds frames * (header.channelCount * header.sampleWidth)) ∧
    (ModeWord 62 options → (recodeData options header frames input).length =
      keptFrames (getFactor options).toInt.natAbs (rounds frames) *
        (header.channelCount * header.sampleWidth)) ∧
    (ModeWord 61 options → (recodeData options header frames input).length =
      slowedFrames (getFactor options).toInt (rounds frames) *
        (header.channelCount * header.sampleWidth)) := by
  have short : rounds frames < 2 ^ 31 := by
    rw [rounds_eq]
    split <;> omega
  have factor := getFactor_range options
  refine ⟨fun word => ?_, fun word => ?_, fun word => ?_⟩
  · have length := crypt_recodeFrames_length options header frames word (rounds frames) 0
      { input := input, output := [], next := mysrand (getKey options), frame := [] }
    simpa [recodeData, rounds] using length
  · have length := speedUp_recodeFrames_length options header frames word (rounds frames) 0
      (by omega) { input := input, output := [], next := mysrand (getKey options), frame := [] }
    have none : keptFrames (getFactor options).toInt.natAbs 0 = 0 := by
      apply Nat.div_eq_of_lt
      omega
    simpa [recodeData, rounds, none] using length
  · by_cases negative : 2 ^ 31 ≤ frames.toNat
    · have zero : rounds frames = 0 := by
        rw [rounds_eq, if_neg (by omega)]
      have zero' : frames.toInt.toNat = 0 := zero
      simp [recodeData, zero, zero', recodeFrames, slowedFrames]
    · have same : BitVec.ofNat 32 (rounds frames) = frames := by
        rw [rounds_eq, if_pos (by omega), BitVec.ofNat_toNat, BitVec.setWidth_eq]
      have length := slowDown_recodeFrames_length options header (rounds frames) word short
        (rounds frames) 0 (by omega)
        { input := input, output := [], next := mysrand (getKey options), frame := [] }
        (fun later => absurd rfl later)
      rw [same] at length
      simpa [recodeData, rounds] using length

/-- An `int` computed modulo `2 ^ 32` is a length below `2 ^ 32` exactly when they agree there. -/
theorem toNat_ofInt_eq_iff (i : Int) (n : Nat) :
    (BitVec.ofInt 32 i).toNat = n ↔ (n : Int) < 2 ^ 32 ∧ (2 ^ 32 : Int) ∣ i - n := by
  rw [BitVec.toNat_ofInt]
  omega

theorem crypt_fits (dataSize size : Nat) :
    dataSize = (if dataSize / size < 2 ^ 31 then dataSize / size else 0) * size ↔
      (dataSize : Int) / size < 2 ^ 31 ∧ (size : Int) ∣ dataSize := by
  rw [← Int.natCast_ediv, Int.natCast_dvd_natCast]
  split
  · rename_i few
    rw [Nat.dvd_iff_div_mul_eq]
    omega
  · rename_i many
    refine ⟨fun none => ?_, fun fits => by omega⟩
    rw [Nat.zero_mul] at none
    rw [none, Nat.zero_div] at many
    omega

theorem slowDown_fits (factor : Int) (dataSize size q : Nat)
    (range : factor = -1 ∨ 1 ≤ factor ∧ factor ≤ 2048) (positive : 1 ≤ size) (small : size ≤ 8)
    (bound : dataSize < 2 ^ 32) (count : q = dataSize / size) :
    (BitVec.ofInt 32 ((q + (factor - 1) * (q - 1)) * size)).toNat =
        slowedFrames factor (if q < 2 ^ 31 then q else 0) * size ↔
      if factor = -1 then (q : Int) < 2 ^ 31 ∧ (2 ^ 32 : Int) ∣ 2 * (q - 1) * size
      else if (q : Int) = 0 then factor = 1
      else if (q : Int) < 2 ^ 31 then (factor * (q - 1) + 1) * size < 2 ^ 32
      else (2 ^ 32 : Int) ∣ factor * (q - 1) + 1 := by
  have whole : q * size ≤ dataSize := count ▸ Nat.div_mul_le_self _ _
  rw [toNat_ofInt_eq_iff]
  unfold slowedFrames
  by_cases few : q < 2 ^ 31
  · rw [if_pos few]
    rcases range with rfl | range
    · have fits : ((q * size : Nat) : Int) < 2 ^ 32 := by omega
      have less : ((q : Int) + (-1 - 1) * (q - 1)) * size - (q * size : Nat) =
          -(2 * (q - 1) * size) := by
        push_cast
        ring
      rw [if_pos rfl, show ((-1 : Int) - 1).toNat = 0 from rfl, Nat.zero_mul, Nat.add_zero, less,
        Int.dvd_neg]
      omega
    · rw [if_neg (by omega)]
      by_cases zero : q = 0
      · subst zero
        have least : (factor - 1) * size ≤ 2047 * 8 := by gcongr <;> omega
        have most : 0 ≤ (factor - 1) * size := by apply mul_nonneg <;> omega
        have none : (factor - 1) * (size : Int) = 0 ↔ factor = 1 := by
          rw [mul_eq_zero]
          omega
        simp only [Int.natCast_zero, if_true, Nat.zero_sub, Nat.mul_zero, Nat.zero_add,
          Nat.zero_mul, Int.sub_zero, ← none]
        rw [show (0 + (factor - 1) * (0 - 1)) * (size : Int) = -((factor - 1) * size) by ring,
          Int.dvd_neg]
        omega
      · have frames : (q + (factor - 1) * (q - 1)) * (size : Int) =
            ((q + (factor - 1).toNat * (q - 1)) * size : Nat) := by
          rw [Int.natCast_mul, Int.natCast_add, Int.natCast_mul, Int.toNat_of_nonneg (by omega),
            Int.natCast_sub (by omega)]
          rfl
        have total : factor * ((q : Int) - 1) + 1 = q + (factor - 1) * (q - 1) := by ring
        rw [if_neg (by omega), if_pos (by omega), total, frames, Int.sub_self]
        simp
  · have one : size = 1 := by
      interval_cases size <;> omega
    subst one
    rw [if_neg few]
    rcases range with rfl | range
    · rw [if_pos rfl]
      omega
    · have total : factor * ((q : Int) - 1) + 1 = q + (factor - 1) * (q - 1) := by ring
      rw [if_neg (by omega), if_neg (by omega), if_neg (by omega), total]
      simp

theorem keptFrames_eq (factor n : Nat) (positive : 0 < factor) :
    keptFrames factor n = n / factor + if factor ∣ n then 0 else 1 := by
  unfold keptFrames
  cases n with
  | zero =>
      rw [Nat.div_eq_of_lt (by omega)]
      simp
  | succ n =>
      rw [show n + 1 + factor - 1 = n + factor by omega, Nat.add_div_right _ positive,
        Nat.succ_div]
      split <;> omega

theorem speedUp_fits (factor frames : Int) (dataSize size q : Nat)
    (range : factor = -1 ∨ 1 ≤ factor ∧ factor ≤ 2048) (positive : 1 ≤ size) (small : size ≤ 8)
    (bound : dataSize < 2 ^ 32) (count : q = dataSize / size)
    (signed : frames = if q < 2 ^ 31 then (q : Int) else q - 2 ^ 32) :
    (BitVec.ofInt 32 ((frames.tdiv factor + 1) * size)).toNat =
        keptFrames factor.natAbs (if q < 2 ^ 31 then q else 0) * size ↔
      factor ≠ -1 ∧ ((q : Int) < 2 ^ 31 ∧ ¬ factor ∣ q ∨
        2 ^ 31 ≤ (q : Int) ∧ factor ≤ 2 ^ 32 - q ∧ 2 ^ 32 - q < 2 * factor) := by
  have whole : q * size ≤ dataSize := count ▸ Nat.div_mul_le_self _ _
  have none : keptFrames factor.natAbs 0 = 0 := by
    apply Nat.div_eq_of_lt
    omega
  rw [toNat_ofInt_eq_iff]
  by_cases few : q < 2 ^ 31
  · rw [if_pos few] at signed ⊢
    subst signed
    rcases range with rfl | range
    · have all : keptFrames (-1 : Int).natAbs q = q := by simp [keptFrames]
      have less : (-(q : Int) + 1) * size - (q * size : Nat) = (1 - 2 * q) * size := by
        push_cast
        ring
      rw [all, Int.tdiv_neg, Int.tdiv_one, less]
      interval_cases size <;> omega
    · obtain ⟨n, rfl⟩ := Int.eq_ofNat_of_zero_le (show 0 ≤ factor by omega)
      have kept := keptFrames_eq n q (by omega)
      have divides : (n : Int) ∣ q ↔ n ∣ q := Int.natCast_dvd_natCast
      rw [Int.natAbs_natCast, Int.tdiv_eq_ediv_of_nonneg (by omega), ← Int.natCast_ediv, divides,
        kept]
      by_cases multiple : n ∣ q
      · have more : (((q / n : Nat) : Int) + 1) * size - ((q / n + 0) * size : Nat) = size := by
          push_cast
          ring
        rw [if_pos multiple, more]
        omega
      · have two : 2 ≤ n := by
          by_contra small
          have : n = 1 := by omega
          exact multiple (this ▸ Nat.one_dvd q)
        have half : q / n ≤ q / 2 := Nat.div_le_div_left two (by omega)
        have frames : (((q / n : Nat) : Int) + 1) * size = ((q / n + 1) * size : Nat) := by
          push_cast
          rfl
        have fits : (q / n + 1) * size < 2 ^ 32 := by
          have most : 2 * (q / n) * size ≤ q * size := Nat.mul_le_mul_right size (by omega)
          rw [Nat.mul_assoc] at most
          rw [Nat.succ_mul]
          omega
        rw [if_neg multiple, frames, Int.sub_self]
        omega
  · have one : size = 1 := by
      interval_cases size <;> omega
    rw [if_neg few] at signed ⊢
    subst one signed
    rw [none]
    have back : (q : Int) - 2 ^ 32 = -((2 ^ 32 - q : Nat) : Int) := by omega
    rcases range with rfl | range
    · rw [Int.tdiv_neg, Int.tdiv_one]
      omega
    · obtain ⟨n, rfl⟩ := Int.eq_ofNat_of_zero_le (show 0 ≤ factor by omega)
      rw [back, Int.neg_tdiv, Int.tdiv_eq_ediv_of_nonneg (by omega), ← Int.natCast_ediv]
      have lower := Nat.div_add_mod (2 ^ 32 - q) n
      have upper := Nat.mod_lt (2 ^ 32 - q) (show n > 0 by omega)
      have most : (2 ^ 32 - q) / n ≤ 2 ^ 32 - q := Nat.div_le_self _ _
      have once : (2 ^ 32 - q) / n = 1 ↔ n ≤ 2 ^ 32 - q ∧ 2 ^ 32 - q < 2 * n := by
        rw [Nat.div_eq_iff (by omega)]
        omega
      generalize (2 ^ 32 - q) / n = t at *
      omega

theorem frameCount_eq (header : AudioHeader) : frameCount header =
    BitVec.ofInt 32 ((header.dataSize.toNat / (frameSize header).toNat : Nat) : Int) := by
  rw [← frameCount_toNat, BitVec.ofInt_natCast, BitVec.ofNat_toNat, BitVec.setWidth_eq]

theorem setNewDataSize_slow {options : Options} {header sized : AudioHeader}
    (word : ModeWord 61 options)
    (set : setNewDataSize options header (frameSize header) (frameCount header) = some sized) :
    sized.dataSize = BitVec.ofInt 32 (((header.dataSize.toNat / (frameSize header).toNat : Nat) +
      ((getFactor options).toInt - 1) *
        ((header.dataSize.toNat / (frameSize header).toNat : Nat) - 1)) *
      (frameSize header).toNat) := by
  have mode : isSlowDown options = true := modeBit word (by omega) (by omega)
  have size : BitVec.ofInt 32 ((frameSize header).toNat : Int) = frameSize header := by
    rw [BitVec.ofInt_natCast, BitVec.ofNat_toNat, BitVec.setWidth_eq]
  have one : BitVec.ofInt 32 (-1) = -1#32 := rfl
  rw [setNewDataSize, mode, if_pos rfl, Option.some.injEq] at set
  rw [← set]
  simp only [BitVec.ofInt_mul, BitVec.ofInt_add, BitVec.sub_eq_add_neg, Int.sub_eq_add_neg,
    BitVec.ofInt_toInt, size, one, ← frameCount_eq]
  rfl

theorem setNewDataSize_speed {options : Options} {header sized : AudioHeader}
    (word : ModeWord 62 options)
    (set : setNewDataSize options header (frameSize header) (frameCount header) = some sized) :
    sized.dataSize = BitVec.ofInt 32 (((frameCount header).toInt.tdiv (getFactor options).toInt + 1) *
      (frameSize header).toNat) := by
  have slow : isSlowDown options = false := modeBit word (by omega) (by omega)
  have mode : isSpeedUp options = true := modeBit word (by omega) (by omega)
  have size : BitVec.ofInt 32 ((frameSize header).toNat : Int) = frameSize header := by
    rw [BitVec.ofInt_natCast, BitVec.ofNat_toNat, BitVec.setWidth_eq]
  have quotient : BitVec.ofInt 32 ((frameCount header).toInt.tdiv (getFactor options).toInt) =
      (frameCount header).sdiv (getFactor options) := by
    apply BitVec.eq_of_toInt_eq
    rw [BitVec.toInt_sdiv, BitVec.toInt_ofInt]
  rw [setNewDataSize, slow, mode, if_neg (by simp), if_pos rfl] at set
  split at set
  · cases set
  · rw [Option.some.injEq] at set
    rw [← set]
    simp only [BitVec.ofInt_mul, BitVec.ofInt_add, size, quotient]
    rfl

/-- The header describes the output exactly when its frames fit: `setNewDataSize` counts one
frame too many for a factor that divides the number of frames, and the factor without `-f`,
a data size that is not whole and 32-bit overflow are not accounted for. -/
theorem recode_describes_iff {argv : List (List Byte)} {options : Options} {input out : List Byte}
    (accepted : validargs argv = (true, options)) (transforms : options &&& 1#64 <<< 63 = 0)
    (returned : recode options argv input = some (true, out)) :
    OutputDescribed out ↔ HeaderFits options (readHeader input).2.1 := by
  obtain ⟨sized, offset, notes, rest, inputNotes, valid, -, set, start, aligned, rfl⟩ :=
    recode_output returned
  have supported := supported_of_valid valid
  have same := setNewDataSize_eq set
  have layout : ({ sized with dataOffset := offset } : AudioHeader).channelCount *
      ({ sized with dataOffset := offset } : AudioHeader).sampleWidth =
        (frameSize (readHeader input).2.1).toNat := by
    rw [same]
    exact supported.size.symm
  have size : 1 ≤ (frameSize (readHeader input).2.1).toNat ∧
      (frameSize (readHeader input).2.1).toNat ≤ 8 := by
    rw [supported.size]
    have positive := supported.positive
    have short := supported.short
    rcases supported.channels with one | two
    · rw [one]
      omega
    · rw [two]
      omega
  have lengths := recodeData_length options { sized with dataOffset := offset }
    (frameCount (readHeader input).2.1) rest
  have bound := (readHeader input).2.1.dataSize.isLt
  have factor := getFactor_range options
  rw [layout, rounds_eq, frameCount_toNat] at lengths
  rw [outputDescribed_iff _ _ _ start aligned]
  unfold HeaderFits
  rcases validargs_word accepted with rfl | word | word | crypt
  · exact absurd transforms (by decide)
  · have speed : isSpeedUp options = true := modeBit word (by omega) (by omega)
    have signed := BitVec.toInt_eq_toNat_cond (frameCount (readHeader input).2.1)
    rw [frameCount_toNat] at signed
    rw [lengths.2.1 word, speed, if_pos rfl, setNewDataSize_speed word set]
    refine speedUp_fits _ _ _ _ _ factor size.1 size.2 bound rfl ?_
    rw [signed]
    split <;> split <;> omega
  · have speed : isSpeedUp options = false := modeBit word (by omega) (by omega)
    have slow : isSlowDown options = true := modeBit word (by omega) (by omega)
    rw [lengths.2.2 word, speed, slow, if_neg Bool.false_ne_true, if_pos rfl, setNewDataSize_slow word set]
    exact slowDown_fits _ _ _ _ factor size.1 size.2 bound rfl
  · have word := crypt.modeWord
    have speed : isSpeedUp options = false := modeBit word (by omega) (by omega)
    have slow : isSlowDown options = false := modeBit word (by omega) (by omega)
    rw [setNewDataSize, slow, speed, if_neg Bool.false_ne_true, if_neg Bool.false_ne_true,
      Option.some.injEq] at set
    rw [lengths.1 word, speed, slow, if_neg Bool.false_ne_true, if_neg Bool.false_ne_true, ← set]
    exact crypt_fits _ _

/-- A mono stream of 8-bit samples with no annotation. -/
def monoStream (data : List Byte) : List Byte :=
  writeHeader { magicNumber := audioMagic, dataOffset := 24, dataSize := BitVec.ofNat 32 data.length
                encoding := 2, sampleRate := 8000, channels := 1 } ++ data

/-- The command line `audible -u -f 2 -p`. -/
def twiceAsFast : List (List Byte) :=
  [[0x61#8], [0x2d#8, 0x75#8], [0x2d#8, 0x66#8], [0x32#8], [0x2d#8, 0x70#8]]

/-- Three frames at factor two: the two that remain are announced. -/
theorem recode_describes_three : OutputDescribed (monoStream [10#8, 30#8]) := by
  have accepted : validargs twiceAsFast = (true, (1#64 <<< 62 ||| 1#64 <<< 59 ||| 1#64 <<< 48)) := by
    decide
  have returned : recode (1#64 <<< 62 ||| 1#64 <<< 59 ||| 1#64 <<< 48) twiceAsFast
      (monoStream [10#8, 20#8, 30#8]) = some (true, monoStream [10#8, 30#8]) := by
    decide
  refine (recode_describes_iff accepted (by decide) returned).mpr ?_
  decide

def HeaderDescribes : Prop :=
  ∀ (argv : List (List Byte)) (options : Options) (input out : List Byte),
    validargs argv = (true, options) → options &&& 1#64 <<< 63 = 0 →
    recode options argv input = some (true, out) → OutputDescribed out

/-- Two frames at factor two: one remains and two are announced. -/
theorem recode_announces_two : ¬ HeaderDescribes := by
  intro describes
  have accepted : validargs twiceAsFast = (true, (1#64 <<< 62 ||| 1#64 <<< 59 ||| 1#64 <<< 48)) := by
    decide
  have returned : recode (1#64 <<< 62 ||| 1#64 <<< 59 ||| 1#64 <<< 48) twiceAsFast
      (monoStream [10#8, 20#8]) =
        some (true, (monoStream [10#8, 20#8]).take 24 ++ [] ++ [10#8]) := by
    decide
  have described := describes _ _ _ _ accepted (by decide) returned
  rw [show (monoStream [10#8, 20#8]).take 24 = writeHeader (readHeader (monoStream [10#8, 20#8])).2.1
    by decide, outputDescribed_iff _ _ _ (by decide) (by decide)] at described
  exact absurd described (by decide)

end Audible.Recoder
