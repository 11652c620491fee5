import Audible.BigEndian
import Audible.CInt

set_option autoImplicit false

/- Bytes, samples, frames and headers of a Sun audio stream (`audioHelper.c`, `audio.c`).
Standard input is the list of the bytes not read yet; a writer returns the bytes it puts
on standard output, which never fails. -/
namespace Audible.Recoder

/-- `AUDIO_HEADER` -/
structure AudioHeader where
  magicNumber : CInt
  dataOffset : CInt
  dataSize : CInt
  encoding : CInt
  sampleRate : CInt
  channels : CInt
  deriving DecidableEq, Repr

def getchar : List Byte → CInt × List Byte
  | [] => (EOF, [])
  | c :: input => (c.setWidth 32, input)

/-- The loop of `getStdinInt` with `i` bytes still to read. The test is made on the value
accumulated so far, not on the character just read. -/
def getStdinIntFrom (stdin : CInt) : Nat → List Byte → CInt × List Byte
  | 0, input => (stdin, input)
  | i + 1, input =>
      let c := getchar input
      let stdin := stdin ||| c.1
      if stdin = EOF then (0, c.2)
      else getStdinIntFrom (if 1 < i + 1 then stdin <<< 8 else stdin) i c.2

def getStdinInt (i : Nat) (input : List Byte) : CInt × List Byte :=
  getStdinIntFrom 0 i input

/-- The loop of `signExtend`, from byte `k` down. -/
def extendFrom (bytes : Nat) : Nat → CInt → CInt
  | 0, i => i
  | k + 1, i => if bytes < k + 1 then extendFrom bytes k (i ||| 0xff#32 <<< (k * 8)) else i

def signExtend (i : CInt) (bytes : Nat) : CInt :=
  if (i.sshiftRight (8 * (bytes - 1))).sshiftRight 7 ≠ 0 then extendFrom bytes 4 i else i

def putByteInt (i : CInt) : Nat → List Byte
  | 0 => []
  | k + 1 => (i.sshiftRight (8 * k) &&& 0xff#32).setWidth 8 :: putByteInt i k

def putCharInt (i : CInt) : List Byte :=
  [1, 2, 3, 4].map fun k => (i.sshiftRight (32 - 8 * k) &&& 0xff#32).setWidth 8

/-- The samples stored at `fp`; the function itself always returns 1. -/
def readFrame : Nat → Nat → List Byte → List CInt × List Byte
  | 0, _, input => ([], input)
  | channels + 1, bytesPerSample, input =>
      let i := getStdinInt bytesPerSample input
      let rest := readFrame channels bytesPerSample i.2
      (signExtend i.1 bytesPerSample :: rest.1, rest.2)

def writeFrame (fp : List CInt) (channels bytesPerSample : Nat) : List Byte :=
  (fp.take channels).flatMap fun sample => putByteInt sample bytesPerSample

def audioMagic : CInt := 0x2e736e64#32

def validMagicNumber (hp : AudioHeader) : Bool := hp.magicNumber = audioMagic

/-- `sizeof(hp)` is the size of the pointer. -/
def validDataOffset (hp : AudioHeader) : Bool := hp.dataOffset % 8 = 0 ∧ 8 ≤ hp.dataOffset

def validEncoding (hp : AudioHeader) : Bool := hp.encoding ≤ 5 ∧ 2 ≤ hp.encoding

def validChannels (hp : AudioHeader) : Bool := hp.channels = 1 ∨ hp.channels = 2

def validHeader (hp : AudioHeader) : Bool :=
  validMagicNumber hp && validDataOffset hp && validEncoding hp && validChannels hp

/-- The returned flag, the header and the rest of the input. -/
def readHeader (input : List Byte) : Bool × AudioHeader × List Byte :=
  let magicNumber := getStdinInt 4 input
  let dataOffset := getStdinInt 4 magicNumber.2
  let dataSize := getStdinInt 4 dataOffset.2
  let encoding := getStdinInt 4 dataSize.2
  let sampleRate := getStdinInt 4 encoding.2
  let channels := getStdinInt 4 sampleRate.2
  let hp : AudioHeader :=
    { magicNumber := magicNumber.1
      dataOffset := dataOffset.1
      dataSize := dataSize.1
      encoding := encoding.1
      sampleRate := sampleRate.1
      channels := channels.1 }
  (validHeader hp, hp, channels.2)

def writeHeader (hp : AudioHeader) : List Byte :=
  putCharInt hp.magicNumber ++ putCharInt hp.dataOffset ++ putCharInt hp.dataSize ++
    putCharInt hp.encoding ++ putCharInt hp.sampleRate ++ putCharInt hp.channels

@[simp] theorem getchar_cons (c : Byte) (input : List Byte) :
    getchar (c :: input) = (c.setWidth 32, input) := rfl

theorem ofNat_or_byte (n : Nat) (c : Byte) :
    BitVec.ofNat 32 (256 * n) ||| c.setWidth 32 = BitVec.ofNat 32 (256 * n + c.toNat) := by
  have joined : 256 * n + c.toNat = 256 * n ||| c.toNat :=
    Nat.two_pow_add_eq_or_of_lt (i := 8) c.isLt n
  rw [joined, BitVec.ofNat_or, BitVec.ofNat_toNat]

theorem ofNat_shiftLeft_byte (n : Nat) :
    BitVec.ofNat 32 n <<< 8 = BitVec.ofNat 32 (256 * n) := by
  apply BitVec.eq_of_toNat_eq
  simp only [BitVec.toNat_shiftLeft, BitVec.toNat_ofNat, Nat.shiftLeft_eq]
  omega

/-- Nonempty reads: `n` is the number spelled by the bytes read before. -/
theorem getStdinIntFrom_append (bytes rest : List Byte) (c : Byte) (n : Nat)
    (bound : (n + 1) * 256 ^ (bytes.length + 1) ≤ 2 ^ 32) :
    getStdinIntFrom (BitVec.ofNat 32 (256 * n)) (bytes.length + 1) (c :: bytes ++ rest) =
      (if BigEndian.valueFrom n (c :: bytes) = 2 ^ 32 - 1 then 0
        else BitVec.ofNat 32 (BigEndian.valueFrom n (c :: bytes)), rest) := by
  induction bytes generalizing c n with
  | nil =>
      have small : 256 * n + c.toNat < 2 ^ 32 := by
        have := c.isLt
        simp only [List.length_nil, Nat.zero_add, Nat.pow_one] at bound
        omega
      simp only [List.length_nil, List.cons_append, List.nil_append, getStdinIntFrom,
        getchar_cons, ofNat_or_byte, ofNat_eq_EOF_iff _ small, BigEndian.valueFrom_cons,
        BigEndian.valueFrom_nil]
      split <;> simp_all
  | cons d bytes ih =>
      have wide : 2 ^ 16 ≤ 256 ^ (bytes.length + 1 + 1) := by
        calc
          2 ^ 16 = 256 ^ 2 := by decide
          _ ≤ 256 ^ (bytes.length + 1 + 1) := Nat.pow_le_pow_right (by decide) (by omega)
      have small : 256 * n + c.toNat < 2 ^ 32 - 1 := by
        have := c.isLt
        have := Nat.mul_le_mul_left (n + 1) wide
        simp only [List.length_cons] at bound
        omega
      have next : (256 * n + c.toNat + 1) * 256 ^ (bytes.length + 1) ≤ 2 ^ 32 := by
        have := c.isLt
        calc
          (256 * n + c.toNat + 1) * 256 ^ (bytes.length + 1)
              ≤ ((n + 1) * 256) * 256 ^ (bytes.length + 1) :=
            Nat.mul_le_mul_right _ (by omega)
          _ = (n + 1) * 256 ^ (bytes.length + 1 + 1) := by
            rw [Nat.pow_succ 256 (bytes.length + 1), Nat.mul_assoc,
              Nat.mul_comm 256 (256 ^ (bytes.length + 1))]
          _ ≤ 2 ^ 32 := bound
      have notEnd : BitVec.ofNat 32 (256 * n + c.toNat) ≠ EOF := by
        rw [Ne, ofNat_eq_EOF_iff _ (by omega)]
        omega
      rw [List.cons_append, List.cons_append, getStdinIntFrom, getchar_cons, ofNat_or_byte,
        if_neg notEnd, if_pos (by simp), ofNat_shiftLeft_byte, BigEndian.valueFrom_cons]
      exact ih d (256 * n + c.toNat) next

/-- A field of one to four bytes: only four bytes `0xff` are mistaken for the end of input. -/
theorem getStdinInt_append (bytes rest : List Byte) (positive : 0 < bytes.length)
    (short : bytes.length ≤ 4) :
    getStdinInt bytes.length (bytes ++ rest) =
      (if BigEndian.value bytes = 2 ^ 32 - 1 then 0
        else BitVec.ofNat 32 (BigEndian.value bytes), rest) := by
  cases bytes with
  | nil => simp at positive
  | cons c bytes =>
      have bound : (0 + 1) * 256 ^ (bytes.length + 1) ≤ 2 ^ 32 := by
        simpa using Nat.pow_le_pow_right (show 0 < 256 by decide) short
      exact getStdinIntFrom_append bytes rest c 0 bound

theorem signExtend_four (i : CInt) : signExtend i 4 = i := by
  simp [signExtend, extendFrom]

private theorem or_high (v q k : Nat) (low : v < 2 ^ k) :
    BitVec.ofNat 32 v ||| BitVec.ofNat 32 (2 ^ k * q) = BitVec.ofNat 32 (2 ^ k * q + v) := by
  rw [Nat.two_pow_add_eq_or_of_lt low, BitVec.ofNat_or, BitVec.or_comm]

private theorem sign_bit (v s : Nat) (bound : v < 2 ^ 31) :
    ((BitVec.ofNat 32 v).sshiftRight s).sshiftRight 7 = 0 ↔ v / 2 ^ (s + 7) = 0 := by
  have small : v < 2 ^ 32 := by omega
  have positive : (BitVec.ofNat 32 v).msb = false := by
    rw [BitVec.msb_eq_false_iff_two_mul_lt, BitVec.toNat_ofNat]
    omega
  rw [← BitVec.sshiftRight_add, BitVec.sshiftRight_eq_of_msb_false positive, ← BitVec.toNat_inj,
    BitVec.toNat_ushiftRight, BitVec.toNat_ofNat, Nat.mod_eq_of_lt small,
    Nat.shiftRight_eq_div_pow]
  rfl

/-- The bytes set above a field of `bytes` bytes. -/
private theorem extendFrom_four (v bytes : Nat) (positive : 0 < bytes) (short : bytes < 4)
    (bound : v < 256 ^ bytes) :
    extendFrom bytes 4 (BitVec.ofNat 32 v) = BitVec.ofNat 32 (2 ^ 32 - 256 ^ bytes + v) := by
  obtain rfl | rfl | rfl : bytes = 1 ∨ bytes = 2 ∨ bytes = 3 := by omega
  · have high := or_high v 0xffffff 8 (by simpa using bound)
    simpa [extendFrom, BitVec.or_assoc] using high
  · have high := or_high v 0xffff 16 (by simpa using bound)
    simpa [extendFrom, BitVec.or_assoc] using high
  · have high := or_high v 0xff 24 (by simpa using bound)
    simpa [extendFrom, BitVec.or_assoc] using high

private theorem bmod_of_lt (v m : Nat) (bound : v < 2 * m) :
    (v : Int).bmod (2 * m : Nat) = if v < m then (v : Int) else v - 2 * m := by
  rw [Int.bmod_def, Int.emod_eq_of_lt (by omega) (by omega)]
  split <;> split <;> omega

theorem signExtend_narrow (v bytes : Nat) (positive : 0 < bytes) (short : bytes < 4)
    (bound : v < 256 ^ bytes) :
    signExtend (BitVec.ofNat 32 v) bytes = BitVec.ofInt 32 ((v : Int).bmod (256 ^ bytes)) := by
  have half : 256 ^ bytes = 2 * 2 ^ (8 * (bytes - 1) + 7) := by
    rw [show 256 = 2 ^ 8 by decide, ← Nat.pow_mul, ← Nat.pow_succ']
    congr 1
    omega
  have wide : 256 ^ bytes ≤ 2 ^ 24 := by
    calc
      256 ^ bytes ≤ 256 ^ 3 := Nat.pow_le_pow_right (by decide) (by omega)
      _ = 2 ^ 24 := by decide
  have sign := sign_bit v (8 * (bytes - 1)) (by omega)
  have value : (v : Int).bmod (256 ^ bytes) =
      if v < 2 ^ (8 * (bytes - 1) + 7) then (v : Int) else v - (256 ^ bytes : Nat) := by
    rw [half]
    exact_mod_cast bmod_of_lt v _ (half ▸ bound)
  rw [value]
  by_cases low : v < 2 ^ (8 * (bytes - 1) + 7)
  · have clear := sign.mpr (Nat.div_eq_of_lt low)
    rw [signExtend, if_neg (not_not_intro clear), if_pos low, BitVec.ofInt_natCast]
  · have set := mt sign.mp (by rw [Nat.div_eq_zero_iff]; omega)
    rw [signExtend, if_pos set, if_neg low, extendFrom_four v bytes positive short bound]
    apply BitVec.eq_of_toNat_eq
    rw [BitVec.toNat_ofNat, BitVec.toNat_ofInt]
    omega

/-- A sample read from bytes that are not mistaken for the end of input is their
two's-complement value. -/
theorem readSample_append (bytes rest : List Byte) (positive : 0 < bytes.length)
    (short : bytes.length ≤ 4) :
    signExtend (getStdinInt bytes.length (bytes ++ rest)).1 bytes.length =
      if BigEndian.value bytes = 2 ^ 32 - 1 then 0
      else BitVec.ofInt 32 (BigEndian.signedValue bytes) := by
  have bound := BigEndian.value_lt bytes
  rw [getStdinInt_append bytes rest positive short]
  by_cases narrow : bytes.length < 4
  · have wide : 256 ^ bytes.length ≤ 2 ^ 24 := by
      calc
        256 ^ bytes.length ≤ 256 ^ 3 := Nat.pow_le_pow_right (by decide) (by omega)
        _ = 2 ^ 24 := by decide
    have notEnd : BigEndian.value bytes ≠ 2 ^ 32 - 1 := by omega
    rw [if_neg notEnd, if_neg notEnd]
    exact signExtend_narrow _ _ positive narrow bound
  · have full : bytes.length = 4 := by omega
    rw [full, signExtend_four]
    split
    · rfl
    · rw [BigEndian.signedValue, full, ← BitVec.ofInt_natCast]
      apply BitVec.eq_of_toInt_eq
      rw [BitVec.toInt_ofInt, BitVec.toInt_ofInt]
      exact Int.bmod_bmod.symm

theorem putByteInt_eq (i : CInt) (bytes : Nat) (short : bytes ≤ 4) :
    putByteInt i bytes = BigEndian.digits bytes i.toNat := by
  induction bytes with
  | zero => rfl
  | succ k ih =>
      have head : (i.sshiftRight (8 * k) &&& 0xff#32).setWidth 8 =
          BitVec.ofNat 8 (i.toNat / 256 ^ k) := by
        apply BitVec.eq_of_getLsbD_eq
        intro j inside
        have bit : 8 * k + j < 32 := by omega
        have mask : (0xff#32).getLsbD j = true := by
          have : ∀ j : Fin 8, (0xff#32).getLsbD j = true := by decide
          exact this ⟨j, inside⟩
        rw [show 256 ^ k = 2 ^ (8 * k) by rw [Nat.pow_mul]]
        have notAbove : ¬ 32 ≤ j := by omega
        simp only [BitVec.getLsbD_setWidth, BitVec.getLsbD_and, BitVec.getLsbD_sshiftRight,
          BitVec.getLsbD_ofNat, Nat.testBit_div_two_pow, mask, inside, bit, notAbove,
          BitVec.testBit_toNat, Nat.add_comm j]
        simp
      rw [putByteInt, BigEndian.digits, head, ih (by omega)]

@[simp] theorem putByteInt_length (i : CInt) (bytes : Nat) :
    (putByteInt i bytes).length = bytes := by
  induction bytes with
  | zero => rfl
  | succ k ih => simp [putByteInt, ih]

theorem putCharInt_eq (i : CInt) : putCharInt i = BigEndian.digits 4 i.toNat := by
  rw [← putByteInt_eq i 4 (by omega)]
  rfl

/-- What reading the bytes of one sample yields. -/
def decodeSample (field : List Byte) : CInt :=
  if BigEndian.value field = 2 ^ 32 - 1 then 0 else BitVec.ofInt 32 (BigEndian.signedValue field)

theorem readFrame_append (channels width : Nat) (bytes rest : List Byte) (positive : 0 < width)
    (short : width ≤ 4) (whole : bytes.length = channels * width) :
    readFrame channels width (bytes ++ rest) =
      ((BigEndian.fields width channels bytes).map decodeSample, rest) := by
  induction channels generalizing bytes with
  | zero => simp_all [readFrame, BigEndian.fields]
  | succ channels ih =>
      have size : bytes.length = channels * width + width := by rw [whole, Nat.succ_mul]
      have front : (bytes.take width).length = width := by rw [List.length_take]; omega
      have tail : (bytes.drop width).length = channels * width := by
        rw [List.length_drop]
        omega
      have split : bytes ++ rest = bytes.take width ++ (bytes.drop width ++ rest) := by
        rw [← List.append_assoc, List.take_append_drop]
      have sample := readSample_append (bytes.take width) (bytes.drop width ++ rest)
        (by omega) (by omega)
      have unread := congrArg Prod.snd (getStdinInt_append (bytes.take width)
        (bytes.drop width ++ rest) (by omega) (by omega))
      rw [front] at sample unread
      rw [readFrame, split, sample, unread, ih _ tail, BigEndian.fields, List.map_cons]
      rfl

/-- Only the width of a value is written, so a sample comes back as its own bytes. -/
theorem digits_signedValue (field : List Byte) (short : field.length ≤ 4) :
    BigEndian.digits field.length (BitVec.ofInt 32 (BigEndian.signedValue field)).toNat = field := by
  have divides : (256 : Int) ^ field.length ∣ 2 ^ 32 := by
    have : (256 : Int) ^ field.length ∣ 256 ^ 4 := pow_dvd_pow 256 short
    simpa using this
  have low : ((BitVec.ofInt 32 (BigEndian.signedValue field)).toNat : Int) % 256 ^ field.length =
      (BigEndian.value field : Int) := by
    rw [BitVec.toNat_ofInt, Int.toNat_of_nonneg (Int.emod_nonneg _ (by decide))]
    rw [show ((2 ^ 32 : Nat) : Int) = 2 ^ 32 by decide, Int.emod_emod_of_dvd _ divides,
      BigEndian.signedValue, show (256 : Int) ^ field.length = (256 ^ field.length : Nat) by simp,
      Int.bmod_emod]
    exact_mod_cast Nat.mod_eq_of_lt (BigEndian.value_lt field)
  rw [← BigEndian.digits_mod, show (BitVec.ofInt 32 (BigEndian.signedValue field)).toNat %
    256 ^ field.length = BigEndian.value field by exact_mod_cast low, BigEndian.digits_value]

theorem eq_ones_of_value {field : List Byte} (short : field.length ≤ 4)
    (ones : BigEndian.value field = 2 ^ 32 - 1) : field = List.replicate 4 255#8 := by
  have full : field.length = 4 := by
    by_contra narrow
    have bound := BigEndian.value_lt field
    have wide : 256 ^ field.length ≤ 256 ^ 3 := Nat.pow_le_pow_right (by decide) (by omega)
    omega
  exact BigEndian.value_injective (by simp [full]) (ones.trans (by decide))

/-- A sample is written back as it was read, unless it was taken for the end of input. -/
theorem putByteInt_decodeSample (field : List Byte) (short : field.length ≤ 4) :
    putByteInt (decodeSample field) field.length = field ↔
      field ≠ List.replicate 4 255#8 := by
  rw [putByteInt_eq _ _ short, decodeSample]
  by_cases ones : BigEndian.value field = 2 ^ 32 - 1
  · have same := eq_ones_of_value short ones
    subst same
    decide
  · rw [if_neg ones, digits_signedValue field short]
    refine ⟨fun _ same => ones ?_, fun _ => rfl⟩
    rw [same]
    decide

theorem toInt_decodeSample (field : List Byte) (short : field.length ≤ 4)
    (notOnes : field ≠ List.replicate 4 255#8) :
    (decodeSample field).toInt = BigEndian.signedValue field := by
  have ones : BigEndian.value field ≠ 2 ^ 32 - 1 := mt (eq_ones_of_value short) notOnes
  have fits : (256 : Nat) ^ field.length ≤ 2 ^ 32 := by
    simpa using Nat.pow_le_pow_right (show 0 < 256 by decide) short
  have positive : 0 < 256 ^ field.length := Nat.pow_pos (by decide)
  have lower := Int.le_bmod (x := (BigEndian.value field : Int)) positive
  have upper := Int.bmod_lt (x := (BigEndian.value field : Int)) positive
  rw [decodeSample, if_neg ones, BitVec.toInt_ofInt, BigEndian.signedValue]
  exact Int.bmod_eq_of_le (by omega) (by omega)

/-- Every sample that fits its width is read back as written, except `-1` in four bytes. -/
theorem decodeSample_putByteInt (sample : CInt) (width : Nat) (positive : 0 < width)
    (short : width ≤ 4) (lower : -((256 ^ width : Nat) : Int) ≤ 2 * sample.toInt)
    (upper : 2 * sample.toInt < ((256 ^ width : Nat) : Int)) :
    decodeSample (putByteInt sample width) = sample ↔ ¬ (width = 4 ∧ sample = EOF) := by
  have length := BigEndian.digits_length width sample.toNat
  rw [putByteInt_eq _ _ short]
  by_cases ones : BigEndian.digits width sample.toNat = List.replicate 4 255#8
  · have full : width = 4 := by simpa [ones] using length.symm
    subst full
    have top : sample.toNat = 2 ^ 32 - 1 := by
      have spelled := BigEndian.value_digits 4 sample.toNat
      rw [ones, Nat.mod_eq_of_lt (by simpa using sample.isLt)] at spelled
      exact spelled.symm.trans (by decide)
    have same : sample = EOF := BitVec.eq_of_toNat_eq top
    subst same
    decide
  · have value := toInt_decodeSample (BigEndian.digits width sample.toNat) (by omega) ones
    have read : (decodeSample (BigEndian.digits width sample.toNat)).toInt = sample.toInt := by
      have wide : (256 ^ width : Nat) = 2 * 2 ^ (8 * width - 1) := by
        rw [show 256 = 2 ^ 8 by decide, ← Nat.pow_mul, ← Nat.pow_succ']
        congr 1
        omega
      have divides : ((256 ^ width : Nat) : Int) ∣ ((2 ^ 32 : Nat) : Int) := by
        have : (256 : Nat) ^ width ∣ 256 ^ 4 := pow_dvd_pow 256 short
        exact_mod_cast this
      have congruent : (sample.toNat : Int) % (256 ^ width : Nat) =
          sample.toInt % (256 ^ width : Nat) := by
        rw [← Int.emod_emod_of_dvd sample.toInt divides, BitVec.toInt_eq_toNat_bmod,
          Int.bmod_emod, Int.emod_emod_of_dvd _ divides]
      have self : sample.toInt.bmod (256 ^ width) = sample.toInt :=
        Int.bmod_eq_of_le (by omega) (by omega)
      rw [value, BigEndian.signedValue, BigEndian.value_digits, length, Int.natCast_emod,
        congruent, Int.emod_bmod, self]
    refine ⟨fun _ minusOne => ones ?_, fun _ => BitVec.eq_of_toInt_eq read⟩
    rw [minusOne.1, minusOne.2]
    decide

end Audible.Recoder
