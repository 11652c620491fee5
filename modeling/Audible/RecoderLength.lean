import Audible.RecoderOptions
import Audible.RecoderRoundTrip
import Audible.RecoderStream
import Mathlib.Tactic.Ring

set_option autoImplicit false

/- How many bytes `recode` writes, and when the header it wrote says so. -/
namespace Audible.Recoder

/-- The word of one transformation, with what it records below the mode bit. -/
def ModeWord (mode : Nat) (options : Options) : Prop :=
  ∃ preserve low, Word options mode preserve low

theorem modeBit {mode k : Nat} {options : Options} (word : ModeWord mode options)
    (high : 60 ≤ k) (inside : k < 64) :
    decide (options >>> k &&& 1 ≠ 0) = decide (k = mode) := by
  obtain ⟨preserve, low, word⟩ := word
  exact word.mode_bit high inside

/-- The word of `-c`, whose key has 32 bits. -/
def CryptWord (options : Options) : Prop :=
  ∃ preserve low, Word options 60 preserve low ∧ low < 2 ^ 32

theorem CryptWord.modeWord {options : Options} (word : CryptWord options) : ModeWord 60 options := by
  obtain ⟨preserve, key, word, -⟩ := word
  exact ⟨preserve, key, word⟩

/-- A recorded index is one that the helper accepted. -/
theorem containsValidFrom_accepted (name : List Byte) (helper : List Byte → Bool) (argc : Nat)
    (argv : List (List Byte)) (i : Nat)
    (recorded : containsValidFrom name helper argc argv i ≠ 0) :
    helper (argAt argv (containsValidFrom name helper argc argv i)) = true := by
  induction i with
  | zero => exact absurd rfl recorded
  | succ i ih =>
      unfold containsValidFrom at recorded ⊢
      split at recorded
      · split at recorded
        · split at recorded
          · rename_i named inside accepted
            rwa [if_pos named, if_pos inside, if_pos accepted]
          · exact absurd rfl recorded
        · exact absurd rfl recorded
      · rename_i other
        rw [if_neg other]
        exact ih recorded

theorem validSpeedUsage_accepted (argc : Nat) (argv : List (List Byte))
    (recorded : 1 < validSpeedUsage argc argv) :
    validFactorHelper (argAt argv (validSpeedUsage argc argv)) = true := by
  have preserve := Bool.toNat_le (containsPreserve argc argv)
  have found := containsValidFrom_accepted (flag 0x66#8) validFactorHelper argc argv (argc - 1)
  unfold validSpeedUsage containsValidFactor at recorded ⊢
  grind

theorem validCryptUsage_accepted (argc : Nat) (argv : List (List Byte))
    (recorded : 1 < validCryptUsage argc argv) :
    validKeyHelper (argAt argv (validCryptUsage argc argv)) = true := by
  have preserve := Bool.toNat_le (containsPreserve argc argv)
  have found := containsValidFrom_accepted (flag 0x6b#8) validKeyHelper argc argv (argc - 1)
  unfold validCryptUsage containsValidKey at recorded ⊢
  grind

theorem speedOptions_word {mode argc : Nat} {argv : List (List Byte)} {options : Options}
    (bit : mode = 60 ∨ mode = 61 ∨ mode = 62)
    (accepted : speedOptions mode argc argv = (true, options)) : ModeWord mode options := by
  have head := word_recordPreserve argc argv bit
  have factor := validSpeedUsage_accepted argc argv
  unfold speedOptions at accepted
  dsimp only at accepted
  split at accepted
  · rw [Prod.mk.injEq] at accepted
    rw [← accepted.2]
    split
    · rename_i one
      rw [if_neg (by omega)]
      exact ⟨_, _, head.plain⟩
    · split
      · rename_i many
        exact ⟨_, _, head.factor (factor many)⟩
      · exact ⟨_, _, head⟩
  · cases accepted

/-- An accepted command line asks for help or for one transformation. -/
theorem validargs_word {argv : List (List Byte)} {options : Options}
    (accepted : validargs argv = (true, options)) :
    options = 1#64 <<< 63 ∨ ModeWord 62 options ∨ ModeWord 61 options ∨ CryptWord options := by
  have key := validCryptUsage_accepted argv.length argv
  unfold validargs at accepted
  dsimp only at accepted
  split at accepted
  · cases accepted
  split at accepted
  · cases accepted
    exact .inl rfl
  split at accepted
  · exact .inr (.inl (speedOptions_word (.inr (.inr rfl)) accepted))
  split at accepted
  · exact .inr (.inr (.inl (speedOptions_word (.inr (.inl rfl)) accepted)))
  split at accepted
  · split at accepted
    · have head := word_recordPreserve argv.length argv (.inl rfl)
      rw [Prod.mk.injEq] at accepted
      rw [← accepted.2]
      refine .inr (.inr (.inr ?_))
      split
      · rename_i many
        have number := key many
        exact ⟨_, _, head.key number, (hexStringToInt_value number).2⟩
      · exact ⟨_, _, head, by decide⟩
    · cases accepted
  · cases accepted

/-- A header that passes validation has one of eight frame formats. -/
structure AudioHeader.Supported (header : AudioHeader) : Prop where
  channels : header.channelCount = 1 ∨ header.channelCount = 2
  positive : 0 < header.sampleWidth
  short : header.sampleWidth ≤ 4
  size : (frameSize header).toNat = header.channelCount * header.sampleWidth

theorem supported_of_valid {header : AudioHeader} (valid : validHeader header = true) :
    header.Supported := by
  simp only [validHeader, validEncoding, validChannels, Bool.and_eq_true, decide_eq_true_eq] at valid
  obtain ⟨⟨-, high, low⟩, channels⟩ := valid
  have encoding : header.encoding = 2 ∨ header.encoding = 3 ∨ header.encoding = 4 ∨
      header.encoding = 5 := by
    bv_omega
  rcases channels with channels | channels <;>
    rcases encoding with encoding | encoding | encoding | encoding <;>
    constructor <;>
    simp [AudioHeader.channelCount, AudioHeader.sampleWidth, frameSize, channels, encoding]

@[simp] theorem readFrame_length (channels width : Nat) (input : List Byte) :
    (readFrame channels width input).1.length = channels := by
  induction channels generalizing input with
  | zero => rfl
  | succ channels ih => simp [readFrame, ih]

@[simp] theorem cryptFrame_length (frame : List CInt) (next : BitVec 64) :
    (cryptFrame frame next).1.length = frame.length := by
  induction frame generalizing next with
  | nil => rfl
  | cons sample frame ih => simp [cryptFrame, ih]

theorem Stream.write_length (s : Stream) (header : AudioHeader) (frame : List CInt)
    (size : frame.length = header.channelCount) :
    (s.write header frame).output.length =
      s.output.length + header.channelCount * header.sampleWidth := by
  rw [Stream.write, List.length_append, writeFrame_length _ _ _ size]

theorem crypt_length (header : AudioHeader) (s : Stream) :
    (crypt header s).output.length =
      s.output.length + header.channelCount * header.sampleWidth := by
  rw [crypt, Stream.write_length _ _ _ (by simp)]

theorem speedUp_length (options : Options) (header : AudioHeader) (i : CInt) (s : Stream) :
    (speedUp options header i s).output.length = s.output.length +
      if i.srem (getFactor options) = 0 then header.channelCount * header.sampleWidth else 0 := by
  unfold speedUp
  dsimp only
  split
  · rw [Stream.write_length _ _ _ (by simp)]
  · rfl

theorem insertFrames_length (header : AudioHeader) (S T : List CInt) (N : CInt)
    (sizeS : S.length = header.channelCount) (sizeT : T.length = header.channelCount)
    (remaining : Nat) (k : CInt) (s : Stream) :
    (insertFrames header S T N remaining k s).output.length =
      s.output.length + remaining * (header.channelCount * header.sampleWidth) := by
  induction remaining generalizing k s with
  | zero => simp [insertFrames]
  | succ remaining ih =>
      rw [insertFrames, ih, Stream.write_length _ _ _ (by simp [interpolateFrame, sizeS, sizeT]),
        Nat.succ_mul]
      omega

/-- One round of slowing down writes the frame at hand and, before another one, the frames
interpolated in between; it leaves a whole frame behind. -/
theorem slowDown_length (options : Options) (header : AudioHeader) (i frames : CInt) (s : Stream)
    (size : i ≠ 0 → s.frame.length = header.channelCount) :
    (slowDown options header i frames s).frame.length = header.channelCount ∧
    (slowDown options header i frames s).output.length = s.output.length +
      (1 + if (i + 1).slt frames then ((getFactor options).toInt - 1).toNat else 0) *
        (header.channelCount * header.sampleWidth) := by
  have current : (if i = 0 then { s with
      input := (readFrame header.channelCount header.sampleWidth s.input).2
      frame := (readFrame header.channelCount header.sampleWidth s.input).1 } else s).frame.length =
        header.channelCount := by
    split
    · simp
    · rename_i later
      exact size later
  have output : (if i = 0 then { s with
      input := (readFrame header.channelCount header.sampleWidth s.input).2
      frame := (readFrame header.channelCount header.sampleWidth s.input).1 } else s).output =
        s.output := by
    split <;> rfl
  unfold slowDown
  dsimp only
  split
  · refine ⟨by simp, ?_⟩
    rw [insertFrames_length _ _ _ _ (by exact current) (by simp), Stream.write_length _ _ _ current,
      output, Nat.add_mul, Nat.one_mul]
    omega
  · refine ⟨current, ?_⟩
    rw [Stream.write_length _ _ _ current, output]
    omega

/-- The factor of an option word is `-1` or small and positive. -/
theorem getFactor_range (options : Options) :
    (getFactor options).toInt = -1 ∨
      (1 ≤ (getFactor options).toInt ∧ (getFactor options).toInt ≤ 2048) := by
  unfold getFactor
  split
  · exact .inl (by decide)
  · right
    have low : (options >>> 48 &&& 0x7ff).toNat < 2048 := by
      rw [BitVec.toNat_and]
      exact @Nat.and_lt_two_pow _ _ 11 (by decide)
    have value : (((options >>> 48 &&& 0x7ff) + 1).setWidth 32).toNat =
        (options >>> 48 &&& 0x7ff).toNat + 1 := by
      rw [BitVec.toNat_setWidth, BitVec.toNat_add, show (1 : Options).toNat = 1 from rfl]
      omega
    rw [BitVec.toInt_eq_toNat_of_lt (by omega), value]
    omega

theorem toInt_ofNat_of_lt (n : Nat) (small : n < 2 ^ 31) : (BitVec.ofNat 32 n).toInt = n := by
  have value : (BitVec.ofNat 32 n).toNat = n := by rw [BitVec.toNat_ofNat]; omega
  rw [BitVec.toInt_eq_toNat_of_lt (by omega), value]

theorem ofNat_next (i : Nat) : BitVec.ofNat 32 i + 1 = BitVec.ofNat 32 (i + 1) := by
  rw [BitVec.ofNat_add]
  rfl

theorem crypt_recodeFrames_length (options : Options) (header : AudioHeader) (frames : CInt)
    (word : ModeWord 60 options) (remaining : Nat) (i : CInt) (s : Stream) :
    (recodeFrames options header frames remaining i s).output.length =
      s.output.length + remaining * (header.channelCount * header.sampleWidth) := by
  have speed : isSpeedUp options = false := modeBit word (by omega) (by omega)
  have slow : isSlowDown options = false := modeBit word (by omega) (by omega)
  have mode : isCrypt options = true := modeBit word (by omega) (by omega)
  induction remaining generalizing i s with
  | zero => simp [recodeFrames]
  | succ remaining ih =>
      rw [recodeFrames, ih, recodeFrame, speed, slow, mode, if_neg (by simp), if_neg (by simp),
        if_pos rfl, crypt_length, Nat.succ_mul]
      omega

/-- Of the first `n` frames, those at a multiple of `factor` are kept. -/
def keptFrames (factor n : Nat) : Nat := (n + factor - 1) / factor

theorem keptFrames_succ (factor n : Nat) (positive : 0 < factor) :
    keptFrames factor (n + 1) = keptFrames factor n + if factor ∣ n then 1 else 0 := by
  unfold keptFrames
  rw [show n + 1 + factor - 1 = (n + factor - 1) + 1 by omega, Nat.succ_div,
    show n + factor - 1 + 1 = n + factor by omega]
  simp

/-- The frame at an index that fits an `int` is kept if its index is a multiple of the factor. -/
theorem srem_getFactor_iff (options : Options) (i : Nat) (short : i < 2 ^ 31) :
    (BitVec.ofNat 32 i).srem (getFactor options) = 0 ↔
      (getFactor options).toInt.natAbs ∣ i := by
  rw [← BitVec.toInt_inj, BitVec.toInt_srem, toInt_ofNat_of_lt i short,
    show (0 : CInt).toInt = 0 by decide, ← Int.dvd_iff_tmod_eq_zero,
    ← Int.natAbs_dvd, Int.natCast_dvd_natCast]

theorem speedUp_recodeFrames_length (options : Options) (header : AudioHeader) (frames : CInt)
    (word : ModeWord 62 options) (remaining i : Nat) (short : i + remaining < 2 ^ 31)
    (s : Stream) :
    (recodeFrames options header frames remaining (BitVec.ofNat 32 i) s).output.length +
        keptFrames (getFactor options).toInt.natAbs i *
          (header.channelCount * header.sampleWidth) =
      s.output.length + keptFrames (getFactor options).toInt.natAbs (i + remaining) *
        (header.channelCount * header.sampleWidth) := by
  have mode : isSpeedUp options = true := modeBit word (by omega) (by omega)
  have factor := getFactor_range options
  induction remaining generalizing i s with
  | zero => simp [recodeFrames]
  | succ remaining ih =>
      have kept := srem_getFactor_iff options i (by omega)
      have rest := ih (i + 1) (by omega) (speedUp options header (BitVec.ofNat 32 i) s)
      rw [keptFrames_succ _ _ (by omega), speedUp_length] at rest
      simp only [kept] at rest
      rw [recodeFrames, recodeFrame, mode, if_pos rfl, ofNat_next]
      rw [show i + (remaining + 1) = i + 1 + remaining by omega]
      split at rest <;> simp only [Nat.add_mul, Nat.one_mul, Nat.zero_mul] at rest <;> omega

/-- The frames written when `n` frames are slowed down: all of them, and `factor - 1`
between any two. -/
def slowedFrames (factor : Int) (n : Nat) : Nat := n + (factor - 1).toNat * (n - 1)

/-- The test for another frame. -/
theorem next_slt (i n : Nat) (inside : i + 1 < 2 ^ 31) (short : n < 2 ^ 31) :
    (BitVec.ofNat 32 i + 1).slt (BitVec.ofNat 32 n) = decide (i + 1 < n) := by
  rw [ofNat_next, BitVec.slt_eq_decide, toInt_ofNat_of_lt _ inside, toInt_ofNat_of_lt _ short,
    decide_eq_decide]
  omega

theorem slowDown_recodeFrames_length (options : Options) (header : AudioHeader) (n : Nat)
    (word : ModeWord 61 options) (short : n < 2 ^ 31) (remaining i : Nat)
    (left : i + remaining = n) (s : Stream)
    (size : i ≠ 0 → s.frame.length = header.channelCount) :
    (recodeFrames options header (BitVec.ofNat 32 n) remaining (BitVec.ofNat 32 i) s).output.length =
      s.output.length + slowedFrames (getFactor options).toInt remaining *
        (header.channelCount * header.sampleWidth) := by
  have speed : isSpeedUp options = false := modeBit word (by omega) (by omega)
  have mode : isSlowDown options = true := modeBit word (by omega) (by omega)
  induction remaining generalizing i s with
  | zero => simp [recodeFrames, slowedFrames]
  | succ remaining ih =>
      have start : BitVec.ofNat 32 i ≠ 0 → s.frame.length = header.channelCount := by
        intro later
        apply size
        rintro rfl
        exact later rfl
      have another := next_slt i n (by omega) short
      have round := slowDown_length options header (BitVec.ofNat 32 i) (BitVec.ofNat 32 n) s start
      rw [recodeFrames, recodeFrame, speed, mode, if_neg (by simp), if_pos rfl, ofNat_next,
        ih (i + 1) (by omega) _ (fun _ => round.1), round.2, another]
      cases remaining with
      | zero =>
          rw [if_neg (by simp; omega)]
          simp [slowedFrames]
      | succ remaining =>
          rw [if_pos (by simp; omega)]
          simp only [slowedFrames, Nat.add_sub_cancel]
          ring

end Audible.Recoder
