import Audible.RecoderUsage

set_option autoImplicit false

/- What the word of options says about the command line it was made from. -/
namespace Audible.Recoder

/-- A word of options by its parts: the mode bit, the bit of `-p`, and a number below. -/
structure Word (options : Options) (bit : Nat) (preserve : Bool) (low : Nat) : Prop where
  value : options.toNat = 2 ^ bit + preserve.toNat * 2 ^ 59 + low
  mode : bit = 60 ∨ bit = 61 ∨ bit = 62
  small : low < 2 ^ 59

section Fields

variable {options : Options} {bit low : Nat} {preserve : Bool}

theorem bit_set_iff (options : Options) (k : Nat) :
    options >>> k &&& 1 ≠ 0 ↔ options.toNat / 2 ^ k % 2 = 1 := by
  rw [Ne, ← BitVec.toNat_inj, BitVec.toNat_and, BitVec.toNat_ushiftRight,
    Nat.shiftRight_eq_div_pow]
  have one : (1 : Options).toNat = 1 := rfl
  have zero : (0 : Options).toNat = 0 := rfl
  rw [one, zero, Nat.and_one_is_mod]
  omega

/-- Of the bits from 60 on, only that of the mode is set. -/
theorem Word.mode_bit (word : Word options bit preserve low) {k : Nat} (high : 60 ≤ k)
    (inside : k < 64) : decide (options >>> k &&& 1 ≠ 0) = decide (k = bit) := by
  have value := word.value
  have small := word.small
  have flag := preserve.toNat_le
  have bits : k = 60 ∨ k = 61 ∨ k = 62 ∨ k = 63 := by omega
  rw [decide_eq_decide, bit_set_iff]
  rcases bits with rfl | rfl | rfl | rfl <;> rcases word.mode with rfl | rfl | rfl <;> omega

theorem Word.isSpeedUp (word : Word options bit preserve low) :
    isSpeedUp options = decide (bit = 62) := by
  rw [Recoder.isSpeedUp, word.mode_bit (by omega) (by omega), decide_eq_decide]
  exact eq_comm

theorem Word.isSlowDown (word : Word options bit preserve low) :
    isSlowDown options = decide (bit = 61) := by
  rw [Recoder.isSlowDown, word.mode_bit (by omega) (by omega), decide_eq_decide]
  exact eq_comm

theorem Word.isCrypt (word : Word options bit preserve low) :
    isCrypt options = decide (bit = 60) := by
  rw [Recoder.isCrypt, word.mode_bit (by omega) (by omega), decide_eq_decide]
  exact eq_comm

theorem Word.isPreserve (word : Word options bit preserve low) : isPreserve options = preserve := by
  have value := word.value
  have small := word.small
  have flag := preserve.toNat_le
  unfold Recoder.isPreserve
  rw [Bool.eq_iff_iff, decide_eq_true_eq, bit_set_iff, ← Bool.toNat_eq_one]
  rcases word.mode with rfl | rfl | rfl <;> omega

theorem Word.getFactor_none (word : Word options bit preserve low)
    (unset : low / 2 ^ 57 % 2 = 1) : getFactor options = -1 := by
  have value := word.value
  have marked : options >>> 57 &&& 1 = 1 := by
    rw [← BitVec.toNat_inj, BitVec.toNat_and, BitVec.toNat_ushiftRight,
      Nat.shiftRight_eq_div_pow, show (1 : Options).toNat = 1 from rfl, Nat.and_one_is_mod]
    rcases word.mode with rfl | rfl | rfl <;> omega
  unfold getFactor
  rw [if_pos marked]

theorem Word.getFactor (word : Word options bit preserve low) (set : low / 2 ^ 57 % 2 = 0) :
    (getFactor options).toInt = (low / 2 ^ 48 % 2 ^ 11 : Nat) + 1 := by
  have value := word.value
  have unmarked : ¬ options >>> 57 &&& 1 = 1 := by
    rw [← BitVec.toNat_inj, BitVec.toNat_and, BitVec.toNat_ushiftRight,
      Nat.shiftRight_eq_div_pow, show (1 : Options).toNat = 1 from rfl, Nat.and_one_is_mod]
    rcases word.mode with rfl | rfl | rfl <;> omega
  have field : (options >>> 48 &&& 0x7ff).toNat = low / 2 ^ 48 % 2 ^ 11 := by
    rw [BitVec.toNat_and, BitVec.toNat_ushiftRight, Nat.shiftRight_eq_div_pow,
      show (0x7ff : Options).toNat = 2 ^ 11 - 1 from rfl, Nat.and_two_pow_sub_one_eq_mod]
    rcases word.mode with rfl | rfl | rfl <;> omega
  have short : (((options >>> 48 &&& 0x7ff) + 1).setWidth 32).toNat = low / 2 ^ 48 % 2 ^ 11 + 1 := by
    rw [BitVec.toNat_setWidth, BitVec.toNat_add, field, show (1 : Options).toNat = 1 from rfl]
    omega
  unfold Recoder.getFactor
  rw [if_neg unmarked, BitVec.toInt_eq_toNat_of_lt (by omega), short]
  omega

theorem Word.getKey (word : Word options bit preserve low) :
    (getKey options).toNat = low % 2 ^ 32 := by
  have value := word.value
  unfold Recoder.getKey
  rw [BitVec.toNat_setWidth, BitVec.toNat_and, show (0xffffffff : Options).toNat = 2 ^ 32 - 1 from rfl,
    Nat.and_two_pow_sub_one_eq_mod]
  rcases word.mode with rfl | rfl | rfl <;> omega

end Fields

/-- A factor or a key is put below the mode and the bit of `-p`. -/
theorem Word.or {head more : Options} {bit : Nat} {preserve : Bool}
    (word : Word head bit preserve 0) (small : more.toNat < 2 ^ 59) :
    Word (head ||| more) bit preserve more.toNat := by
  have value := word.value
  have aligned : 2 ^ 59 ∣ head.toNat := by
    have flag := preserve.toNat_le
    rcases word.mode with rfl | rfl | rfl <;> omega
  obtain ⟨high, split⟩ := aligned
  refine ⟨?_, word.mode, small⟩
  rw [BitVec.toNat_or, split, ← Nat.two_pow_add_eq_or_of_lt small, ← split, value,
    Nat.add_zero]

theorem word_mode {bit : Nat} (preserve : Bool) (mode : bit = 60 ∨ bit = 61 ∨ bit = 62) :
    Word (if preserve = true then preserveRecord (1#64 <<< bit) else 1#64 <<< bit) bit preserve
      0 := by
  refine ⟨?_, mode, by decide⟩
  rcases mode with rfl | rfl | rfl <;> cases preserve <;> rfl

theorem word_recordPreserve {bit : Nat} (argc : Nat) (argv : List (List Byte))
    (mode : bit = 60 ∨ bit = 61 ∨ bit = 62) :
    Word (recordPreserve argc argv (1#64 <<< bit)) bit (containsPreserve argc argv) 0 :=
  word_mode (containsPreserve argc argv) mode

theorem word_withPreserve {bit : Nat} (args : List (List Byte))
    (mode : bit = 60 ∨ bit = 61 ∨ bit = 62) :
    Word (withPreserve args (1#64 <<< bit)) bit (decide (flag 0x70#8 ∈ args)) 0 := by
  have word := word_mode (decide (flag 0x70#8 ∈ args)) mode
  simp only [decide_eq_true_eq] at word
  exact word

theorem SpeedMode.bit_mode {mode : List Byte} {bit : Nat} (speeds : SpeedMode mode bit) :
    bit = 60 ∨ bit = 61 ∨ bit = 62 := by
  unfold SpeedMode at speeds
  omega

theorem Word.plain {head : Options} {bit : Nat} {preserve : Bool}
    (word : Word head bit preserve 0) : Word (factorRecord0 head) bit preserve (2 ^ 57) :=
  @Word.or head (0x200#64 <<< 48) bit preserve word (by decide)

/-- An accepted factor leaves one less than its value. -/
theorem factorField_toNat {number : List Byte} (valid : validFactorHelper number = true) :
    ((charToInt number - 1).signExtend 64 <<< 48).toNat =
        ((charToInt number).toNat - 1) * 2 ^ 48 ∧
      1 ≤ (charToInt number).toNat ∧ (charToInt number).toNat ≤ 1024 := by
  have value : 1 ≤ (charToInt number).toNat ∧ (charToInt number).toNat ≤ 1024 := by
    have signed := (charToInt number).toInt_eq_toNat_cond
    have below := (charToInt number).isLt
    unfold validFactorHelper at valid
    split at valid
    · cases valid
    · rw [decide_eq_true_eq] at valid
      split at signed <;> omega
  have less : (charToInt number - 1).toNat = (charToInt number).toNat - 1 := by bv_omega
  have positive : (charToInt number - 1).msb = false := by
    rw [BitVec.msb_eq_false_iff_two_mul_lt]
    omega
  refine ⟨?_, value⟩
  rw [BitVec.signExtend_eq_setWidth_of_msb_false positive, BitVec.toNat_shiftLeft,
    BitVec.toNat_setWidth, less, Nat.shiftLeft_eq]
  omega

theorem Word.factor {head : Options} {bit : Nat} {preserve : Bool} {number : List Byte}
    (word : Word head bit preserve 0) (valid : validFactorHelper number = true) :
    Word (factorRecord number head) bit preserve (((charToInt number).toNat - 1) * 2 ^ 48) := by
  have field := factorField_toNat valid
  rw [← field.1]
  apply word.or
  omega

theorem hexToInt_digit (c : Byte) (digit : IsHexDigit c) :
    ((hexToInt c).signExtend 64).toNat = hexDigit c ∧ hexDigit c < 16 := by
  revert c
  decide

/-- At most eight digits fill 32 bits; `m` of them are in the value so far, which comes in
shifted. -/
theorem hexStringToIntFrom_digits (number : List Byte) (value : Nat) (hex : BitVec 64) (m : Nat)
    (shifted : hex.toNat = 16 * value) (bound : value < 16 ^ m)
    (short : m + number.length ≤ 8) (nonempty : number ≠ [])
    (digits : ∀ c ∈ number, IsHexDigit c) :
    (hexStringToIntFrom hex number).toNat = number.foldl hexStep value ∧
      number.foldl hexStep value < 16 ^ (m + number.length) := by
  induction number generalizing value hex m with
  | nil => exact absurd rfl nonempty
  | cons c rest ih =>
      rw [List.length_cons] at short
      obtain ⟨digit, small⟩ := hexToInt_digit c (digits c (by simp))
      have joined : (hex ||| (hexToInt c).signExtend 64).toNat = hexStep value c := by
        rw [BitVec.toNat_or, shifted, digit, show 16 * value = 2 ^ 4 * value by rfl,
          ← Nat.two_pow_add_eq_or_of_lt small, hexStep]
      have grown : hexStep value c < 16 ^ (m + 1) := by
        rw [hexStep, Nat.pow_succ]
        omega
      have limit : 16 ^ (m + 1) ≤ 16 ^ 8 := Nat.pow_le_pow_right (by omega) (by omega)
      rw [hexStringToIntFrom, List.foldl_cons]
      by_cases last : rest = []
      · subst last
        rw [if_neg (not_not_intro rfl)]
        exact ⟨joined, grown⟩
      · have next : ((hex ||| (hexToInt c).signExtend 64) <<< 4).toNat =
            16 * hexStep value c := by
          rw [BitVec.toNat_shiftLeft, joined, Nat.shiftLeft_eq]
          omega
        rw [if_pos last, List.length_cons, show m + (rest.length + 1) = m + 1 + rest.length by omega]
        apply ih (hexStep value c) _ (m + 1) next grown (by omega) last
        exact fun d member => digits d (List.mem_cons_of_mem c member)

theorem hexStringToInt_value {number : List Byte} (valid : validKeyHelper number = true) :
    (hexStringToInt number).toNat = hexValue number ∧ hexValue number < 2 ^ 32 := by
  by_cases empty : number = []
  · subst empty
    exact ⟨rfl, by decide⟩
  · have key := (isKey_iff number).mpr ⟨empty, valid⟩
    have short := key.short
    have read := hexStringToIntFrom_digits number 0 0 0 rfl (by decide) (by omega) empty key.digits
    have limit : 16 ^ (0 + number.length) ≤ 16 ^ 8 := Nat.pow_le_pow_right (by omega) (by omega)
    refine ⟨read.1, ?_⟩
    have := read.2
    unfold hexValue
    omega

theorem Word.key {head : Options} {preserve : Bool} {number : List Byte}
    (word : Word head 60 preserve 0) (valid : validKeyHelper number = true) :
    Word (keyRecord number head) 60 preserve (hexValue number) := by
  obtain ⟨value, small⟩ := hexStringToInt_value valid
  rw [← value] at small ⊢
  apply word.or
  omega

/-- The readers of the word give back what the command line says. A factor only has a value if
it is made of digits. -/
structure Recorded (argv : List (List Byte)) (options : Options) : Prop where
  one : (isSpeedUp options).toNat + (isSlowDown options).toNat + (isCrypt options).toNat = 1
  speedUp : isSpeedUp options = true ↔ argAt argv 1 = flag 0x75#8
  slowDown : isSlowDown options = true ↔ argAt argv 1 = flag 0x64#8
  crypt : isCrypt options = true ↔ argAt argv 1 = flag 0x63#8
  preserve : isPreserve options = true ↔ flag 0x70#8 ∈ argv.tail
  factor : ∀ number, FactorGiven argv number →
    (∀ c ∈ number, IsDigit c) ∧ (getFactor options).toInt = decimalValue number
  key : ∀ number, KeyGiven argv number → (getKey options).toNat = hexValue number

def ModeFlag (mode : List Byte) (bit : Nat) : Prop :=
  SpeedMode mode bit ∨ (mode = flag 0x63#8 ∧ bit = 60)

section Record

variable {program mode : List Byte} {args : List (List Byte)} {bit low : Nat} {options : Options}

theorem recorded_of_word (modes : ModeFlag mode bit)
    (word : Word options bit (decide (flag 0x70#8 ∈ args)) low)
    (factor : ∀ number, FactorGiven (program :: mode :: args) number →
      (∀ c ∈ number, IsDigit c) ∧ (getFactor options).toInt = decimalValue number)
    (key : ∀ number, KeyGiven (program :: mode :: args) number →
      (getKey options).toNat = hexValue number) :
    Recorded (program :: mode :: args) options := by
  have first : argAt (program :: mode :: args) 1 = mode := rfl
  rcases modes with (⟨rfl, rfl⟩ | ⟨rfl, rfl⟩) | ⟨rfl, rfl⟩ <;>
    constructor <;>
    first
    | exact factor
    | exact key
    | rw [word.isSpeedUp, word.isSlowDown, word.isCrypt]; rfl
    | rw [word.isSpeedUp, first]; decide
    | rw [word.isSlowDown, first]; decide
    | rw [word.isCrypt, first]; decide
    | rw [word.isPreserve, decide_eq_true_eq, List.tail_cons, List.mem_cons]; simp [flag]

theorem FactorGiven.cons {number : List Byte}
    (given : FactorGiven (program :: mode :: args) number) :
    (mode = flag 0x75#8 ∨ mode = flag 0x64#8) ∧ WithValue (flag 0x66#8) number args := by
  obtain ⟨_, _, _, line, speeds, given⟩ := given
  cases line
  exact ⟨speeds, given⟩

theorem KeyGiven.cons {number : List Byte} (given : KeyGiven (program :: mode :: args) number) :
    mode = flag 0x63#8 ∧ WithValue (flag 0x6b#8) number args := by
  obtain ⟨_, _, line, given⟩ := given
  cases line
  exact ⟨rfl, given⟩

theorem SpeedMode.not_crypt (speeds : SpeedMode mode bit) : mode ≠ flag 0x63#8 := by
  rcases speeds with ⟨rfl, -⟩ | ⟨rfl, -⟩ <;> decide

/-- The word of a factor gives the factor back if it is at most 512; the bit of 512 means that
there is none. -/
theorem getFactor_iff {number : List Byte} (modes : bit = 60 ∨ bit = 61 ∨ bit = 62)
    (valid : validFactorHelper number = true) (digits : ∀ c ∈ number, IsDigit c) :
    (getFactor (factorRecord number (withPreserve args (1#64 <<< bit)))).toInt =
      decimalValue number ↔ decimalValue number ≤ 512 := by
  have word := (word_withPreserve args modes).factor valid
  obtain ⟨-, positive, bounded⟩ := factorField_toNat valid
  have value : (charToInt number).toNat = decimalValue number % 2 ^ 32 := by
    rw [charToInt_digits number digits, BitVec.toNat_ofNat]
  by_cases large : 512 < (charToInt number).toNat
  · rw [word.getFactor_none (by omega)]
    have none : (-1 : CInt).toInt = -1 := by decide
    rw [none]
    omega
  · rw [word.getFactor (by omega)]
    omega

theorem ModeFlag.isSpeedUp (modes : ModeFlag mode bit)
    (word : Word options bit (decide (flag 0x70#8 ∈ args)) low) :
    isSpeedUp options = decide (mode = flag 0x75#8) := by
  rw [word.isSpeedUp]
  rcases modes with (⟨rfl, rfl⟩ | ⟨rfl, rfl⟩) | ⟨rfl, rfl⟩ <;> decide

theorem ModeFlag.isSlowDown (modes : ModeFlag mode bit)
    (word : Word options bit (decide (flag 0x70#8 ∈ args)) low) :
    isSlowDown options = decide (mode = flag 0x64#8) := by
  rw [word.isSlowDown]
  rcases modes with (⟨rfl, rfl⟩ | ⟨rfl, rfl⟩) | ⟨rfl, rfl⟩ <;> decide

end Record

/-- The word of an accepted command line that asks for a transformation. -/
theorem Accepted.word {program mode : List Byte} {args : List (List Byte)} {options : Options}
    (accepted : Accepted (program :: mode :: args) options) (transforms : mode ≠ flag 0x68#8) :
    ∃ bit low, ModeFlag mode bit ∧ Word options bit (decide (flag 0x70#8 ∈ args)) low := by
  cases accepted with
  | help _ _ line =>
      cases line
      exact absurd rfl transforms
  | plain _ _ _ bit line speeds plain =>
      cases line
      exact ⟨bit, _, .inl speeds, (word_withPreserve args speeds.bit_mode).plain⟩
  | factor _ _ _ bit number line speeds given valid =>
      cases line
      exact ⟨bit, _, .inl speeds, (word_withPreserve args speeds.bit_mode).factor valid⟩
  | crypt _ _ number line given valid =>
      cases line
      exact ⟨60, _, .inr ⟨rfl, rfl⟩, (word_withPreserve args (.inl rfl)).key valid⟩

theorem Accepted.cons {argv : List (List Byte)} {options : Options}
    (accepted : Accepted argv options) :
    ∃ program mode args, argv = program :: mode :: args := by
  cases accepted with
  | help program args line => exact ⟨_, _, _, line⟩
  | plain program mode args bit line => exact ⟨_, _, _, line⟩
  | factor program mode args bit number line => exact ⟨_, _, _, line⟩
  | crypt program args number line => exact ⟨_, _, _, line⟩

/-- The word of an accepted command line records it exactly if a factor, where there is one, is a
number of at most 512. -/
theorem options_recorded_iff (argv : List Argument) (options : Options)
    (accepted : validargs (bytesOf argv) = (true, options))
    (transforms : argAt (bytesOf argv) 1 ≠ flag 0x68#8) :
    Recorded (bytesOf argv) options ↔
      ∀ number, FactorGiven (bytesOf argv) number →
        (∀ c ∈ number, IsDigit c) ∧ decimalValue number ≤ 512 := by
  have line := (validargs_iff _ (bytesOf_noNul argv) options).mp accepted
  generalize bytesOf argv = words at line transforms
  cases line with
  | help program args line =>
      subst line
      exact absurd rfl transforms
  | plain program mode args bit line speeds plain =>
      subst line
      have unasked : ∀ number, ¬ FactorGiven (program :: mode :: args) number :=
        fun number given => given.cons.2.not_plain plain
      apply iff_of_true
      · apply recorded_of_word (.inl speeds) (word_withPreserve args speeds.bit_mode).plain
        · exact fun number given => absurd given (unasked number)
        · exact fun number given => absurd given.cons.1 speeds.not_crypt
      · exact fun number given => absurd given (unasked number)
  | factor program mode args bit number line speeds given valid =>
      subst line
      have asked : FactorGiven (program :: mode :: args) number :=
        ⟨program, mode, args, rfl, speeds.mode, given⟩
      constructor
      · intro recorded other again
        obtain rfl := again.cons.2.unique given
        obtain ⟨digits, value⟩ := recorded.factor other asked
        exact ⟨digits, (getFactor_iff speeds.bit_mode valid digits).mp value⟩
      · intro small
        obtain ⟨digits, bound⟩ := small number asked
        apply recorded_of_word (.inl speeds) ((word_withPreserve args speeds.bit_mode).factor valid)
        · intro other again
          obtain rfl := again.cons.2.unique given
          exact ⟨digits, (getFactor_iff speeds.bit_mode valid digits).mpr bound⟩
        · exact fun number given => absurd given.cons.1 speeds.not_crypt
  | crypt program args number line given valid =>
      subst line
      have word := (word_withPreserve args (.inl rfl)).key valid
      have small := (hexStringToInt_value valid).2
      have unasked : ∀ number, ¬ FactorGiven (program :: flag 0x63#8 :: args) number := by
        intro number given
        rcases given.cons.1 with bad | bad <;> exact absurd bad (by decide)
      apply iff_of_true
      · apply recorded_of_word (.inr ⟨rfl, rfl⟩) word
        · exact fun number given => absurd given (unasked number)
        · intro other again
          obtain rfl := again.cons.2.unique given
          rw [word.getKey, Nat.mod_eq_of_lt small]
      · exact fun number given => absurd given (unasked number)

/-- The command line `audible -d -f 3 -p`. -/
def thriceAsSlow : List Argument :=
  [[97#8, 117#8, 100#8, 105#8, 98#8, 108#8, 101#8], flag 0x64#8, flag 0x66#8, [51#8],
    flag 0x70#8].pmap Argument.mk (by decide)

theorem options_recorded_three :
    Recorded (bytesOf thriceAsSlow) (validargs (bytesOf thriceAsSlow)).2 := by
  have accepted : validargs (bytesOf thriceAsSlow) = (true, (validargs (bytesOf thriceAsSlow)).2) :=
    Prod.ext (by decide) rfl
  refine (options_recorded_iff thriceAsSlow _ accepted (by decide)).mpr fun number given => ?_
  have value : number = [51#8] := given.cons.2.unique (.inr (.inl rfl))
  subst value
  exact ⟨by decide, by decide⟩

/-- The command line `audible -u -f 513`. -/
def fastest : List Argument :=
  [[97#8, 117#8, 100#8, 105#8, 98#8, 108#8, 101#8], flag 0x75#8, flag 0x66#8,
    [53#8, 49#8, 51#8]].pmap Argument.mk (by decide)

/-- 513 is recorded as 512, whose bit means that no factor is given. -/
theorem options_lose_513 :
    ¬ ∀ (argv : List Argument) (options : Options), validargs (bytesOf argv) = (true, options) →
      argAt (bytesOf argv) 1 ≠ flag 0x68#8 → Recorded (bytesOf argv) options := by
  intro records
  have recorded := records fastest (validargs (bytesOf fastest)).2 (Prod.ext (by decide) rfl) (by decide)
  have given : FactorGiven (bytesOf fastest) [53#8, 49#8, 51#8] :=
    ⟨_, _, _, rfl, .inl rfl, .inl rfl⟩
  have read := (recorded.factor _ given).2
  revert read
  decide

end Audible.Recoder
