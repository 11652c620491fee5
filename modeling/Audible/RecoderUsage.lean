import Audible.RecoderArgs

set_option autoImplicit false

/- The command lines of the usage message, and those `validargs` accepts. -/
namespace Audible.Recoder

def IsDigit (c : Byte) : Prop := 48 ≤ c.toNat ∧ c.toNat ≤ 57

instance (c : Byte) : Decidable (IsDigit c) := inferInstanceAs (Decidable (_ ∧ _))

def decimalStep (value : Nat) (c : Byte) : Nat := 10 * value + (c.toNat - 48)

/-- The number a string of decimal digits stands for. -/
def decimalValue (number : List Byte) : Nat := number.foldl decimalStep 0

def IsHexDigit (c : Byte) : Prop :=
  (97 ≤ c.toNat ∧ c.toNat ≤ 102) ∨ (65 ≤ c.toNat ∧ c.toNat ≤ 70) ∨ IsDigit c

instance (c : Byte) : Decidable (IsHexDigit c) := inferInstanceAs (Decidable (_ ∨ _))

def hexDigit (c : Byte) : Nat :=
  if 97 ≤ c.toNat then c.toNat - 87 else if 65 ≤ c.toNat then c.toNat - 55 else c.toNat - 48

def hexStep (value : Nat) (c : Byte) : Nat := 16 * value + hexDigit c

/-- The number a string of hexadecimal digits stands for. -/
def hexValue (number : List Byte) : Nat := number.foldl hexStep 0

/-- FACTOR -/
structure IsFactor (number : List Byte) : Prop where
  nonempty : number ≠ []
  digits : ∀ c ∈ number, IsDigit c
  positive : 1 ≤ decimalValue number
  bounded : decimalValue number ≤ 1024

/-- KEY -/
structure IsKey (number : List Byte) : Prop where
  nonempty : number ≠ []
  digits : ∀ c ∈ number, IsHexDigit c
  short : number.length ≤ 8

/-- `main` is given strings: there is no zero byte in an argument. -/
structure Argument where
  bytes : List Byte
  noNul : 0#8 ∉ bytes

def bytesOf (argv : List Argument) : List (List Byte) := argv.map Argument.bytes

/-- No flag with a value, with or without `-p`. -/
def Plain (args : List (List Byte)) : Prop := args = [] ∨ args = [flag 0x70#8]

/-- A flag with its value, with or without `-p`. -/
def WithValue (name value : List Byte) (args : List (List Byte)) : Prop :=
  args = [name, value] ∨ args = [name, value, flag 0x70#8] ∨ args = [flag 0x70#8, name, value]

/-- The command line asks for a speed-up or a slow-down with this factor. -/
def FactorGiven (argv : List (List Byte)) (number : List Byte) : Prop :=
  ∃ program mode args, argv = program :: mode :: args ∧
    (mode = flag 0x75#8 ∨ mode = flag 0x64#8) ∧ WithValue (flag 0x66#8) number args

def KeyGiven (argv : List (List Byte)) (number : List Byte) : Prop :=
  ∃ program args, argv = program :: flag 0x63#8 :: args ∧ WithValue (flag 0x6b#8) number args

/-- The command lines of the usage message. -/
inductive Usage (argv : List (List Byte)) : Prop
  | help (program : List Byte) (args : List (List Byte))
      (line : argv = program :: flag 0x68#8 :: args)
  | speed (program mode : List Byte) (args : List (List Byte))
      (line : argv = program :: mode :: args) (speeds : mode = flag 0x75#8 ∨ mode = flag 0x64#8)
      (plain : Plain args)
  | factor (number : List Byte) (given : FactorGiven argv number) (factor : IsFactor number)
  | crypt (number : List Byte) (given : KeyGiven argv number) (key : IsKey number)

theorem charAt_zero_iff {string : List Byte} (noNul : 0#8 ∉ string) (i : Nat) :
    charAt string i = 0#8 ↔ string.length ≤ i := by
  unfold charAt
  constructor
  · intro zero
    by_contra inside
    rw [List.getElem?_eq_getElem (by omega), Option.getD_some] at zero
    exact noNul (zero ▸ List.getElem_mem (by omega))
  · intro outside
    rw [List.getElem?_eq_none outside, Option.getD_none]

/-- Three characters are enough to compare with a flag. -/
theorem compareFlags_iff {string : List Byte} (noNul : 0#8 ∉ string) (letter : Byte)
    (nonzero : letter ≠ 0#8) : compareFlags string (flag letter) = true ↔ string = flag letter := by
  have ends := charAt_zero_iff noNul
  match string with
  | [] => simp [compareFlags, charAt, flag]
  | [a] => simp [compareFlags, charAt, flag, nonzero.symm]
  | a :: b :: rest =>
      have last := ends 2
      have terminated : charAt (flag letter) 2 = 0#8 := rfl
      simp only [compareFlags, terminated, last]
      simp [charAt, flag]

theorem compareFlags_eq {string : List Byte} (noNul : 0#8 ∉ string) (letter : Byte)
    (nonzero : letter ≠ 0#8) :
    compareFlags string (flag letter) = decide (string = flag letter) := by
  rw [Bool.eq_iff_iff, decide_eq_true_eq]
  exact compareFlags_iff noNul letter nonzero

theorem containsPreserveFrom_eq (program : List Byte) (args : List (List Byte))
    (noNul : ∀ arg ∈ args, 0#8 ∉ arg) (i : Nat) (inside : i ≤ args.length) :
    containsPreserveFrom (program :: args) i = decide (flag 0x70#8 ∈ args.take i) := by
  induction i with
  | zero => simp [containsPreserveFrom]
  | succ i ih =>
      have here : argAt (program :: args) (i + 1) = args[i] := by
        rw [argAt, List.getElem?_cons_succ, List.getElem?_eq_getElem inside, Option.getD_some]
      rw [containsPreserveFrom, here,
        compareFlags_eq (noNul _ (List.getElem_mem inside)) _ (by decide), ih (by omega),
        List.take_succ_eq_append_getElem inside]
      by_cases preserve : args[i] = flag 0x70#8
      · simp [preserve]
      · simp only [preserve, decide_false, Bool.false_eq_true, ↓reduceIte, List.mem_append,
          List.mem_singleton, Ne.symm preserve, or_false]

theorem containsPreserve_eq (program : List Byte) (args : List (List Byte))
    (noNul : ∀ arg ∈ args, 0#8 ∉ arg) :
    containsPreserve (args.length + 1) (program :: args) = decide (flag 0x70#8 ∈ args) := by
  rw [containsPreserve, Nat.add_sub_cancel,
    containsPreserveFrom_eq program args noNul args.length (Nat.le_refl _), List.take_length]

theorem containsPreserve_mode {mode : List Byte} {args : List (List Byte)} (program : List Byte)
    (noNul : ∀ arg ∈ mode :: args, 0#8 ∉ arg) (other : flag 0x70#8 ≠ mode) :
    containsPreserve (args.length + 2) (program :: mode :: args) =
      decide (flag 0x70#8 ∈ args) := by
  have all := containsPreserve_eq program (mode :: args) noNul
  simpa [other] using all

section Valued

variable {program mode : List Byte} {helper : List Byte → Bool}

/-- With two arguments the flag comes first. -/
theorem containsValidFrom_two {a b : List Byte} (letter : Byte) (nonzero : letter ≠ 0#8)
    (noNul : ∀ arg ∈ [mode, a, b], 0#8 ∉ arg) (other : mode ≠ flag letter)
    (unnamed : helper (flag letter) = false) :
    containsValidFrom (flag letter) helper 4 [program, mode, a, b] 3 =
      if a = flag letter ∧ helper b = true then 3 else 0 := by
  simp only [List.mem_cons, List.not_mem_nil, or_false, forall_eq_or_imp, forall_eq] at noNul
  obtain ⟨first, second, third⟩ := noNul
  simp only [containsValidFrom, argAt, List.getElem?_cons_succ, List.getElem?_cons_zero,
    Option.getD_some, compareFlags_eq first _ nonzero, compareFlags_eq second _ nonzero,
    compareFlags_eq third _ nonzero, decide_eq_true_eq, other]
  by_cases last : b = flag letter
  · simp [last, unnamed]
  · by_cases before : a = flag letter <;> by_cases accepted : helper b = true <;>
      simp [last, before, accepted]

/-- With three the last one that is the flag counts. -/
theorem containsValidFrom_three {a b c : List Byte} (letter : Byte) (nonzero : letter ≠ 0#8)
    (noNul : ∀ arg ∈ [mode, a, b, c], 0#8 ∉ arg) (other : mode ≠ flag letter) :
    containsValidFrom (flag letter) helper 5 [program, mode, a, b, c] 4 =
      if c = flag letter then 0
      else if b = flag letter then if helper c = true then 4 else 0
      else if a = flag letter ∧ helper b = true then 3 else 0 := by
  simp only [List.mem_cons, List.not_mem_nil, or_false, forall_eq_or_imp, forall_eq] at noNul
  obtain ⟨first, second, third, fourth⟩ := noNul
  simp only [containsValidFrom, argAt, List.getElem?_cons_succ, List.getElem?_cons_zero,
    Option.getD_some, compareFlags_eq first _ nonzero, compareFlags_eq second _ nonzero,
    compareFlags_eq third _ nonzero, compareFlags_eq fourth _ nonzero, decide_eq_true_eq, other]
  grind

/-- The index found for a flag with a value: 0 where the arguments are not arranged as such a flag
and an accepted value. -/
def Located (letter : Byte) (helper : List Byte → Bool) (argv args : List (List Byte))
    (index : Nat) : Prop :=
  (index = 0 ∧ ∀ value, WithValue (flag letter) value args → helper value = false) ∨
    (1 < index ∧ WithValue (flag letter) (argAt argv index) args ∧
      helper (argAt argv index) = true)

theorem located_two {a b : List Byte} (letter : Byte) (helper : List Byte → Bool) (nonzero : letter ≠ 0#8)
    (noNul : ∀ arg ∈ [mode, a, b], 0#8 ∉ arg) (other : mode ≠ flag letter)
    (unnamed : helper (flag letter) = false) :
    Located letter helper [program, mode, a, b] [a, b]
      (containsValidFrom (flag letter) helper 4 [program, mode, a, b] 3) := by
  rw [containsValidFrom_two letter nonzero noNul other unnamed]
  split
  · rename_i found
    exact .inr ⟨by decide, .inl (by simp [argAt, found.1]), found.2⟩
  · rename_i missing
    refine .inl ⟨rfl, fun value given => ?_⟩
    rcases given with line | line | line
    · cases line
      simpa using missing
    · cases line
    · cases line

theorem located_three {a b c : List Byte} (program : List Byte) (letter : Byte) (helper : List Byte → Bool)
    (nonzero : letter ≠ 0#8) (distinct : letter ≠ 0x70#8) (noNul : ∀ arg ∈ [mode, a, b, c], 0#8 ∉ arg)
    (other : mode ≠ flag letter) (unnamed : helper (flag letter) = false)
    (unpreserved : helper (flag 0x70#8) = false) :
    Located letter helper [program, mode, a, b, c] [a, b, c]
      (if flag 0x70#8 ∈ [a, b, c] then
        containsValidFrom (flag letter) helper 5 [program, mode, a, b, c] 4 else 0) := by
  have apart : flag 0x70#8 ≠ flag letter := by simpa [flag] using distinct.symm
  rw [containsValidFrom_three letter nonzero noNul other]
  by_cases preserve : flag 0x70#8 ∈ [a, b, c]
  · rw [if_pos preserve]
    by_cases last : c = flag letter
    · rw [if_pos last]
      refine .inl ⟨rfl, fun value given => ?_⟩
      rcases given with line | line | line
      · cases line
      · cases line
        exact absurd last apart
      · cases line
        rw [last]
        exact unnamed
    · rw [if_neg last]
      by_cases middle : b = flag letter
      · rw [if_pos middle]
        split
        · rename_i accepted
          refine .inr ⟨by decide, .inr (.inr ?_), accepted⟩
          have first : flag 0x70#8 = a := by
            have unlike : flag 0x70#8 ≠ c := by
              rintro rfl
              rw [unpreserved] at accepted
              cases accepted
            simpa [unlike, middle, apart] using preserve
          simp [argAt, first, middle]
        · rename_i rejected
          refine .inl ⟨rfl, fun value given => ?_⟩
          rcases given with line | line | line
          · cases line
          · cases line
            exact middle ▸ unnamed
          · cases line
            simpa using rejected
      · rw [if_neg middle]
        split
        · rename_i found
          refine .inr ⟨by decide, .inr (.inl ?_), found.2⟩
          have third : flag 0x70#8 = c := by
            have unlike : flag 0x70#8 ≠ b := by
              rintro rfl
              rw [unpreserved] at found
              cases found.2
            simpa [unlike, found.1, apart] using preserve
          simp [argAt, third, found.1]
        · rename_i missing
          refine .inl ⟨rfl, fun value given => ?_⟩
          rcases given with line | line | line
          · cases line
          · cases line
            simpa using missing
          · cases line
            exact absurd rfl middle
  · rw [if_neg preserve]
    refine .inl ⟨rfl, fun value given => ?_⟩
    rcases given with line | line | line <;> cases line <;> simp at preserve

end Valued

theorem IsDigit.widened {c : Byte} (digit : IsDigit c) :
    c.signExtend 32 - 48 = BitVec.ofNat 32 (c.toNat - 48) := by
  unfold IsDigit at digit
  have positive : c.msb = false := by
    rw [BitVec.msb_eq_false_iff_two_mul_lt]
    omega
  rw [BitVec.signExtend_eq_setWidth_of_msb_false positive]
  bv_omega

/-- The number is read modulo `2 ^ 32`; the value so far comes in multiplied by ten. -/
theorem charToIntFrom_digits (value : Nat) (c : Byte) (rest : List Byte)
    (digits : ∀ d ∈ c :: rest, IsDigit d) :
    charToIntFrom (BitVec.ofNat 32 (10 * value)) (c :: rest) =
      BitVec.ofNat 32 ((c :: rest).foldl decimalStep value) := by
  have digit := (digits c (by simp)).widened
  induction rest generalizing value c with
  | nil =>
      simp only [charToIntFrom, digit, ne_eq, not_true_eq_false, ↓reduceIte, List.foldl_cons,
        List.foldl_nil, decimalStep, ← BitVec.ofNat_add]
  | cons next rest ih =>
      have later : ∀ d ∈ next :: rest, IsDigit d :=
        fun d member => digits d (List.mem_cons_of_mem c member)
      have shifted : (BitVec.ofNat 32 (10 * value) + (c.signExtend 32 - 48)) * 10 =
          BitVec.ofNat 32 (10 * decimalStep value c) := by
        rw [digit, ← BitVec.ofNat_add, decimalStep, Nat.mul_comm 10 (10 * value + _),
          BitVec.ofNat_mul]
        rfl
      rw [charToIntFrom, if_pos (List.cons_ne_nil next rest), shifted,
        ih (decimalStep value c) next later (later next (by simp)).widened]
      rfl

theorem charToInt_digits (number : List Byte) (digits : ∀ c ∈ number, IsDigit c) :
    charToInt number = BitVec.ofNat 32 (decimalValue number) := by
  cases number with
  | nil => rfl
  | cons c rest => exact charToIntFrom_digits 0 c rest digits

theorem numbersOnly_digits (number : List Byte) (digits : ∀ c ∈ number, IsDigit c) :
    numbersOnly number = true := by
  have signed : ∀ c : Byte, IsDigit c → c.toInt ≤ 57 ∧ 0 ≤ c.toInt := by
    unfold IsDigit
    intro c digit
    rw [BitVec.toInt_eq_toNat_of_lt (by omega)]
    omega
  have second : 0 ≤ (charAt number 1).toInt := by
    unfold charAt
    cases found : number[1]? with
    | none => decide
    | some c => exact (signed c (digits c (List.mem_of_getElem? found))).2
  unfold numbersOnly
  rw [List.all_eq_true]
  intro c member
  have := (signed c (digits c member)).1
  rw [decide_eq_true_eq]
  omega

/-- A number of decimal digits passes if its value modulo `2 ^ 32` is in the range. -/
theorem validFactorHelper_digits (number : List Byte) (digits : ∀ c ∈ number, IsDigit c) :
    validFactorHelper number = true ↔
      1 ≤ decimalValue number % 2 ^ 32 ∧ decimalValue number % 2 ^ 32 ≤ 1024 := by
  have value : (charToInt number).toNat = decimalValue number % 2 ^ 32 := by
    rw [charToInt_digits number digits, BitVec.toNat_ofNat]
  have signed := (charToInt number).toInt_eq_toNat_cond
  have below := (charToInt number).isLt
  unfold validFactorHelper
  rw [numbersOnly_digits number digits, Bool.not_true, if_neg Bool.false_ne_true,
    decide_eq_true_eq]
  split at signed <;> omega

theorem IsFactor.accepted {number : List Byte} (factor : IsFactor number) :
    validFactorHelper number = true := by
  have positive := factor.positive
  have bounded := factor.bounded
  rw [validFactorHelper_digits number factor.digits]
  omega

theorem keyDigit_iff (c : Byte) :
    (charBetween c 97 102 || charBetween c 65 70 || charBetween c 48 57) = true ↔
      IsHexDigit c := by
  revert c
  decide +kernel

theorem isKey_iff (number : List Byte) :
    IsKey number ↔ number ≠ [] ∧ validKeyHelper number = true := by
  have digits : (number.all fun digit =>
      charBetween digit 97 102 || charBetween digit 65 70 || charBetween digit 48 57) = true ↔
      ∀ c ∈ number, IsHexDigit c := by
    rw [List.all_eq_true]
    exact forall₂_congr fun c _ => keyDigit_iff c
  unfold validKeyHelper sizeOfString
  constructor
  · intro key
    have short := key.short
    rw [if_neg (by omega), digits]
    exact ⟨key.nonempty, key.digits⟩
  · rintro ⟨nonempty, accepted⟩
    split at accepted
    · cases accepted
    · exact ⟨nonempty, digits.mp accepted, by omega⟩

section Checks

variable {mode : List Byte} {args : List (List Byte)}

theorem located_none {letter : Byte} {helper : List Byte → Bool} {argv : List (List Byte)}
    (other : args.length ≠ 2 ∧ args.length ≠ 3) : Located letter helper argv args 0 := by
  refine .inl ⟨rfl, fun value given => ?_⟩
  rcases given with rfl | rfl | rfl <;> simp at other

theorem validSpeedUsage_located (program : List Byte) (noNul : ∀ arg ∈ mode :: args, 0#8 ∉ arg)
    (speeds : mode = flag 0x75#8 ∨ mode = flag 0x64#8) :
    (validSpeedUsage (args.length + 2) (program :: mode :: args) = 1 ∧ Plain args) ∨
      (¬ Plain args ∧ Located 0x66#8 validFactorHelper (program :: mode :: args) args
        (validSpeedUsage (args.length + 2) (program :: mode :: args))) := by
  have unmatched : mode ≠ flag 0x66#8 := by rcases speeds with rfl | rfl <;> decide
  have unpreserved : flag 0x70#8 ≠ mode := by rcases speeds with rfl | rfl <;> decide
  have preserve := containsPreserve_mode program noNul unpreserved
  unfold validSpeedUsage containsValidFactor
  match args with
  | [] => exact .inl ⟨rfl, .inl rfl⟩
  | [a] =>
      simp only [List.length_cons, List.length_nil, List.mem_cons, List.not_mem_nil,
        or_false] at preserve ⊢
      by_cases plain : flag 0x70#8 = a
      · refine .inl ⟨?_, .inr (by rw [plain])⟩
        simp [preserve, plain]
      · refine .inr ⟨?_, ?_⟩
        · rintro (nil | one)
          · cases nil
          · cases one
            exact plain rfl
        · simpa [preserve, plain] using located_none (by simp)
  | [a, b] =>
      refine .inr ⟨by simp [Plain], ?_⟩
      exact located_two 0x66#8 validFactorHelper (by decide) noNul unmatched (by decide)
  | [a, b, c] =>
      refine .inr ⟨by simp [Plain], ?_⟩
      have located := located_three program 0x66#8 validFactorHelper (by decide)
        (by decide) noNul unmatched (by decide) (by decide)
      by_cases given : flag 0x70#8 ∈ [a, b, c]
      · have preserved : containsPreserve 5 [program, mode, a, b, c] = true :=
          preserve.trans (decide_eq_true given)
        rw [if_pos given] at located
        simpa [preserved] using located
      · have altered : containsPreserve 5 [program, mode, a, b, c] = false :=
          preserve.trans (decide_eq_false given)
        rw [if_neg given] at located
        simpa [altered] using located
  | a :: b :: c :: d :: rest =>
      refine .inr ⟨by simp [Plain], ?_⟩
      rw [if_pos (.inl (by simp only [List.length_cons]; omega))]
      exact located_none (by simp only [List.length_cons]; omega)

theorem validCryptUsage_located (program : List Byte) (noNul : ∀ arg ∈ flag 0x63#8 :: args, 0#8 ∉ arg) :
    Located 0x6b#8 validKeyHelper (program :: flag 0x63#8 :: args) args
      (validCryptUsage (args.length + 2) (program :: flag 0x63#8 :: args)) := by
  have preserve := containsPreserve_mode program noNul (by decide)
  unfold validCryptUsage containsValidKey
  match args with
  | [] => exact located_none (by simp)
  | [a] => exact located_none (by simp)
  | [a, b] => exact located_two 0x6b#8 validKeyHelper (by decide) noNul (by decide) (by decide)
  | [a, b, c] =>
      have located := located_three program 0x6b#8 validKeyHelper (by decide)
        (by decide) noNul (by decide) (by decide) (by decide)
      by_cases given : flag 0x70#8 ∈ [a, b, c]
      · have preserved : containsPreserve 5 [program, flag 0x63#8, a, b, c] = true :=
          preserve.trans (decide_eq_true given)
        rw [if_pos given] at located
        simpa [preserved] using located
      · have altered : containsPreserve 5 [program, flag 0x63#8, a, b, c] = false :=
          preserve.trans (decide_eq_false given)
        rw [if_neg given] at located
        simpa [altered] using located
  | a :: b :: c :: d :: rest =>
      rw [if_pos (.inl (by simp only [List.length_cons]; omega))]
      exact located_none (by simp only [List.length_cons]; omega)

end Checks

def SpeedMode (mode : List Byte) (bit : Nat) : Prop :=
  (mode = flag 0x75#8 ∧ bit = 62) ∨ (mode = flag 0x64#8 ∧ bit = 61)

def withPreserve (args : List (List Byte)) (options : Options) : Options :=
  if flag 0x70#8 ∈ args then preserveRecord options else options

/-- The command lines that are accepted, with their words of options. -/
inductive Accepted (argv : List (List Byte)) : Options → Prop
  | help (program : List Byte) (args : List (List Byte))
      (line : argv = program :: flag 0x68#8 :: args) : Accepted argv (1#64 <<< 63)
  | plain (program mode : List Byte) (args : List (List Byte)) (bit : Nat)
      (line : argv = program :: mode :: args) (speeds : SpeedMode mode bit) (plain : Plain args) :
      Accepted argv (factorRecord0 (withPreserve args (1#64 <<< bit)))
  | factor (program mode : List Byte) (args : List (List Byte)) (bit : Nat) (number : List Byte)
      (line : argv = program :: mode :: args) (speeds : SpeedMode mode bit)
      (given : WithValue (flag 0x66#8) number args) (valid : validFactorHelper number = true) :
      Accepted argv (factorRecord number (withPreserve args (1#64 <<< bit)))
  | crypt (program : List Byte) (args : List (List Byte)) (number : List Byte)
      (line : argv = program :: flag 0x63#8 :: args)
      (given : WithValue (flag 0x6b#8) number args) (valid : validKeyHelper number = true) :
      Accepted argv (keyRecord number (withPreserve args (1#64 <<< 60)))

/-- A flag has one value at most. -/
theorem WithValue.unique {name value other : List Byte} {args : List (List Byte)}
    (given : WithValue name value args) (again : WithValue name other args) : value = other := by
  rcases given with rfl | rfl | rfl <;> rcases again with line | line | line <;> cases line <;> rfl

theorem WithValue.not_plain {name value : List Byte} {args : List (List Byte)}
    (given : WithValue name value args) : ¬ Plain args := by
  rcases given with rfl | rfl | rfl <;> simp [Plain]

theorem recordPreserve_eq {program mode : List Byte} {args : List (List Byte)}
    (noNul : ∀ arg ∈ mode :: args, 0#8 ∉ arg) (other : flag 0x70#8 ≠ mode) (options : Options) :
    recordPreserve (args.length + 2) (program :: mode :: args) options =
      withPreserve args options := by
  unfold recordPreserve withPreserve
  rw [containsPreserve_mode program noNul other]
  simp only [decide_eq_true_eq]

/-- The branch of a speed mode accepts the usage of that mode, with the values its check lets
through. -/
theorem speedOptions_iff {program mode : List Byte} {args : List (List Byte)} {bit : Nat}
    (noNul : ∀ arg ∈ mode :: args, 0#8 ∉ arg) (speeds : SpeedMode mode bit) (options : Options) :
    speedOptions bit (args.length + 2) (program :: mode :: args) = (true, options) ↔
      (Plain args ∧ options = factorRecord0 (withPreserve args (1#64 <<< bit))) ∨
        ∃ number, WithValue (flag 0x66#8) number args ∧ validFactorHelper number = true ∧
          options = factorRecord number (withPreserve args (1#64 <<< bit)) := by
  have either : mode = flag 0x75#8 ∨ mode = flag 0x64#8 := speeds.imp And.left And.left
  have other : flag 0x70#8 ≠ mode := by rcases either with rfl | rfl <;> decide
  unfold speedOptions
  rw [recordPreserve_eq noNul other]
  dsimp only
  have located := validSpeedUsage_located program noNul either
  generalize validSpeedUsage (args.length + 2) (program :: mode :: args) = index at located ⊢
  rcases located with
    ⟨one, plain⟩ | ⟨unlike, ⟨zero, rejected⟩ | ⟨large, given, valid⟩⟩
  · rw [one, if_pos (by decide), if_pos rfl, if_neg (by decide), Prod.mk.injEq]
    constructor
    · rintro ⟨-, rfl⟩
      exact .inl ⟨plain, rfl⟩
    · rintro (⟨-, rfl⟩ | ⟨number, given, -⟩)
      · exact ⟨rfl, rfl⟩
      · exact absurd plain given.not_plain
  · rw [zero, if_neg (by decide), Prod.mk.injEq]
    constructor
    · rintro ⟨never, -⟩
      cases never
    · rintro (⟨plain, -⟩ | ⟨number, given, valid, -⟩)
      · exact absurd plain unlike
      · rw [rejected number given] at valid
        cases valid
  · rw [if_pos (by omega), if_neg (by omega), if_pos large, Prod.mk.injEq]
    constructor
    · rintro ⟨-, rfl⟩
      exact .inr ⟨_, given, valid, rfl⟩
    · rintro (⟨plain, -⟩ | ⟨number, again, -, rfl⟩)
      · exact absurd plain unlike
      · rw [again.unique given]
        exact ⟨rfl, rfl⟩

theorem cryptOptions_iff {program : List Byte} {args : List (List Byte)}
    (noNul : ∀ arg ∈ flag 0x63#8 :: args, 0#8 ∉ arg) (options : Options) :
    (let argv := program :: flag 0x63#8 :: args
      let valid := validCryptUsage (args.length + 2) argv
      (if valid ≠ 0 then
        let options := recordPreserve (args.length + 2) argv (1#64 <<< 60)
        (true, if valid > 1 then keyRecord (argAt argv valid) options else options)
      else (false, 0)) = (true, options)) ↔
      ∃ number, WithValue (flag 0x6b#8) number args ∧ validKeyHelper number = true ∧
        options = keyRecord number (withPreserve args (1#64 <<< 60)) := by
  dsimp only
  rw [recordPreserve_eq noNul (by decide)]
  have located := validCryptUsage_located program noNul
  generalize validCryptUsage (args.length + 2) (program :: flag 0x63#8 :: args) = index
    at located ⊢
  rcases located with ⟨zero, rejected⟩ | ⟨large, given, valid⟩
  · rw [zero, if_neg (by decide), Prod.mk.injEq]
    constructor
    · rintro ⟨never, -⟩
      cases never
    · rintro ⟨number, given, valid, -⟩
      rw [rejected number given] at valid
      cases valid
  · rw [if_pos (by omega), if_pos large, Prod.mk.injEq]
    constructor
    · rintro ⟨-, rfl⟩
      exact ⟨_, given, valid, rfl⟩
    · rintro ⟨number, again, -, rfl⟩
      rw [again.unique given]
      exact ⟨rfl, rfl⟩

theorem accepted_cons_iff {program mode : List Byte} {args : List (List Byte)}
    {options : Options} :
    Accepted (program :: mode :: args) options ↔
      (mode = flag 0x68#8 ∧ options = 1#64 <<< 63) ∨
      (∃ bit, SpeedMode mode bit ∧
        ((Plain args ∧ options = factorRecord0 (withPreserve args (1#64 <<< bit))) ∨
          ∃ number, WithValue (flag 0x66#8) number args ∧ validFactorHelper number = true ∧
            options = factorRecord number (withPreserve args (1#64 <<< bit)))) ∨
      (mode = flag 0x63#8 ∧ ∃ number, WithValue (flag 0x6b#8) number args ∧
        validKeyHelper number = true ∧
        options = keyRecord number (withPreserve args (1#64 <<< 60))) := by
  constructor
  · rintro (⟨_, _, line⟩ | ⟨_, _, _, bit, line, speeds, plain⟩ |
      ⟨_, _, _, bit, number, line, speeds, given, valid⟩ | ⟨_, _, number, line, given, valid⟩)
    · cases line
      exact .inl ⟨rfl, rfl⟩
    · cases line
      exact .inr (.inl ⟨bit, speeds, .inl ⟨plain, rfl⟩⟩)
    · cases line
      exact .inr (.inl ⟨bit, speeds, .inr ⟨number, given, valid, rfl⟩⟩)
    · cases line
      exact .inr (.inr ⟨rfl, number, given, valid, rfl⟩)
  · rintro (⟨rfl, rfl⟩ | ⟨bit, speeds, ⟨plain, rfl⟩ | ⟨number, given, valid, rfl⟩⟩ |
      ⟨rfl, number, given, valid, rfl⟩)
    · exact .help program args rfl
    · exact .plain program mode args bit rfl speeds plain
    · exact .factor program mode args bit number rfl speeds given valid
    · exact .crypt program args number rfl given valid

theorem validargs_iff (argv : List (List Byte)) (noNul : ∀ arg ∈ argv, 0#8 ∉ arg)
    (options : Options) : validargs argv = (true, options) ↔ Accepted argv options := by
  match argv with
  | [] =>
      constructor
      · intro accepted
        cases accepted
      · rintro (⟨_, _, line⟩ | ⟨_, _, _, _, line⟩ | ⟨_, _, _, _, _, line⟩ | ⟨_, _, _, line⟩) <;>
          cases line
  | [program] =>
      constructor
      · intro accepted
        cases accepted
      · rintro (⟨_, _, line⟩ | ⟨_, _, _, _, line⟩ | ⟨_, _, _, _, _, line⟩ | ⟨_, _, _, line⟩) <;>
          cases line
  | program :: mode :: args =>
      have later : ∀ arg ∈ mode :: args, 0#8 ∉ arg := fun arg member =>
        noNul arg (List.mem_cons_of_mem program member)
      have named := fun letter nonzero =>
        compareFlags_eq (later mode (List.mem_cons_self ..)) letter nonzero
      have two : ¬ args.length + 2 ≤ 1 := by omega
      have first : argAt (program :: mode :: args) 1 = mode := rfl
      rw [accepted_cons_iff]
      simp only [validargs, first, List.length_cons, named 0x68#8 (by decide),
        named 0x75#8 (by decide), named 0x64#8 (by decide), named 0x63#8 (by decide),
        decide_eq_true_eq, if_neg two]
      by_cases help : mode = flag 0x68#8
      · subst help
        have slower : ∀ bit, ¬ SpeedMode (flag 0x68#8) bit := by simp [SpeedMode, flag]
        have uncrypted : flag 0x68#8 ≠ flag 0x63#8 := by decide
        rw [if_pos rfl, Prod.mk.injEq]
        simp only [slower, uncrypted, true_and, false_and, exists_false, or_false]
        exact eq_comm
      by_cases speedsUp : mode = flag 0x75#8
      · subst speedsUp
        have speeds : ∀ bit, SpeedMode (flag 0x75#8) bit ↔ bit = 62 := by simp [SpeedMode, flag]
        have uncrypted : flag 0x75#8 ≠ flag 0x63#8 := by decide
        rw [if_neg help, if_pos rfl, speedOptions_iff later ((speeds 62).mpr rfl)]
        simp only [help, uncrypted, speeds, false_and, false_or, or_false, exists_eq_left]
      by_cases slowsDown : mode = flag 0x64#8
      · subst slowsDown
        have speeds : ∀ bit, SpeedMode (flag 0x64#8) bit ↔ bit = 61 := by simp [SpeedMode, flag]
        have uncrypted : flag 0x64#8 ≠ flag 0x63#8 := by decide
        rw [if_neg help, if_neg speedsUp, if_pos rfl, speedOptions_iff later ((speeds 61).mpr rfl)]
        simp only [help, uncrypted, speeds, false_and, false_or, or_false, exists_eq_left]
      have slower : ∀ bit, ¬ SpeedMode mode bit := by
        rintro bit (⟨other, -⟩ | ⟨other, -⟩)
        · exact speedsUp other
        · exact slowsDown other
      rw [if_neg help, if_neg speedsUp, if_neg slowsDown]
      by_cases crypts : mode = flag 0x63#8
      · subst crypts
        rw [if_pos rfl]
        simp only [help, slower, false_and, exists_false, false_or, true_and]
        exact cryptOptions_iff later options
      · rw [if_neg crypts, Prod.mk.injEq]
        simp only [help, slower, crypts, false_and, exists_false, or_false, Bool.false_eq_true]

/-- A factor that passes the check and is no number of the range. -/
def Misread (number : List Byte) : Prop := validFactorHelper number = true ∧ ¬ IsFactor number

/-- Among the numbers of decimal digits these are the ones that wrap into the range. -/
theorem misread_digits {number : List Byte} (digits : ∀ c ∈ number, IsDigit c) :
    Misread number ↔ 1024 < decimalValue number ∧ 1 ≤ decimalValue number % 2 ^ 32 ∧
      decimalValue number % 2 ^ 32 ≤ 1024 := by
  rw [Misread, validFactorHelper_digits number digits]
  constructor
  · rintro ⟨⟨positive, bounded⟩, outside⟩
    refine ⟨?_, positive, bounded⟩
    by_contra small
    refine outside ⟨?_, digits, by omega, by omega⟩
    rintro rfl
    simp [decimalValue] at positive
  · rintro ⟨large, positive, bounded⟩
    exact ⟨⟨positive, bounded⟩, fun factor => by have := factor.bounded; omega⟩

theorem SpeedMode.of_mode {mode : List Byte} (speeds : mode = flag 0x75#8 ∨ mode = flag 0x64#8) :
    ∃ bit, SpeedMode mode bit := by
  rcases speeds with up | down
  · exact ⟨62, .inl ⟨up, rfl⟩⟩
  · exact ⟨61, .inr ⟨down, rfl⟩⟩

theorem SpeedMode.mode {mode : List Byte} {bit : Nat} (speeds : SpeedMode mode bit) :
    mode = flag 0x75#8 ∨ mode = flag 0x64#8 := speeds.imp And.left And.left

theorem FactorGiven.accepted {argv : List (List Byte)} {number : List Byte}
    (given : FactorGiven argv number) (valid : validFactorHelper number = true) :
    ∃ options, Accepted argv options := by
  obtain ⟨program, mode, args, line, speeds, given⟩ := given
  obtain ⟨bit, speeds⟩ := SpeedMode.of_mode speeds
  exact ⟨_, .factor program mode args bit number line speeds given valid⟩

theorem KeyGiven.accepted {argv : List (List Byte)} {number : List Byte}
    (given : KeyGiven argv number) (valid : validKeyHelper number = true) :
    ∃ options, Accepted argv options := by
  obtain ⟨program, args, line, given⟩ := given
  exact ⟨_, .crypt program args number line given valid⟩

theorem Usage.accepted {argv : List (List Byte)} (usage : Usage argv) :
    ∃ options, Accepted argv options := by
  cases usage with
  | help program args line => exact ⟨_, .help program args line⟩
  | speed program mode args line speeds plain =>
      obtain ⟨bit, speeds⟩ := SpeedMode.of_mode speeds
      exact ⟨_, .plain program mode args bit line speeds plain⟩
  | factor number given factor => exact given.accepted factor.accepted
  | crypt number given key => exact given.accepted ((isKey_iff number).mp key).2

/-- Where the check lets no other factor through, and the key is not empty, what is accepted is of
the usage. -/
theorem Accepted.usage {argv : List (List Byte)} {options : Options}
    (accepted : Accepted argv options)
    (read : ∀ number, FactorGiven argv number → ¬ Misread number) (keyed : ¬ KeyGiven argv []) :
    Usage argv := by
  cases accepted with
  | help program args line => exact .help program args line
  | plain program mode args bit line speeds plain =>
      exact .speed program mode args line speeds.mode plain
  | factor program mode args bit number line speeds given valid =>
      have asked : FactorGiven argv number := ⟨program, mode, args, line, speeds.mode, given⟩
      by_contra unusual
      exact read number asked ⟨valid, fun factor => unusual (.factor number asked factor)⟩
  | crypt program args number line given valid =>
      have asked : KeyGiven argv number := ⟨program, args, line, given⟩
      refine .crypt number asked ((isKey_iff number).mpr ⟨?_, valid⟩)
      rintro rfl
      exact keyed asked

/-- A factor or a key of a command line of the usage is one of the usage. -/
theorem Usage.factor_of_given {argv : List (List Byte)} {number : List Byte} (usage : Usage argv)
    (given : FactorGiven argv number) : IsFactor number := by
  obtain ⟨program, mode, args, rfl, speeds, given⟩ := given
  cases usage with
  | help _ _ line =>
      cases line
      rcases speeds with bad | bad <;> exact absurd bad (by decide)
  | speed _ _ _ line _ plain =>
      cases line
      exact absurd plain given.not_plain
  | factor other again factor =>
      obtain ⟨_, _, _, line, -, again⟩ := again
      cases line
      rw [given.unique again]
      exact factor
  | crypt _ again _ =>
      obtain ⟨_, _, line, -⟩ := again
      cases line
      rcases speeds with bad | bad <;> exact absurd bad (by decide)

theorem Usage.key_of_given {argv : List (List Byte)} {number : List Byte} (usage : Usage argv)
    (given : KeyGiven argv number) : IsKey number := by
  obtain ⟨program, args, rfl, given⟩ := given
  cases usage with
  | help _ _ line => cases line
  | speed _ _ _ line speeds _ =>
      cases line
      rcases speeds with bad | bad <;> exact absurd bad (by decide)
  | factor _ again _ =>
      obtain ⟨_, _, _, line, speeds, -⟩ := again
      cases line
      rcases speeds with bad | bad <;> exact absurd bad (by decide)
  | crypt other again key =>
      obtain ⟨_, _, line, again⟩ := again
      cases line
      rw [given.unique again]
      exact key

theorem bytesOf_noNul (argv : List Argument) : ∀ arg ∈ bytesOf argv, 0#8 ∉ arg := by
  intro arg member
  obtain ⟨argument, -, rfl⟩ := List.mem_map.mp member
  exact argument.noNul

theorem validargs_true_iff (argv : List Argument) :
    (validargs (bytesOf argv)).1 = true ↔ ∃ options, Accepted (bytesOf argv) options := by
  constructor
  · intro accepted
    refine ⟨(validargs (bytesOf argv)).2, (validargs_iff _ (bytesOf_noNul argv) _).mp ?_⟩
    exact Prod.ext accepted rfl
  · rintro ⟨options, accepted⟩
    rw [(validargs_iff _ (bytesOf_noNul argv) options).mpr accepted]

/-- `validargs` accepts exactly the usage, but for a factor it misreads and for an empty key. -/
theorem validargs_usage_iff (argv : List Argument) :
    ((validargs (bytesOf argv)).1 = true ↔ Usage (bytesOf argv)) ↔
      (∀ number, FactorGiven (bytesOf argv) number → ¬ Misread number) ∧
        ¬ KeyGiven (bytesOf argv) [] := by
  rw [validargs_true_iff]
  constructor
  · intro exact
    refine ⟨fun number given misread => ?_, fun given => ?_⟩
    · exact misread.2 ((exact.mp (given.accepted misread.1)).factor_of_given given)
    · exact ((exact.mp (given.accepted rfl)).key_of_given given).nonempty rfl
  · rintro ⟨read, keyed⟩
    constructor
    · rintro ⟨options, accepted⟩
      exact accepted.usage read keyed
    · exact Usage.accepted

/-- The command line `audible -u -f 2/`. -/
def slashFactor : List Argument :=
  [[97#8, 117#8, 100#8, 105#8, 98#8, 108#8, 101#8], flag 0x75#8, flag 0x66#8,
    [50#8, 47#8]].pmap Argument.mk (by decide)

/-- `/` is below `'0'`, and `numbersOnly` only looks for characters above `'9'`. -/
theorem validargs_accepts_slash :
    ¬ ∀ argv : List Argument, (validargs (bytesOf argv)).1 = true ↔ Usage (bytesOf argv) := by
  intro usual
  have usage := (usual slashFactor).mp (by decide)
  have given : FactorGiven (bytesOf slashFactor) [50#8, 47#8] :=
    ⟨_, _, _, rfl, .inl rfl, .inl rfl⟩
  have digit := (usage.factor_of_given given).digits 47#8 (by simp)
  revert digit
  decide

end Audible.Recoder
