import Audible.CInt

set_option autoImplicit false

/- Command-line validation and the option word (`argValidation.c`, `validargs` and the
readers of `global_options`). An argument is the list of its bytes before the terminator;
`char` is signed. -/
namespace Audible.Recoder

abbrev Options := BitVec 64

/-- The byte at index `i` of a C string; the one after the last is the terminator. -/
def charAt (string : List Byte) (i : Nat) : Byte := string[i]?.getD 0#8

def argAt (argv : List (List Byte)) (i : Nat) : List Byte := argv[i]?.getD []

/-- The flag `-` followed by the given letter. -/
def flag (letter : Byte) : List Byte := [0x2d#8, letter]

def compareFlags (flag1 flag2 : List Byte) : Bool :=
  if charAt flag1 0 = charAt flag2 0 then
    if charAt flag1 1 = charAt flag2 1 then charAt flag1 2 = charAt flag2 2 else false
  else false

def sizeOfString (string : List Byte) : Nat := string.length

/-- The loop of `containsPreserve`, from index `i` down to 1. -/
def containsPreserveFrom (argv : List (List Byte)) : Nat → Bool
  | 0 => false
  | i + 1 =>
      if compareFlags (argAt argv (i + 1)) (flag 0x70#8) then true
      else containsPreserveFrom argv i

def containsPreserve (argc : Nat) (argv : List (List Byte)) : Bool :=
  containsPreserveFrom argv (argc - 1)

/-- The loop `containsValidKey` and `containsValidFactor` share: the last argument equal to
`name` must be followed by one that `helper` accepts, whose index is returned. -/
def containsValidFrom (name : List Byte) (helper : List Byte → Bool) (argc : Nat)
    (argv : List (List Byte)) : Nat → Nat
  | 0 => 0
  | i + 1 =>
      if compareFlags (argAt argv (i + 1)) name then
        if i + 1 < argc - 1 then
          if helper (argAt argv (i + 2)) then i + 2 else 0
        else 0
      else containsValidFrom name helper argc argv i

def charBetween (c : Byte) (low high : Int) : Bool := low ≤ c.toInt ∧ c.toInt ≤ high

def validKeyHelper (key : List Byte) : Bool :=
  if sizeOfString key > 8 then false
  else key.all fun digit =>
    charBetween digit 97 102 || charBetween digit 65 70 || charBetween digit 48 57

def containsValidKey (argc : Nat) (argv : List (List Byte)) : Nat :=
  containsValidFrom (flag 0x6b#8) validKeyHelper argc argv (argc - 1)

/-- The loop of `charToInt`: every character but the last is followed by a multiplication. -/
def charToIntFrom (value : CInt) : List Byte → CInt
  | [] => value
  | c :: rest =>
      let value := value + (c.signExtend 32 - 48)
      charToIntFrom (if rest ≠ [] then value * 10 else value) rest

def charToInt (c : List Byte) : CInt := charToIntFrom 0 c

/-- Rejects characters above `'9'`; the second comparison always looks at index 1. -/
def numbersOnly (start : List Byte) : Bool :=
  start.all fun c => ¬ (57 < c.toInt ∨ (charAt start 1).toInt < 0)

def validFactorHelper (factor : List Byte) : Bool :=
  if !numbersOnly factor then false
  else 0 < (charToInt factor).toInt ∧ (charToInt factor).toInt ≤ 1024

def containsValidFactor (argc : Nat) (argv : List (List Byte)) : Nat :=
  containsValidFrom (flag 0x66#8) validFactorHelper argc argv (argc - 1)

def validSpeedUsage (argc : Nat) (argv : List (List Byte)) : Nat :=
  if argc > 5 ∨ argc < 2 then 0
  else
    let valid := if argc = 3 ∨ argc = 5 then (containsPreserve argc argv).toNat else 1
    if argc = 4 ∨ argc = 5 then
      if valid ≠ 0 then containsValidFactor argc argv else valid
    else valid

def validCryptUsage (argc : Nat) (argv : List (List Byte)) : Nat :=
  if argc > 5 ∨ argc ≤ 3 then 0
  else
    let valid := if argc = 5 then (containsPreserve argc argv).toNat else 1
    if argc = 4 ∨ argc = 5 then
      if valid ≠ 0 then containsValidKey argc argv else valid
    else valid

def preserveRecord (options : Options) : Options := options ||| 1#64 <<< 59

/-- The `int` is widened with its sign before it is shifted. -/
def factorRecord (start : List Byte) (options : Options) : Options :=
  options ||| (charToInt start - 1).signExtend 64 <<< 48

def factorRecord0 (options : Options) : Options := options ||| 0x200#64 <<< 48

def hexToInt (hex : Byte) : CInt :=
  if charBetween hex 48 57 then hex.signExtend 32 - 48
  else if charBetween hex 97 102 then hex.signExtend 32 - 97 + 10
  else if charBetween hex 65 70 then hex.signExtend 32 - 65 + 10
  else -1

/-- The loop of `hexStringToInt`: every digit but the last is followed by a shift. -/
def hexStringToIntFrom (hex : BitVec 64) : List Byte → BitVec 64
  | [] => hex
  | c :: rest =>
      let hex := hex ||| (hexToInt c).signExtend 64
      hexStringToIntFrom (if rest ≠ [] then hex <<< 4 else hex) rest

def hexStringToInt (string : List Byte) : BitVec 64 := hexStringToIntFrom 0 string

def keyRecord (start : List Byte) (options : Options) : Options :=
  options ||| hexStringToInt start

def recordPreserve (argc : Nat) (argv : List (List Byte)) (options : Options) : Options :=
  if containsPreserve argc argv then preserveRecord options else options

/-- The branch of `validargs` that `-u` and `-d` have in common, with the mode bit. -/
def speedOptions (mode : Nat) (argc : Nat) (argv : List (List Byte)) : Bool × Options :=
  let valid := validSpeedUsage argc argv
  if valid ≠ 0 then
    let options := recordPreserve argc argv (1#64 <<< mode)
    let options := if valid > 1 then factorRecord (argAt argv valid) options else options
    let options := if valid = 1 then factorRecord0 options else options
    (true, options)
  else (false, 0)

/-- The returned flag and `global_options`. -/
def validargs (argv : List (List Byte)) : Bool × Options :=
  let argc := argv.length
  if argc ≤ 1 then (false, 0)
  else if compareFlags (argAt argv 1) (flag 0x68#8) then (true, 1#64 <<< 63)
  else if compareFlags (argAt argv 1) (flag 0x75#8) then speedOptions 62 argc argv
  else if compareFlags (argAt argv 1) (flag 0x64#8) then speedOptions 61 argc argv
  else if compareFlags (argAt argv 1) (flag 0x63#8) then
    let valid := validCryptUsage argc argv
    if valid ≠ 0 then
      let options := recordPreserve argc argv (1#64 <<< 60)
      (true, if valid > 1 then keyRecord (argAt argv valid) options else options)
    else (false, 0)
  else (false, 0)

def isSpeedUp (options : Options) : Bool := options >>> 62 &&& 1 ≠ 0

def isSlowDown (options : Options) : Bool := options >>> 61 &&& 1 ≠ 0

def isCrypt (options : Options) : Bool := options >>> 60 &&& 1 ≠ 0

def isPreserve (options : Options) : Bool := options >>> 59 &&& 1 ≠ 0

def getFactor (options : Options) : CInt :=
  if options >>> 57 &&& 1 = 1 then -1
  else ((options >>> 48 &&& 0x7ff) + 1).setWidth 32

def getKey (options : Options) : CInt := (options &&& 0xffffffff).setWidth 32

end Audible.Recoder
