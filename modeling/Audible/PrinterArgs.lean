import Audible.PrinterFiles

set_option autoImplicit false

/- The argument vector of a conversion program (`getConversionArgs` of `conversions.c`): what it
holds, and which stores into it lie inside its block. -/
namespace Audible.Imprimer

variable {text token rest : Text} {conversion : Conversion}

/-- A pointer of an argument vector, by the string it points to. -/
inductive Argument
  | undefined
  | null
  | text (string : Text)
  deriving DecidableEq

/-- A store into the vector: its index, and the bytes the vector had then. -/
structure Store where
  index : Nat
  bytes : Nat
  deriving DecidableEq

/-- `char **`, with the bytes most recently allocated for it. Stores behind the block are kept:
nothing else is modelled there. -/
structure ArgumentVector where
  bytes : Nat
  slot : Nat → Argument
  stores : List Store

def pointerSize : Nat := 8

/-- The pointer at `index` lies inside a block of `bytes` bytes. -/
def Within (bytes index : Nat) : Prop := pointerSize * (index + 1) ≤ bytes

instance (bytes index : Nat) : Decidable (Within bytes index) := Nat.decLe _ _

def ArgumentVector.malloc (bytes : Nat) : ArgumentVector :=
  { bytes := bytes, slot := fun _ => .undefined, stores := [] }

/-- What lies inside both the old block and the new one is kept. -/
def ArgumentVector.realloc (argv : ArgumentVector) (bytes : Nat) : ArgumentVector :=
  { argv with
    bytes := bytes
    slot := fun index =>
      if Within argv.bytes index ∧ Within bytes index then argv.slot index else .undefined }

def ArgumentVector.store (argv : ArgumentVector) (index : Nat) (argument : Argument) :
    ArgumentVector :=
  { argv with
    slot := Function.update argv.slot index argument
    stores := argv.stores ++ [{ index := index, bytes := argv.bytes }] }

/-- The tokens get fewer characters to come from. -/
theorem strtok_length {delimiters : List Char} (found : strtok delimiters text = some (token, rest)) :
    rest.length < text.length := by
  obtain ⟨skipped, after, rfl, -, -, nonempty, ⟨-, rfl⟩ | ⟨c, -, rfl⟩⟩ := strtok_parts found
  · have := List.length_pos_iff.mpr nonempty
    simp only [List.length_append, List.length_nil]
    omega
  · have := List.length_pos_iff.mpr nonempty
    simp only [List.length_append, List.length_cons]
    omega

/-- The loop over the tokens of what is left of `args`. -/
def appendTokens (argv : ArgumentVector) (length : Nat) (args : Text) : ArgumentVector × Nat :=
  match found : strtok [' '] args with
  | none => (argv, length)
  | some (token, rest) =>
      let length := length + 1
      let argv := argv.realloc (pointerSize * length)
      appendTokens (argv.store (length - 1) (.text token)) length rest
termination_by args.length
decreasing_by exact strtok_length found

/-- The size of the last `realloc` is that of `length` pointers, plus one byte. -/
def getConversionArgs (conversion : Conversion) : ArgumentVector :=
  let argv := ArgumentVector.malloc (pointerSize * 2)
  let argv := argv.store 0 (.text conversion.program)
  let argv := argv.store 1 .null
  match conversion.args with
  | none => argv
  | some args =>
      let (argv, length) := appendTokens argv 1 args
      (argv.realloc (pointerSize * length + 1)).store length .null

/-- What stands between spaces. -/
def words (args : Text) : List Text := (args.splitOn ' ').filter (· ≠ [])

theorem words_skip (spaces : Text) (blank : ∀ c ∈ spaces, c = ' ') (rest : Text) :
    words (spaces ++ rest) = words rest := by
  induction spaces with
  | nil => rfl
  | cons c spaces ih =>
      have split : (' ' :: (spaces ++ rest)).splitOn ' ' = [] :: (spaces ++ rest).splitOn ' ' :=
        List.splitOn_append_cons_self_of_not_mem List.not_mem_nil _
      rw [blank c List.mem_cons_self, List.cons_append, words, split,
        List.filter_cons_of_neg (by simp)]
      exact ih fun c member => blank c (List.mem_cons_of_mem _ member)

theorem words_token (nonempty : token ≠ []) (inToken : ' ' ∉ token) (rest : Text) :
    words (token ++ ' ' :: rest) = token :: words rest := by
  rw [words, List.splitOn_append_cons_self_of_not_mem inToken, List.filter_cons_of_pos]
  · rfl
  · simpa using nonempty

theorem words_last (nonempty : token ≠ []) (inToken : ' ' ∉ token) : words token = [token] := by
  rw [words, List.splitOn_eq_singleton inToken, List.filter_cons_of_pos]
  · rfl
  · simpa using nonempty

/-- `strtok` takes the first word. -/
theorem words_strtok (found : strtok [' '] text = some (token, rest)) :
    words text = token :: words rest := by
  obtain ⟨spaces, after, rfl, blank, inToken, nonempty, ends⟩ := strtok_parts found
  have inToken : ' ' ∉ token := fun member => inToken ' ' member (List.mem_singleton_self _)
  rw [List.append_assoc, words_skip spaces (fun c member => List.mem_singleton.mp (blank c member))]
  rcases ends with ⟨rfl, rfl⟩ | ⟨c, member, rfl⟩
  · rw [List.append_nil]
    exact words_last nonempty inToken
  · rw [List.mem_singleton.mp member]
    exact words_token nonempty inToken rest

theorem words_none (absent : strtok [' '] text = none) : words text = [] := by
  have blank : text.dropWhile (· ∈ [' ']) = [] := by
    unfold strtok at absent
    dsimp only at absent
    split at absent
    · assumption
    · cases absent
  have spaces : ∀ c ∈ text, c = ' ' := by
    rw [List.dropWhile_eq_nil_iff] at blank
    exact fun c member => by simpa using blank c member
  rw [← List.append_nil text, words_skip text spaces]
  rfl

/-- The vector begins with these strings, has room for them, and every store into it has been
inside its block. -/
structure ArgumentVector.Filled (argv : ArgumentVector) (strings : List Text) : Prop where
  slots : ∀ index string, strings[index]? = some string → argv.slot index = .text string
  room : pointerSize * strings.length ≤ argv.bytes
  inside : ∀ store ∈ argv.stores, Within store.bytes store.index

/-- One round. -/
theorem ArgumentVector.Filled.append {argv : ArgumentVector} {strings : List Text}
    (filled : argv.Filled strings) (string : Text) :
    ((argv.realloc (pointerSize * (strings.length + 1))).store strings.length
      (.text string)).Filled (strings ++ [string]) where
  slots := by
    intro index word at_
    rw [List.getElem?_append] at at_
    by_cases old : index < strings.length
    · rw [if_pos old] at at_
      have kept : Within argv.bytes index ∧ Within (pointerSize * (strings.length + 1)) index := by
        have := filled.room
        unfold Within
        unfold pointerSize at this ⊢
        omega
      simp only [store, realloc, Function.update_of_ne old.ne, if_pos kept]
      exact filled.slots index word at_
    · rw [if_neg old, List.getElem?_singleton] at at_
      split at at_
      · cases at_
        have last : index = strings.length := by omega
        rw [last]
        exact Function.update_self ..
      · cases at_
  room := by
    rw [List.length_append, List.length_singleton]
    exact Nat.le_refl _
  inside := by
    intro store member
    rcases List.mem_append.mp member with old | new
    · exact filled.inside store old
    · rw [List.mem_singleton.mp new]
      exact Nat.le_refl _

theorem appendTokens_filled {argv : ArgumentVector} {strings : List Text} (args : Text)
    (filled : argv.Filled strings) :
    ∃ argv', appendTokens argv strings.length args = (argv', (strings ++ words args).length) ∧
      argv'.Filled (strings ++ words args) := by
  induction remaining : args.length using Nat.strongRecOn generalizing args argv strings with
  | ind remaining ih =>
      unfold appendTokens
      split
      · rename_i absent
        rw [words_none absent, List.append_nil]
        exact ⟨argv, rfl, filled⟩
      · rename_i token rest found
        have shorter := strtok_length found
        obtain ⟨argv', loop, whole⟩ := ih rest.length (by omega) rest (filled.append token) rfl
        rw [List.length_append, List.length_singleton] at loop
        rw [words_strtok found, List.append_cons]
        exact ⟨argv', loop, whole⟩

def argumentsOf (conversion : Conversion) : List Text :=
  conversion.program :: (conversion.args.map words).getD []

def ArgumentVector.Holds (argv : ArgumentVector) (strings : List Text) : Prop :=
  (∀ index string, strings[index]? = some string → argv.slot index = .text string) ∧
    argv.slot strings.length = .null

def ArgumentVector.InBounds (argv : ArgumentVector) : Prop :=
  ∀ store ∈ argv.stores, Within store.bytes store.index

/-- The vector before the arguments are looked at. -/
theorem first_filled (program : Text) :
    (((ArgumentVector.malloc (pointerSize * 2)).store 0 (.text program)).store 1 .null).Filled
      [program] where
  slots := by
    intro index string at_
    rw [List.getElem?_singleton] at at_
    split at at_
    · rename_i first
      cases at_
      rw [first]
      rfl
    · cases at_
  room := (by decide : pointerSize * 1 ≤ pointerSize * 2)
  inside := by
    intro store member
    rcases List.mem_append.mp member with first | second
    · rw [List.mem_singleton.mp first]
      exact (by decide : Within (pointerSize * 2) 0)
    · rw [List.mem_singleton.mp second]
      exact (by decide : Within (pointerSize * 2) 1)

/-- The last `realloc` and the last store. -/
theorem getConversionArgs_some {args : Text} (given : conversion.args = some args) :
    ∃ argv : ArgumentVector, argv.Filled (argumentsOf conversion) ∧
      getConversionArgs conversion =
        (argv.realloc (pointerSize * (argumentsOf conversion).length + 1)).store
          (argumentsOf conversion).length .null := by
  obtain ⟨argv, loop, filled⟩ := appendTokens_filled args (first_filled conversion.program)
  have arguments : argumentsOf conversion = [conversion.program] ++ words args := by
    rw [argumentsOf, given]
    rfl
  rw [List.length_singleton] at loop
  refine ⟨argv, arguments ▸ filled, ?_⟩
  rw [arguments]
  simp only [getConversionArgs, given, loop]

theorem getConversionArgs_holds (conversion : Conversion) :
    (getConversionArgs conversion).Holds (argumentsOf conversion) := by
  cases given : conversion.args with
  | none =>
      have first := first_filled conversion.program
      rw [argumentsOf, given]
      simp only [getConversionArgs, given]
      exact ⟨first.slots, rfl⟩
  | some args =>
      obtain ⟨argv, filled, is⟩ := getConversionArgs_some given
      rw [is]
      constructor
      · intro index string at_
        have inside : index < (argumentsOf conversion).length :=
          (List.getElem?_eq_some_iff.mp at_).1
        have kept : Within argv.bytes index ∧
            Within (pointerSize * (argumentsOf conversion).length + 1) index := by
          have := filled.room
          unfold Within
          unfold pointerSize at this ⊢
          omega
        simp only [ArgumentVector.store, ArgumentVector.realloc, Function.update_of_ne inside.ne,
          if_pos kept]
        exact filled.slots index string at_
      · exact Function.update_self ..

/-- With arguments, the store of the terminator is out of bounds, and it is the only one. -/
theorem getConversionArgs_stores {args : Text} (given : conversion.args = some args) :
    ∃ stores, (getConversionArgs conversion).stores =
        stores ++ [{ index := (argumentsOf conversion).length
                     bytes := pointerSize * (argumentsOf conversion).length + 1 }] ∧
      ∀ store ∈ stores, Within store.bytes store.index := by
  obtain ⟨argv, filled, is⟩ := getConversionArgs_some given
  rw [is]
  exact ⟨argv.stores, rfl, filled.inside⟩

theorem getConversionArgs_inBounds_iff (conversion : Conversion) :
    (getConversionArgs conversion).InBounds ↔ conversion.args = none := by
  constructor
  · intro bounds
    cases given : conversion.args with
    | none => rfl
    | some args =>
        obtain ⟨stores, are, -⟩ := getConversionArgs_stores given
        have last := bounds { index := (argumentsOf conversion).length
                              bytes := pointerSize * (argumentsOf conversion).length + 1 }
          (by simp [are])
        change 8 * ((argumentsOf conversion).length + 1) ≤ 8 * (argumentsOf conversion).length + 1 at last
        omega
  · intro absent
    simp only [getConversionArgs, absent]
    exact (first_filled conversion.program).inside

/-- The vector is complete for every conversion; all stores into it are in bounds exactly if the
conversion has no arguments. -/
theorem getConversionArgs_iff (conversion : Conversion) :
    ((getConversionArgs conversion).Holds (argumentsOf conversion) ∧
      (getConversionArgs conversion).InBounds) ↔ conversion.args = none := by
  rw [and_iff_right (getConversionArgs_holds conversion)]
  exact getConversionArgs_inBounds_iff conversion

/-- One argument: NULL is stored at byte 16 of a block of 17 bytes. -/
theorem getConversionArgs_overflows :
    ¬ ∀ conversion, (getConversionArgs conversion).Holds (argumentsOf conversion) ∧
      (getConversionArgs conversion).InBounds := by
  intro always
  have none := (getConversionArgs_inBounds_iff
    { type := "pdf".toList, program := "convert".toList, args := some "-v".toList }).mp (always _).2
  cases none

end Audible.Imprimer
