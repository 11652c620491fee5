import Audible.RecoderSize
import Audible.RecoderOptions
import Mathlib.Data.List.TakeWhile

set_option autoImplicit false

/- Annotations: what `read_annotation` accepts, what `getNewAnnotation` stores, and where. -/
namespace Audible.Recoder

/-- A `char` read as 0xff ends the loop early, as the end of the input does. -/
theorem readAnnotationBytes_eq (size : Nat) (input : List Byte) :
    readAnnotationBytes size input =
      if size ≤ input.length ∧ 255#8 ∉ input.take size then some (input.take size, input.drop size)
      else none := by
  induction size generalizing input with
  | zero => simp [readAnnotationBytes]
  | succ size ih =>
      cases input with
      | nil => rfl
      | cons c input =>
          have stored : (c.setWidth 32).setWidth 8 = c := by
            rw [BitVec.setWidth_setWidth_of_le _ (by omega), BitVec.setWidth_eq]
          have ended : c.signExtend 32 = EOF ↔ 255#8 = c := by
            revert c
            decide
          simp only [readAnnotationBytes, getchar_cons, stored, ended, ih, List.length_cons,
            List.take_succ_cons, List.drop_succ_cons, List.mem_cons, Nat.succ_le_succ_iff]
          by_cases last : 255#8 = c
          · simp [last]
          · by_cases rest : size ≤ input.length ∧ 255#8 ∉ input.take size
            · simp [last, rest]
            · rw [if_neg last, if_neg rest, if_neg (fun all => rest ⟨all.1, fun m => all.2 (.inr m)⟩)]
              rfl

theorem umod_eight_iff (size : CInt) : size % 8 = 0 ↔ 8 ∣ size.toNat := by
  rw [← BitVec.toNat_inj, BitVec.toNat_umod, Nat.dvd_iff_mod_eq_zero]
  rfl

theorem readAnnotation_eq (size : CInt) (input : List Byte) :
    readAnnotation size input =
      if 8 ∣ size.toNat ∧ size.toNat ≤ annotationMax ∧ size.toNat ≤ input.length ∧
        255#8 ∉ input.take size.toNat then
        some (input.take size.toNat, input.drop size.toNat)
      else none := by
  unfold readAnnotation
  rw [readAnnotationBytes_eq]
  simp only [ne_eq, umod_eight_iff]
  by_cases fits : 8 ∣ size.toNat ∧ size.toNat ≤ annotationMax
  · rw [if_neg (by omega)]
    simp only [fits, true_and]
  · rw [if_pos (by omega), if_neg (fun all => fits ⟨all.1, all.2.1⟩)]

/-- A valid annotation of `size` bytes at the head of the input. -/
structure AnnotationAt (size : Nat) (input : List Byte) : Prop where
  aligned : 8 ∣ size
  short : size ≤ annotationMax
  present : size ≤ input.length
  ended : 0 < size → input[size - 1]? = some 0#8

/-- Exactly a valid annotation is accepted, and its bytes are stored as they are. -/
def ReadsNotes (size : CInt) (input : List Byte) : Prop :=
  (none ≠ readAnnotation size input ↔ AnnotationAt size.toNat input) ∧
    ∀ notes rest, readAnnotation size input = some (notes, rest) → notes = input.take size.toNat

/-- `read_annotation` is right about the size and the end of the input. What it makes of the bytes
is right where the last one is zero if and only if none is 0xff. -/
theorem readsAnnotation_iff (size : CInt) (input : List Byte) :
    ReadsNotes size input ↔
      ¬ 8 ∣ size.toNat ∨ annotationMax < size.toNat ∨ input.length < size.toNat ∨ size.toNat = 0 ∨
        (input[size.toNat - 1]? = some 0#8 ↔ 255#8 ∉ input.take size.toNat) := by
  have stored : ∀ notes rest, readAnnotation size input = some (notes, rest) →
      notes = input.take size.toNat := by
    intro notes rest read
    rw [readAnnotation_eq] at read
    split at read
    · cases read
      rfl
    · cases read
  have accepted : none ≠ readAnnotation size input ↔ 8 ∣ size.toNat ∧
      size.toNat ≤ annotationMax ∧ size.toNat ≤ input.length ∧ 255#8 ∉ input.take size.toNat := by
    rw [readAnnotation_eq]
    split <;> simp_all
  have valid : AnnotationAt size.toNat input ↔ 8 ∣ size.toNat ∧ size.toNat ≤ annotationMax ∧
      size.toNat ≤ input.length ∧ (0 < size.toNat → input[size.toNat - 1]? = some 0#8) :=
    ⟨fun at_ => ⟨at_.aligned, at_.short, at_.present, at_.ended⟩,
      fun at_ => ⟨at_.1, at_.2.1, at_.2.2.1, at_.2.2.2⟩⟩
  rw [ReadsNotes, accepted, valid, and_iff_left stored]
  have empty : size.toNat = 0 → 255#8 ∉ input.take size.toNat := by
    intro zero
    rw [zero]
    simp
  by_cases zero : size.toNat = 0
  · simp [zero]
  · grind

/-- Eight bytes without a terminator are accepted. -/
theorem reads_unterminated : ¬ ∀ (size : CInt) (input : List Byte), ReadsNotes size input := by
  intro reads
  have valid := (reads 8 (List.replicate 8 1#8)).1.mp (by decide)
  exact absurd (valid.ended (by decide)) (by decide)

theorem applyWrites_append (ap : Nat → Byte) (writes more : List Write) :
    applyWrites ap (writes ++ more) = applyWrites (applyWrites ap writes) more :=
  List.foldl_append

theorem buffer_append (content : List Byte) (c : Byte) :
    (fun index => if index = content.length then c else buffer content index) =
      buffer (content ++ [c]) := by
  funext index
  unfold buffer
  rw [List.getElem?_append]
  by_cases last : index = content.length
  · simp [last]
  · by_cases inside : index < content.length
    · rw [if_neg last, if_pos inside]
    · rw [if_neg last, if_neg inside, List.getElem?_eq_none (by omega),
        List.getElem?_eq_none (by simp; omega)]

theorem copyString_cons (k : Nat) (c : Byte) (text : List Byte) :
    copyString k (c :: text) = (k, c) :: copyString (k + 1) text := by
  unfold copyString
  rw [List.mapIdx_cons]
  congr 2
  funext i c
  rw [Nat.add_assoc, Nat.add_comm 1]

theorem copyString_append (k : Nat) (text more : List Byte) :
    copyString k (text ++ more) = copyString k text ++ copyString (k + text.length) more := by
  induction text generalizing k with
  | nil => rfl
  | cons c text ih =>
      rw [List.cons_append, copyString_cons, copyString_cons, ih, List.cons_append,
        List.length_cons, Nat.add_assoc, Nat.add_comm 1]

/-- Text copied to the end of what a buffer holds is appended to it. -/
theorem applyWrites_copyString (content text : List Byte) :
    applyWrites (buffer content) (copyString content.length text) = buffer (content ++ text) := by
  induction text generalizing content with
  | nil => simp [copyString, applyWrites]
  | cons c text ih =>
      have rest := ih (content ++ [c])
      rw [List.length_append, List.length_singleton, List.append_assoc] at rest
      rw [copyString_cons, ← List.singleton_append, applyWrites_append]
      refine Eq.trans ?_ rest
      congr 1
      exact buffer_append content c

/-- Zeros after the content of a buffer change nothing. -/
theorem applyWrites_zeros (content : List Byte) (writes : List Write)
    (zeros : ∀ write ∈ writes, content.length ≤ write.1 ∧ write.2 = 0#8) :
    applyWrites (buffer content) writes = buffer content := by
  induction writes with
  | nil => rfl
  | cons write writes ih =>
      obtain ⟨after, zero⟩ := zeros write (by simp)
      have same : (fun index => if index = write.1 then write.2 else buffer content index) =
          buffer content := by
        funext index
        split
        · rename_i here
          rw [here, zero, buffer, List.getElem?_eq_none after]
          rfl
        · rfl
      rw [← List.singleton_append, applyWrites_append, show applyWrites (buffer content) [write] =
        fun index => if index = write.1 then write.2 else buffer content index from rfl, same]
      exact ih fun other member => zeros other (by simp [member])

theorem writeAnnotation_buffer (content : List Byte) (size : Nat) (inside : content.length ≤ size) :
    writeAnnotation (buffer content) size =
      content ++ List.replicate (size - content.length) 0#8 := by
  apply List.ext_getElem
  · simp [ writeAnnotation, inside]
  · intro index _ _
    simp only [ writeAnnotation, buffer, List.getElem_map, List.getElem_range]
    by_cases within : index < content.length
    · rw [List.getElem_append_left within, List.getElem?_eq_getElem within]
      rfl
    · rw [List.getElem_append_right (by omega), List.getElem?_eq_none (by omega),
        List.getElem_replicate]
      rfl

def joined (argv : List (List Byte)) : List Byte := [0x20#8].intercalate argv

def newText (argv : List (List Byte)) (string : List Byte) : List Byte :=
  joined argv ++ 0x0a#8 :: string

/-- The text with the one to eight zeros that make its size a multiple of eight. -/
def newNotes (argv : List (List Byte)) (string : List Byte) : List Byte :=
  newText argv string ++ List.replicate (8 - (newText argv string).length % 8) 0#8

@[simp] theorem joined_singleton (arg : List Byte) : joined [arg] = arg :=
  List.intercalate_singleton

theorem joined_cons (arg : List Byte) {argv : List (List Byte)} (more : argv ≠ []) :
    joined (arg :: argv) = arg ++ 0x20#8 :: joined argv := by
  unfold joined
  rw [List.intercalate_cons_of_ne_nil more, List.append_assoc, List.singleton_append]

theorem joined_append {argv more : List (List Byte)} (some : argv ≠ []) (rest : more ≠ []) :
    joined (argv ++ more) = joined argv ++ 0x20#8 :: joined more := by
  induction argv with
  | nil => exact absurd rfl some
  | cons arg argv ih =>
      by_cases last : argv = []
      · rw [last, List.singleton_append, joined_cons arg rest, joined_singleton]
      · rw [List.cons_append, joined_cons arg (by simp [rest]), joined_cons arg last, ih last,
          List.append_assoc, List.cons_append]

/-- The loop over the arguments, those at `i` and after it to go. -/
theorem copyArgs_eq (argv : List (List Byte)) (argc : Nat) (inside : argc ≤ argv.length)
    (remaining k : Nat) (left : remaining ≤ argc) :
    copyArgs argv argc remaining k =
      let text := joined ((argv.take argc).drop (argc - remaining))
      some (k + text.length, copyString k text) := by
  induction remaining generalizing k with
  | zero =>
      rw [Nat.sub_zero, List.drop_eq_nil_of_le (by simp)]
      simp [copyArgs, joined, copyString]
  | succ remaining ih =>
      have inside' : argc - (remaining + 1) < argv.length := by omega
      have arg : argv[argc - (remaining + 1)]? = some argv[argc - (remaining + 1)] :=
        List.getElem?_eq_getElem inside'
      have next : argc - (remaining + 1) + 1 = argc - remaining := by omega
      have head : (argv.take argc).drop (argc - (remaining + 1)) =
          argv[argc - (remaining + 1)] :: (argv.take argc).drop (argc - remaining) := by
        rw [List.drop_eq_getElem_cons (by rw [List.length_take]; omega), List.getElem_take, next]
      rw [copyArgs]
      simp only [arg, ih _ (by omega), Option.bind_eq_bind, Option.bind_some, next, head, pure]
      by_cases last : remaining = 0
      · subst last
        simp [joined, copyString, List.drop_eq_nil_of_le]
      · have more : (argv.take argc).drop (argc - remaining) ≠ [] := by
          rw [Ne, List.drop_eq_nil_iff, List.length_take]
          omega
        rw [if_pos (by omega), joined_cons _ more, copyString_append, copyString_cons]
        simp [Nat.add_assoc, Nat.add_comm 1]

/-- An argument past the end of `argv` is read. -/
theorem copyArgs_none (argv : List (List Byte)) (argc : Nat) (short : argv.length < argc)
    (remaining k : Nat) (left : remaining ≤ argc) (before : argc ≤ argv.length + remaining) :
    copyArgs argv argc remaining k = none := by
  induction remaining generalizing k with
  | zero => omega
  | succ remaining ih =>
      rw [copyArgs]
      simp only [Option.bind_eq_bind]
      by_cases last : argc = argv.length + (remaining + 1)
      · rw [List.getElem?_eq_none (by omega)]
        rfl
      · rw [List.getElem?_eq_getElem (by omega), Option.bind_some, ih _ (by omega) (by omega)]
        rfl

/-- What is stored: the text from the start of the buffer, and zeros after it. -/
theorem getNewAnnotation_eq {options : Options} {argv : List (List Byte)} {notes string : List Byte}
    (complete : getArgC options ≤ argv.length) (ended : annotationString notes = some string) :
    getNewAnnotation options argv notes =
      let text := newText (argv.take (getArgC options)) string
      let pad := padToEight (8 - text.length % 8) text.length
      some (pad.1, copyString 0 text ++ pad.2) := by
  have args := copyArgs_eq argv (getArgC options) complete (getArgC options) 0 (Nat.le_refl _)
  rw [Nat.sub_self, List.drop_zero] at args
  dsimp only at args
  rw [Nat.zero_add] at args
  unfold getNewAnnotation newText sizeOfString
  simp only [args, ended, Option.bind_eq_bind, Option.bind_some, pure, List.length_append,
    List.length_cons, copyString_append, copyString_cons, Nat.zero_add, List.append_assoc,
    List.cons_append]
  have size : ∀ m : Nat, m + 1 + string.length = m + (string.length + 1) := by
    intro m
    omega
  rw [size]

theorem getNewAnnotation_none {options : Options} {argv : List (List Byte)} {notes : List Byte}
    (incomplete : argv.length < getArgC options) : getNewAnnotation options argv notes = none := by
  unfold getNewAnnotation
  simp only [copyArgs_none argv (getArgC options) incomplete (getArgC options) 0 (Nat.le_refl _)
    (by omega), Option.bind_eq_bind, Option.bind_none]

theorem getNewAnnotation_ended {options : Options} {argv : List (List Byte)} {notes : List Byte}
    {new : Nat × List Write} (written : getNewAnnotation options argv notes = some new) :
    annotationString notes = some (notes.takeWhile (· ≠ 0#8)) := by
  have found : ∃ string, annotationString notes = some string := by
    unfold getNewAnnotation at written
    simp only [Option.bind_eq_bind, Option.bind_eq_some_iff] at written
    obtain ⟨args, -, string, found, -⟩ := written
    exact ⟨string, found⟩
  obtain ⟨string, found⟩ := found
  unfold annotationString at found ⊢
  dsimp only at found ⊢
  split at found
  · rw [if_pos ‹_›]
  · cases found

/-- The loop that fills up stores zeros behind the text, and leaves out every other index. -/
theorem padToEight_writes (remaining k : Nat) (short : remaining ≤ 8) :
    ∀ write ∈ (padToEight remaining k).2,
      k ≤ write.1 ∧ write.1 + 2 ≤ k + remaining + 8 ∧ write.2 = 0#8 := by
  induction remaining generalizing k with
  | zero => simp [padToEight]
  | succ remaining ih =>
      intro write member
      rcases List.mem_cons.mp member with rfl | later
      · refine ⟨?_, ?_, rfl⟩
        · omega
        · omega
      · have bounds := ih (k + 1) (by omega) write later
        exact ⟨by omega, by omega, bounds.2.2⟩

/-- Its last store. -/
theorem padToEight_last (remaining k : Nat) (short : remaining + 1 ≤ 8) :
    (k + remaining + 7, 0#8) ∈ (padToEight (remaining + 1) k).2 := by
  induction remaining generalizing k with
  | zero => exact List.mem_singleton.mpr rfl
  | succ remaining ih =>
      have later := ih (k + 1) (by omega)
      rw [show k + 1 + remaining + 7 = k + (remaining + 1) + 7 by omega] at later
      exact List.mem_cons_of_mem _ later

theorem getFactor_ne_zero (options : Options) : getFactor options ≠ 0 := by
  intro zero
  have range := getFactor_range options
  rw [zero, show (0 : CInt).toInt = 0 by decide] at range
  omega

/-- A flag with a value is always counted. -/
theorem getArgC_word {options : Options} {bit low : Nat} {preserve : Bool}
    (word : Word options bit preserve low) : getArgC options = 4 + preserve.toNat := by
  have mode : (isSpeedUp options || isSlowDown options || isCrypt options) = true := by
    rw [word.isSpeedUp, word.isSlowDown, word.isCrypt]
    rcases word.mode with rfl | rfl | rfl <;> rfl
  have valued : getKey options ≠ 0 ∨ getFactor options ≠ 0 := .inr (getFactor_ne_zero options)
  unfold getArgC
  rw [mode, if_pos rfl, word.isPreserve, if_pos valued]
  cases preserve <;> rfl

theorem SpeedMode.not_help {mode : List Byte} {bit : Nat} (speeds : SpeedMode mode bit) :
    mode ≠ flag 0x68#8 := by
  rcases speeds with ⟨rfl, -⟩ | ⟨rfl, -⟩ <;> decide

theorem Accepted.args_length {program mode : List Byte} {args : List (List Byte)}
    {options : Options} (accepted : Accepted (program :: mode :: args) options)
    (transforms : mode ≠ flag 0x68#8) (fresh : flag 0x70#8 ∉ args) :
    args.length = 0 ∨ args.length = 2 := by
  have valued : ∀ {name value : List Byte}, WithValue name value args → args.length = 2 := by
    intro name value given
    rcases given with rfl | rfl | rfl
    · rfl
    · exact absurd (by simp) fresh
    · exact absurd (by simp) fresh
  cases accepted with
  | help _ _ line =>
      cases line
      exact absurd rfl transforms
  | plain _ _ _ bit line speeds plain =>
      cases line
      rcases plain with rfl | rfl
      · exact .inl rfl
      · exact absurd (by simp) fresh
  | factor _ _ _ bit number line speeds given valid =>
      cases line
      exact .inr (valued given)
  | crypt _ _ number line given valid =>
      cases line
      exact .inr (valued given)

/-- What `getArgC` makes of an accepted command line without `-p`. -/
theorem getArgC_accepted {argv : List (List Byte)} {options : Options}
    (accepted : Accepted argv options) (fresh : flag 0x70#8 ∉ argv.tail) :
    getArgC options = if argAt argv 1 = flag 0x68#8 then 3 else 4 := by
  obtain ⟨program, mode, args, rfl⟩ := accepted.cons
  have first : argAt (program :: mode :: args) 1 = mode := rfl
  rw [first]
  by_cases help : mode = flag 0x68#8
  · rw [if_pos help]
    cases accepted with
    | help _ _ line => decide
    | plain _ _ _ bit line speeds plain =>
        cases line
        exact absurd help speeds.not_help
    | factor _ _ _ bit number line speeds given valid =>
        cases line
        exact absurd help speeds.not_help
    | crypt _ _ number line given valid =>
        cases line
        exact absurd help (by decide)
  · obtain ⟨bit, low, modes, word⟩ := accepted.word help
    have absent : flag 0x70#8 ∉ args := fun member => fresh (by simp [member])
    rw [if_neg help, getArgC_word word, decide_eq_false absent]
    rfl

/-- The result is the new annotation, and no argument after the last is read. -/
def AnnotationBuilt (options : Options) (argv : List (List Byte)) (notes string : List Byte) : Prop :=
  ∃ new, getNewAnnotation options argv notes = some new ∧ 8 ∣ new.1 ∧
    writeAnnotation (applyWrites (buffer []) new.2) new.1 = newNotes argv string

theorem newNotes_length (argv : List (List Byte)) (string : List Byte) :
    (newNotes argv string).length =
      (newText argv string).length + (8 - (newText argv string).length % 8) := by
  rw [newNotes, List.length_append, List.length_replicate]

/-- The arguments that `getArgC` counts are put together as they should be. -/
theorem annotationBuilt_take {options : Options} {argv : List (List Byte)}
    {notes string : List Byte} (complete : getArgC options ≤ argv.length)
    (ended : annotationString notes = some string) :
    AnnotationBuilt options argv notes string ↔
      newNotes (argv.take (getArgC options)) string = newNotes argv string := by
  have stored := getNewAnnotation_eq complete ended
  generalize taken : newText (argv.take (getArgC options)) string = text at stored
  have pad := padToEight_writes (8 - text.length % 8) text.length (by omega)
  have content : applyWrites (buffer [])
      (copyString 0 text ++ (padToEight (8 - text.length % 8) text.length).2) = buffer text := by
    rw [applyWrites_append]
    have copied := applyWrites_copyString [] text
    rw [List.length_nil, List.nil_append] at copied
    rw [copied]
    exact applyWrites_zeros text _ fun write member => ⟨(pad write member).1, (pad write member).2.2⟩
  have written : writeAnnotation (buffer text) (text.length + (8 - text.length % 8)) =
      newNotes (argv.take (getArgC options)) string := by
    rw [writeAnnotation_buffer _ _ (by omega), Nat.add_sub_cancel_left, newNotes, taken]
  have aligned : 8 ∣ text.length + (8 - text.length % 8) := by omega
  unfold AnnotationBuilt
  rw [stored]
  simp only [Option.some.injEq, exists_eq_left', padToEight_size, content, written, aligned,
    true_and]

/-- Arguments left out are missing: a space is where the line should end. -/
theorem newNotes_take_ne {argv more : List (List Byte)} (string : List Byte) (some : argv ≠ [])
    (rest : more ≠ []) : newNotes argv string ≠ newNotes (argv ++ more) string := by
  intro same
  unfold newNotes newText at same
  rw [joined_append some rest] at same
  simp only [List.append_assoc, List.append_cancel_left_eq, List.cons_append] at same
  rw [List.cons.injEq] at same
  exact absurd same.1 (by decide)

/-- The annotation is built as it should be exactly from a command line with as many arguments as
`getArgC` takes it to have: four, or three with `-h`. -/
theorem annotation_built_iff (argv : List Argument) (options : Options) (notes string : List Byte)
    (accepted : validargs (bytesOf argv) = (true, options))
    (fresh : flag 0x70#8 ∉ (bytesOf argv).tail) (ended : annotationString notes = some string)
    (_fits : (newNotes (bytesOf argv) string).length ≤ annotationMax) :
    AnnotationBuilt options (bytesOf argv) notes string ↔
      argv.length = if argAt (bytesOf argv) 1 = flag 0x68#8 then 3 else 4 := by
  have line := (validargs_iff _ (bytesOf_noNul argv) options).mp accepted
  have length : argv.length = (bytesOf argv).length := by simp [bytesOf]
  rw [← getArgC_accepted line fresh, length]
  generalize bytesOf argv = words at *
  have counted : 3 ≤ getArgC options := by
    rw [getArgC_accepted line fresh]
    split <;> decide
  by_cases complete : getArgC options ≤ words.length
  · rw [annotationBuilt_take complete ended]
    constructor
    · intro same
      by_contra more
      have taken : words.take (getArgC options) ≠ [] := by
        rw [← List.length_pos_iff, List.length_take]
        omega
      have left : words.drop (getArgC options) ≠ [] := by
        rw [Ne, List.drop_eq_nil_iff]
        omega
      have differ := newNotes_take_ne string taken left
      rw [List.take_append_drop] at differ
      exact differ same
    · intro all
      rw [← all, List.take_length]
  · refine iff_of_false ?_ (by omega)
    rintro ⟨new, written, -⟩
    rw [getNewAnnotation_none (by omega)] at written
    cases written

/-- The command line `audible -d -f 2`. -/
def slower : List Argument :=
  [[0x61#8], flag 0x64#8, flag 0x66#8, [0x32#8]].pmap Argument.mk (by decide)

theorem annotation_built_two :
    AnnotationBuilt (validargs (bytesOf slower)).2 (bytesOf slower)
      [0x6f#8, 0x6c#8, 0x64#8, 0#8] [0x6f#8, 0x6c#8, 0x64#8] :=
  (annotation_built_iff slower _ _ _ (Prod.ext (by decide) rfl) (by decide) (by decide)
    (by decide)).mpr (by decide)

/-- For `audible -d` alone `getArgC` counts a flag with a value, and `argv[2]` is read. -/
theorem annotation_not_built :
    ¬ ∀ (argv : List Argument) (options : Options) (notes string : List Byte),
      validargs (bytesOf argv) = (true, options) → flag 0x70#8 ∉ (bytesOf argv).tail →
      annotationString notes = some string →
      (newNotes (bytesOf argv) string).length ≤ annotationMax →
      AnnotationBuilt options (bytesOf argv) notes string := by
  intro built
  obtain ⟨new, written, -⟩ := built (slower.take 2) (validargs (bytesOf (slower.take 2))).2 [] []
    (Prod.ext (by decide) rfl) (by decide) (by decide) (by decide)
  revert written
  rw [show getNewAnnotation (validargs (bytesOf (slower.take 2))).2 (bytesOf (slower.take 2)) [] =
    none by decide]
  exact fun written => by cases written

/-- Only the buffer is written, and the scan for the end of the old annotation stays in its own. -/
def AnnotationInside (options : Options) (argv : List (List Byte)) (notes : List Byte) : Prop :=
  ∃ new, getNewAnnotation options argv notes = some new ∧ ∀ write ∈ new.2, write.1 < annotationMax

theorem mem_copyString {k : Nat} {text : List Byte} {write : Write}
    (member : write ∈ copyString k text) : write.1 < k + text.length := by
  induction text generalizing k with
  | nil => simp [copyString] at member
  | cons c text ih =>
      rw [copyString_cons] at member
      rw [List.length_cons]
      rcases List.mem_cons.mp member with rfl | later
      · omega
      · have := ih later
        omega

/-- The zeros reach seven bytes further than the result, so that it must be shorter than the
buffer. -/
theorem annotationInside_iff {options : Options} {argv : List (List Byte)} {notes string : List Byte}
    (complete : getArgC options ≤ argv.length) (ended : annotationString notes = some string) :
    AnnotationInside options argv notes ↔
      (newText (argv.take (getArgC options)) string).length < annotationMax - 8 := by
  have stored := getNewAnnotation_eq complete ended
  generalize newText (argv.take (getArgC options)) string = text at *
  have pad := padToEight_writes (8 - text.length % 8) text.length (by omega)
  have last := padToEight_last (7 - text.length % 8) text.length (by omega)
  rw [show 7 - text.length % 8 + 1 = 8 - text.length % 8 by omega] at last
  unfold AnnotationInside annotationMax
  rw [stored]
  simp only [Option.some.injEq, exists_eq_left']
  constructor
  · intro inside
    have := inside _ (List.mem_append_right _ last)
    dsimp only at this
    omega
  · intro short write member
    rcases List.mem_append.mp member with copied | zero
    · have := mem_copyString copied
      omega
    · have := pad write zero
      omega

/-- Stores that are all inside of the buffer leave an annotation that is not too long. -/
theorem getNewAnnotation_fits {options : Options} {argv : List (List Byte)} {notes : List Byte}
    {new : Nat × List Write} (written : getNewAnnotation options argv notes = some new)
    (inside : ∀ write ∈ new.2, write.1 < annotationMax) : new.1 ≤ annotationMax := by
  have complete : getArgC options ≤ argv.length := by
    by_contra incomplete
    rw [getNewAnnotation_none (by omega)] at written
    cases written
  have ended := getNewAnnotation_ended written
  have room := (annotationInside_iff complete ended).mp ⟨new, written, inside⟩
  rw [getNewAnnotation_eq complete ended] at written
  obtain rfl := Option.some.inj written
  rw [padToEight_size]
  unfold annotationMax at room ⊢
  omega

theorem takeWhile_length_iff (notes : List Byte) :
    (notes.takeWhile (· ≠ 0#8)).length < notes.length ↔ 0#8 ∈ notes := by
  have start : notes.takeWhile (· ≠ 0#8) <+: notes := List.takeWhile_prefix _
  have all : notes.takeWhile (· ≠ 0#8) = notes ↔ 0#8 ∉ notes := by
    rw [List.takeWhile_eq_self_iff]
    simp only [decide_eq_true_eq]
    exact ⟨fun each zero => each _ zero rfl, fun absent c member same => absent (same ▸ member)⟩
  rw [← not_iff_not, ← all, Nat.not_lt]
  exact ⟨fun whole => start.eq_of_length_le whole, fun same => by rw [same]⟩

/-- The end of an accepted annotation is found in its buffer unless it fills it without a zero. -/
theorem annotationString_iff {notes : List Byte} (short : notes.length ≤ annotationMax) :
    annotationString notes = some (notes.takeWhile (· ≠ 0#8)) ↔
      notes.length < annotationMax ∨ 0#8 ∈ notes := by
  have start : notes.takeWhile (· ≠ 0#8) <+: notes := List.takeWhile_prefix _
  have shorter := start.length_le
  have ended := takeWhile_length_iff notes
  unfold annotationString
  dsimp only
  split
  · rename_i inside
    refine iff_of_true rfl ?_
    by_contra full
    rw [not_or, ← ended] at full
    omega
  · rename_i outside
    refine iff_of_false (by simp) ?_
    rw [not_or, ← ended]
    omega

/-- Where `recode` builds a new annotation it stays inside the buffers, and an annotation that is
too long is refused before anything is written. -/
def BuildsInside (argv : List (List Byte)) (options : Options) (notes input : List Byte) : Prop :=
  argAt argv 1 ≠ flag 0x68#8 → flag 0x70#8 ∉ argv.tail →
    AnnotationInside options argv notes ∧
      (annotationMax < (newNotes argv (notes.takeWhile (· ≠ 0#8))).length →
        recode options argv input = some (false, []))

/-- Building is safe with `-p`, where nothing is built; else if a factor or a key is given, the old
annotation ends in its buffer, and the text leaves more than eight bytes of the other. -/
theorem builds_inside_iff (argv : List Argument) (options : Options) (input notes data : List Byte)
    (accepted : validargs (bytesOf argv) = (true, options))
    (read : readAnnotation ((readHeader input).2.1.dataOffset - 24) (readHeader input).2.2 =
      some (notes, data)) :
    BuildsInside (bytesOf argv) options notes input ↔
      argAt (bytesOf argv) 1 = flag 0x68#8 ∨ flag 0x70#8 ∈ (bytesOf argv).tail ∨
        (argv.length = 4 ∧ (notes.length < annotationMax ∨ 0#8 ∈ notes) ∧
          (newText (bytesOf argv) (notes.takeWhile (· ≠ 0#8))).length < annotationMax - 8) := by
  have line := (validargs_iff _ (bytesOf_noNul argv) options).mp accepted
  have length : argv.length = (bytesOf argv).length := by simp [bytesOf]
  have short : notes.length ≤ annotationMax := by
    rw [readAnnotation_eq] at read
    split at read
    · rename_i fits
      cases read
      rw [List.length_take]
      omega
    · cases read
  rw [← annotationString_iff short, length]
  generalize bytesOf argv = words at *
  unfold BuildsInside
  by_cases help : argAt words 1 = flag 0x68#8
  · simp [help]
  by_cases preserves : flag 0x70#8 ∈ words.tail
  · simp [preserves]
  have counted := getArgC_accepted line preserves
  rw [if_neg help] at counted
  obtain ⟨program, mode, args, rfl⟩ := line.cons
  have count := line.args_length help (fun member => preserves (by simp [member]))
  have size : (program :: mode :: args).length = args.length + 2 := rfl
  generalize program :: mode :: args = words at *
  have taken : args.length = 2 → words.take (getArgC options) = words := fun two =>
    List.take_of_length_le (by omega)
  simp only [ne_eq, help, preserves, not_false_eq_true, true_implies, false_or]
  constructor
  · rintro ⟨inside, -⟩
    obtain ⟨new, written, -⟩ := id inside
    have complete : getArgC options ≤ words.length := by
      by_contra incomplete
      rw [getNewAnnotation_none (by omega)] at written
      cases written
    have ended := getNewAnnotation_ended written
    have room := (annotationInside_iff complete ended).mp inside
    rw [taken (by omega)] at room
    exact ⟨by omega, ended, room⟩
  · rintro ⟨four, ended, room⟩
    have inside := @annotationInside_iff options words _ _ (by omega) ended
    rw [taken (by omega)] at inside
    refine ⟨inside.mpr room, fun long => ?_⟩
    rw [newNotes_length] at long
    unfold annotationMax at long room
    omega

theorem builds_inside_two :
    BuildsInside (bytesOf slower) (validargs (bytesOf slower)).2 [] (monoStream [10#8, 30#8]) :=
  (builds_inside_iff slower _ (monoStream [10#8, 30#8]) [] [10#8, 30#8] (Prod.ext (by decide) rfl)
    (by decide)).mpr (by decide)

/-- The same command line under a name of 1007 characters. -/
def longName : List Argument :=
  ⟨List.replicate 1007 0x61#8, fun zero => absurd (List.eq_of_mem_replicate zero) (by decide)⟩ ::
    slower.tail

theorem newText_length_four (a b c d : List Byte) :
    (newText [a, b, c, d] []).length = a.length + b.length + c.length + d.length + 4 := by
  simp only [newText, joined, List.intercalate_cons_cons, List.intercalate_singleton,
    List.length_append, List.length_cons, List.length_nil]
  omega

theorem longName_text : (newText (bytesOf longName) []).length = 1016 := by
  refine (newText_length_four (List.replicate 1007 0x61#8) (flag 0x64#8) (flag 0x66#8)
    [0x32#8]).trans ?_
  rw [List.length_replicate]
  rfl

/-- The annotation has 1024 bytes then, and zeros are stored up to index 1030. -/
theorem builds_outside :
    ¬ ∀ (argv : List Argument) (options : Options) (input notes data : List Byte),
      validargs (bytesOf argv) = (true, options) →
      readAnnotation ((readHeader input).2.1.dataOffset - 24) (readHeader input).2.2 =
        some (notes, data) →
      BuildsInside (bytesOf argv) options notes input := by
  intro builds
  have inside := (builds longName _ (monoStream [10#8, 30#8]) [] [10#8, 30#8]
    (Prod.ext (by decide) rfl) (by decide) (by decide) (by decide)).1
  have room := (@annotationInside_iff (validargs (bytesOf longName)).2 (bytesOf longName) [] []
    (by decide) (by decide)).mp inside
  rw [show (bytesOf longName).take (getArgC (validargs (bytesOf longName)).2) = bytesOf longName
    by rfl, longName_text] at room
  exact absurd room (by decide)

end Audible.Recoder
