import Audible.PrinterRecords
import Mathlib.Data.List.TakeWhile

set_option autoImplicit false

/- The file that `print` opens, and the one that `getFile` makes of the stored job (`main.c` and
`helpers.c`). -/
namespace Audible.Imprimer

variable {s s₁ s₂ : Spooler} {world : World} {jobid : Nat} {file name type rest left : Text}
variable {printers : Option Text} {delimiters : List Char} {token text : Text}

/-- What `strtok` skips, returns and leaves. -/
theorem strtok_parts (found : strtok delimiters text = some (token, rest)) :
    ∃ skipped after, text = skipped ++ token ++ after ∧ (∀ c ∈ skipped, c ∈ delimiters) ∧
      (∀ c ∈ token, c ∉ delimiters) ∧ token ≠ [] ∧
      (after = [] ∧ rest = [] ∨ ∃ c ∈ delimiters, after = c :: rest) := by
  unfold strtok at found
  dsimp only at found
  split at found
  · cases found
  · rename_i nonempty
    cases found
    refine ⟨text.takeWhile (· ∈ delimiters),
      (text.dropWhile (· ∈ delimiters)).dropWhile (· ∉ delimiters), ?_, ?_, ?_, ?_, ?_⟩
    · rw [List.append_assoc, List.takeWhile_append_dropWhile, List.takeWhile_append_dropWhile]
    · exact fun c member => by simpa using List.mem_takeWhile_imp member
    · exact fun c member => by simpa using List.mem_takeWhile_imp member
    · obtain ⟨c, more, is⟩ := List.exists_cons_of_ne_nil nonempty
      have kept : c ∉ delimiters := by
        have first := List.head_dropWhile_not (· ∈ delimiters) nonempty
        simp only [is, List.head_cons] at first
        simpa using first
      rw [is, List.takeWhile_cons_of_pos (by simpa using kept)]
      exact List.cons_ne_nil _ _
    · cases ends : (text.dropWhile (· ∈ delimiters)).dropWhile (· ∉ delimiters) with
      | nil => exact .inl ⟨rfl, rfl⟩
      | cons c more =>
          right
          have last := List.head_dropWhile_not (· ∉ delimiters) (ne_of_eq_of_ne ends (by simp))
          simp only [ends, List.head_cons] at last
          exact ⟨c, by simpa using last, rfl⟩

/-- The file does not begin with a dot, and no line ends after its first dot. -/
def Plain (file : Text) : Prop :=
  file.head? ≠ some '.' ∧ '\n' ∉ file.dropWhile (· ≠ '.')

theorem dropWhile_name (inName : ∀ c ∈ name, c ∉ ['.']) (rest : Text) :
    (name ++ '.' :: rest).dropWhile (· ≠ '.') = '.' :: rest := by
  rw [List.dropWhile_append_of_pos, List.dropWhile_cons_of_neg (by simp)]
  exact fun c member => by simpa using inName c member

/-- Name and type make up the file again if and only if `strtok` has skipped and left nothing. -/
theorem rejoins_iff (first : strtok ['.'] file = some (name, rest))
    (second : strtok ['\n'] rest = some (type, left)) :
    name ++ '.' :: type = file ↔ Plain file := by
  obtain ⟨dots, _, is, alldots, inName, nonempty, ⟨-, rfl⟩ | ⟨dot, member, rfl⟩⟩ := strtok_parts first
  · cases second
  obtain rfl : dot = '.' := by simpa using member
  obtain ⟨lines, tail, is', alllines, inType, -, ends⟩ := strtok_parts second
  have whole : file = dots ++ (name ++ '.' :: rest) := by rw [is, List.append_assoc]
  constructor
  · intro same
    have lengths := congrArg List.length same
    rw [whole, is'] at lengths
    simp only [List.length_append, List.length_cons] at lengths
    obtain rfl : dots = [] := List.length_eq_zero_iff.mp (by omega)
    rw [← same]
    constructor
    · obtain ⟨c, more, rfl⟩ := List.exists_cons_of_ne_nil nonempty
      simpa using inName c (by simp)
    · rw [dropWhile_name inName]
      intro line
      rcases List.mem_cons.mp line with other | later
      · cases other
      · exact inType _ later (by simp)
  · rintro ⟨noDot, noLine⟩
    obtain rfl : dots = [] := by
      cases dots with
      | nil => rfl
      | cons c dots =>
          obtain rfl : c = '.' := by simpa using alldots c (by simp)
          exact absurd (by simp [whole]) noDot
    rw [whole, List.nil_append, dropWhile_name inName, is'] at noLine
    simp only [List.mem_cons, List.mem_append, not_or] at noLine
    obtain ⟨-, ⟨noneBefore, -⟩, noneAfter⟩ := noLine
    obtain rfl : lines = [] := by
      cases lines with
      | nil => rfl
      | cons c lines =>
          obtain rfl : c = '\n' := by simpa using alllines c (by simp)
          exact absurd (by simp) noneBefore
    obtain ⟨rfl, -⟩ | ⟨c, line, rfl⟩ := ends
    · rw [whole, is', List.nil_append, List.nil_append, List.append_nil]
    · obtain rfl : c = '\n' := by simpa using line
      exact absurd (by simp) noneAfter

/-- `print` runs the job on the file it was given; whenever the job is run later, it is on that file
if and only if the file is plain. -/
theorem reopens_iff (made : newPrintJob world file printers s = (s₁, some jobid))
    (printed : print world (some file) printers s = some s₂) {main handler : Option (List Nat)}
    {m : Program} (later : Runs.Reachable programStep Runs.Any ⟨s₂, main, handler⟩ m) :
    print world (some file) printers s = startJob world file jobid (jobMessage jobid s₁) ∧
      (getFile (m.s.job jobid) = file ↔ Plain file) := by
  have starts : print world (some file) printers s =
      startJob world file jobid (jobMessage jobid s₁) := by
    simp only [print, Option.bind_eq_bind, Option.bind_some, made]
  refine ⟨starts, ?_⟩
  obtain ⟨before, name, rest, type, left, set, -, first, second, -, rfl, rfl⟩ :=
    newPrintJob_stored made
  rw [starts] at printed
  have keeps := ((talks_jobMessage _ _).keeps.trans (startJob_keeps printed)).trans
    (keeps_of_reachable later)
  have inside : before.jobCount < (newJob world name type 0 set before).jobCount := Nat.lt_succ_self _
  rw [← rejoins_iff first second, getFile, keeps.fileName _ inside, keeps.fileType _ inside]
  simp [newJob, addJob]

/-- A program in which a type is declared, and a job that it accepts and has no printer for. -/
theorem exists_printed (file : Text) (test : Text → Bool)
    (passes : (Runs.run programStep .init [batchLine "type txt"]).any (fun m =>
      decide ((newPrintJob quietWorld file none m.s).2 = some 0) &&
        (print quietWorld (some file) none m.s).any fun s₂ => test (getFile (s₂.job 0))) = true) :
    ∃ (m : Program) (s₁ s₂ : Spooler), Runs.Reachable programStep Runs.Any .init m ∧
      newPrintJob quietWorld file none m.s = (s₁, some 0) ∧
      print quietWorld (some file) none m.s = some s₂ ∧ test (getFile (s₂.job 0)) = true := by
  obtain ⟨m, ran, passed⟩ := (Option.any_eq_true _ _).mp passes
  rw [Bool.and_eq_true] at passed
  obtain ⟨s₂, printed, tested⟩ := (Option.any_eq_true _ _).mp passed.2
  exact ⟨m, _, s₂, Runs.reachable_run _ .refl (Runs.follows_any _) ran,
    Prod.ext rfl (of_decide_eq_true passed.1), printed, tested⟩

theorem reopens_notes : ∃ (m : Program) (s₁ s₂ : Spooler),
    Runs.Reachable programStep Runs.Any .init m ∧
    print quietWorld (some "notes.txt".toList) none m.s =
      startJob quietWorld "notes.txt".toList 0 (jobMessage 0 s₁) ∧
    (getFile (s₂.job 0) = "notes.txt".toList ↔ Plain "notes.txt".toList) := by
  obtain ⟨m, s₁, s₂, reached, made, printed, -⟩ :=
    exists_printed "notes.txt".toList (fun _ => true) (by decide +kernel)
  have later : Runs.Reachable programStep Runs.Any ⟨s₂, none, none⟩ ⟨s₂, none, none⟩ := .refl
  exact ⟨m, s₁, s₂, reached, reopens_iff made printed later⟩

/-- A path relative to the directory becomes one from the root. -/
theorem not_always_reopens :
    ¬ ∀ m, Runs.Reachable programStep Runs.Any .init m →
      ∀ (world : World) (file : Text) (printers : Option Text) (s₁ s₂ : Spooler) (jobid : Nat),
        newPrintJob world file printers m.s = (s₁, some jobid) →
        print world (some file) printers m.s = some s₂ →
        ∀ m', Runs.Reachable programStep Runs.Any ⟨s₂, m.main, m.handler⟩ m' →
          getFile (m'.s.job jobid) = file := by
  intro always
  obtain ⟨m, s₁, s₂, reached, made, printed, other⟩ :=
    exists_printed "./x.txt".toList (fun path => decide (path = "/x.txt".toList)) (by decide +kernel)
  have same := always m reached _ _ _ s₁ s₂ 0 made printed _ .refl
  rw [of_decide_eq_true other] at same
  exact absurd same (by decide)

end Audible.Imprimer
