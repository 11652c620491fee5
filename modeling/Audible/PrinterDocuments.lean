import Audible.PrinterPrinting

set_option autoImplicit false

/- When the process of a job succeeds, what it prints then, and when it never ends. -/
namespace Audible.Pipeline

open Descriptors Imprimer Relating

variable {host : Host} {path front back : List Conversion} {conversion : Conversion}
variable {input output document : List UInt8} {n : Nat}

def converted (host : Host) (input : List UInt8) (conversion : Conversion) : List UInt8 :=
  ((host.execute (argumentsOf conversion)).map fun filter => (filter input).1).getD []

def composed (host : Host) (path : List Conversion) (document : List UInt8) : List UInt8 :=
  path.foldl (converted host) document

/-- The program can be executed, and does not exit with `EXIT_FAILURE`. Being killed by a signal, or
another status, is no failure. -/
def Succeeds (host : Host) (argv : List Text) (input : List UInt8) : Prop :=
  ∃ filter, host.execute argv = some filter ∧ (filter input).2 ≠ .exited 1

/-- A conversion has its process, its output fits into the pipe, it succeeds, and the next one gets
its pipe. -/
structure Stage (host : Host) (n : Nat) (input : List UInt8) (conversion : Conversion)
    (back : List Conversion) : Prop where
  fork : host.forks n = true
  fits : (converted host input conversion).length ≤ host.capacity
  succeeds : Succeeds host (argumentsOf conversion) input
  pipe : back ≠ [] → host.pipes (n + 2) = true

theorem not_succeeds_of_refused {argv : List Text} (refused : host.execute argv = none) :
    ¬ Succeeds host argv input := by
  rintro ⟨filter, program, -⟩
  cases refused.symm.trans program

theorem succeeds_iff {argv : List Text} {filter : Filter} (program : host.execute argv = some filter) :
    Succeeds host argv input ↔ (filter input).2 ≠ .exited 1 := by
  constructor
  · rintro ⟨other, same, success⟩
    cases program.symm.trans same
    exact success
  · exact fun success => ⟨filter, program, success⟩

/-- What a conversion comes to: its output, a failure, or a wait. -/
theorem convert_cases (host : Host) (conversion : Conversion) (input : List UInt8) :
    convert host conversion input =
      match host.execute (argumentsOf conversion) with
      | none => .error (.exited 1)
      | some filter =>
          if (filter input).1.length ≤ host.capacity then
            if (filter input).2 = .exited 1 then .error (.exited 1) else .ok (filter input).1
          else .error .waits := by
  unfold convert runFilter
  cases host.execute (argumentsOf conversion) with
  | none => rfl
  | some filter =>
      dsimp only
      split <;> rfl

theorem convert_eq_ok : convert host conversion input = .ok output ↔
    output = converted host input conversion ∧
      (converted host input conversion).length ≤ host.capacity ∧
      Succeeds host (argumentsOf conversion) input := by
  rw [convert_cases]
  cases program : host.execute (argumentsOf conversion) with
  | none => simp [not_succeeds_of_refused program]
  | some filter =>
      have made : converted host input conversion = (filter input).1 := by
        rw [converted, program]
        rfl
      dsimp only
      rw [made, succeeds_iff program]
      by_cases fits : (filter input).1.length ≤ host.capacity
      · by_cases failed : (filter input).2 = .exited 1
        · simp [fits, failed]
        · simp [fits, failed, eq_comm]
      · simp [fits]

@[simp] theorem spareFork_eq_ok {done : Unit} : spareFork host n = .ok done ↔ host.forks n = true := by
  unfold spareFork
  split <;> simp [*]

@[simp] theorem sparePipe_eq_ok {done : Unit} : sparePipe host n = .ok done ↔ host.pipes n = true := by
  unfold sparePipe
  split <;> simp [*]

/-- A conversion, the first that does not do its part, writes more than a pipe can hold. -/
inductive Fills (host : Host) : List Conversion → Nat → List UInt8 → Prop
  | here {conversion : Conversion} {path : List Conversion} {n : Nat} {input : List UInt8}
      (fork : host.forks n = true)
      (overflows : host.capacity < (converted host input conversion).length) :
      Fills host (conversion :: path) n input
  | later {conversion : Conversion} {path : List Conversion} {n : Nat} {input : List UInt8}
      (stage : Stage host n input conversion path)
      (rest : Fills host path (n + 1) (converted host input conversion)) :
      Fills host (conversion :: path) n input

theorem convert_waits : convert host conversion input = .error .waits ↔
    host.capacity < (converted host input conversion).length := by
  rw [convert_cases]
  unfold converted
  cases host.execute (argumentsOf conversion) with
  | none => simp
  | some filter =>
      by_cases fits : (filter input).1.length ≤ host.capacity
      · by_cases failed : (filter input).2 = .exited 1 <;> simp [fits, failed]
      · simp [Nat.lt_of_not_le fits]

theorem convertAll_waits : convertAll host path n input = .error .waits ↔ Fills host path n input := by
  induction path generalizing n input with
  | nil =>
      refine iff_of_false (fun ran => by cases ran) fun fills => ?_
      cases fills
  | cons conversion path ih =>
      have spared : ∀ {spare : Bool}, (if spare then (.ok () : Except Outcome Unit)
          else .error (.exited 1)) ≠ .error .waits := by
        intro spare
        cases spare <;> simp
      unfold convertAll
      constructor
      · intro ran
        rcases bind_eq_error.mp ran with ran | ⟨_, fork, ran⟩
        · exact absurd ran spared
        · rcases bind_eq_error.mp ran with ran | ⟨made, first, ran⟩
          · exact .here (spareFork_eq_ok.mp fork) (convert_waits.mp ran)
          · obtain ⟨rfl, fits, succeeds⟩ := convert_eq_ok.mp first
            split at ran
            · cases ran
            · rcases bind_eq_error.mp ran with ran | ⟨_, pipe, ran⟩
              · exact absurd ran spared
              · exact .later ⟨spareFork_eq_ok.mp fork, fits, succeeds,
                  fun _ => sparePipe_eq_ok.mp pipe⟩ (ih.mp ran)
      · intro fills
        cases fills with
        | here fork overflows =>
            exact bind_eq_error.mpr (.inr ⟨(), spareFork_eq_ok.mpr fork,
              bind_eq_error.mpr (.inl (convert_waits.mpr overflows))⟩)
        | later stage rest =>
            have more : path ≠ [] := by
              rintro rfl
              cases rest
            refine bind_eq_error.mpr (.inr ⟨(), spareFork_eq_ok.mpr stage.fork,
              bind_eq_error.mpr (.inr ⟨_, convert_eq_ok.mpr ⟨rfl, stage.fits, stage.succeeds⟩, ?_⟩)⟩)
            rw [if_neg more]
            exact bind_eq_error.mpr (.inr ⟨(), sparePipe_eq_ok.mpr (stage.pipe more), ih.mpr rest⟩)

theorem convertedDocument_waits : convertedDocument host (some path) = .error .waits ↔
    ∃ document, host.file = some document ∧ host.pipes 0 = true ∧ host.pipes 1 = true ∧
      Fills host path 0 document := by
  have spared : ∀ n, sparePipe host n ≠ .error .waits := by
    intro n
    unfold sparePipe
    split <;> simp
  unfold convertedDocument
  constructor
  · intro ran
    rcases bind_eq_error.mp ran with ran | ⟨document, found, ran⟩
    · unfold findDocument at ran
      split at ran <;> cases ran
    · have opens : host.file = some document := by
        unfold findDocument at found
        split at found
        · cases found
        · rename_i file opens
          cases found
          exact opens
      rcases bind_eq_error.mp ran with ran | ⟨_, first, ran⟩
      · exact absurd ran (spared 0)
      · rcases bind_eq_error.mp ran with ran | ⟨_, second, ran⟩
        · exact absurd ran (spared 1)
        · exact ⟨document, opens, sparePipe_eq_ok.mp first, sparePipe_eq_ok.mp second,
            convertAll_waits.mp ran⟩
  · rintro ⟨document, opens, first, second, fills⟩
    have found : findDocument host = .ok document := by
      unfold findDocument
      rw [opens]
    exact bind_eq_error.mpr (.inr ⟨document, found, bind_eq_error.mpr (.inr ⟨(),
      sparePipe_eq_ok.mpr first, bind_eq_error.mpr (.inr ⟨(), sparePipe_eq_ok.mpr second,
        convertAll_waits.mpr fills⟩)⟩)⟩)

/-- The process of a job never ends exactly if a conversion writes more than a pipe can hold, after
others that have done their part: the next program is only started when the conversion has
ended. -/
theorem jobProcess_waits {table : Table Stream} (inherited : Inherited table) :
    (jobProcess host (some path) table).1 = .waits ↔ ∃ document, host.file = some document ∧
      host.pipes 0 = true ∧ host.pipes 1 = true ∧ Fills host path 0 document := by
  rw [(@jobProcess_refines host _ inherited (some path)).outcome, ← convertedDocument_waits]
  unfold spoolDocument
  cases convertedDocument host (some path) with
  | error outcome => simp
  | ok output =>
      have ends : (printOutput host path.length output).1 ≠ .waits := by
        unfold printOutput printerOutcome
        cases host.execute getPrinterArgs <;> split <;> simp
        split <;> simp
      simpa using ends

-- Two conversions, of a document that is turned round and then repeated.

def standardThree : Table Stream :=
  ((Table.closed.set 0 (some .inherited)).set 1 (some .inherited)).set 2 (some .inherited)

theorem inherited_three : Inherited standardThree := by
  have file : ∀ x, standardThree.file x = if x = 2 then some .inherited
      else if x = 1 then some .inherited else if x = 0 then some .inherited else none := by
    intro x
    simp only [standardThree, file_set]
    rfl
  refine ⟨by rw [file]; rfl, by rw [file]; rfl, fun x f held => ?_⟩
  rw [file] at held
  split_ifs at held <;> exact (Option.some.inj held).symm

def twoPrograms (capacity : Nat) : Host where
  file := some [1, 2, 3]
  stdin := []
  pipes := fun _ => true
  forks := fun _ => true
  capacity := capacity
  execute := fun argv =>
    if argv = getPrinterArgs then some fun input => (input, .exited 0)
    else if argv = [['r', 'e', 'v']] then some fun input => (input.reverse, .exited 0)
    else if argv = [['d', 'u', 'p']] then some fun input => (input ++ input, .signaled)
    else none
  printer := true

def twoConversions : List Conversion :=
  [⟨['b'], ['r', 'e', 'v'], none⟩, ⟨['c'], ['d', 'u', 'p'], none⟩]

theorem jobProcess_waits_example :
    (jobProcess (twoPrograms 4) (some twoConversions) standardThree).1 = .waits := by
  have waits : convertAll (twoPrograms 4) twoConversions 0 [1, 2, 3] = .error .waits := rfl
  exact (jobProcess_waits inherited_three).mpr ⟨_, rfl, rfl, rfl, convertAll_waits.mp waits⟩

end Audible.Pipeline
