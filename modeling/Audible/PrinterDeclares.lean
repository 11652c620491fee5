import Audible.PrinterRecords
import Mathlib.Data.List.Nodup

set_option autoImplicit false

/- What a rejected declaration leaves behind (`types.c`, `conversions.c` and `printers.c`). The
commands that declare are run here with any outcome of their allocations. The static indices of
the source are the lengths of the tables. -/
namespace Audible.Imprimer

variable {s s' : Spooler} {world : World} {memory : Memory} {command : Command}

/-- A step of the program. The outcome of the allocations matters to a line that declares. -/
def programStepIn (m : Program) : Memory × ProgramAction → Option Program
  | (memory, .line world prompt input) =>
      match m.main, m.handler with
      | none, none =>
          (executeIn memory world (readCommand input) m.s).map fun s =>
            ⟨s, if prompt then some s.nodes else none, none⟩
      | _, _ => none
  | (_, action) => programStep m action

def Command.declares : Command → Bool
  | .type _ => true
  | .printer _ _ => true
  | .conversion _ _ _ _ => true
  | _ => false

def Reports (s s' : Spooler) : Prop :=
  ∃ events message, s'.events = s.events ++ events ∧ .message (.error message) ∈ events

/-- `typeArray` with the conversions, and `printerArray`. -/
structure Spooler.SameTables (s s' : Spooler) : Prop where
  types : s'.typeArray = s.typeArray
  printers : s'.printer = s.printer
  count : s'.printerCount = s.printerCount

def DistinctNames (typeArray : List FileType) : Prop := (typeArray.map FileType.type).Nodup

def DistinctTargets (typeArray : List FileType) : Prop :=
  ∀ type ∈ typeArray, (type.conversions.map Conversion.type).Nodup

/-- There is room for another type, in memory and in the table. -/
def HasRoom (memory : Memory) (s : Spooler) : Prop :=
  memory.record = true ∧ s.typeArray.length < maxTypes

/-- The name that a command adds, if there is room. -/
def Command.added : Command → Option Text
  | .type name => name
  | _ => none

/-- A `type` command declares a name again, and there is room for it. -/
def Redeclares (memory : Memory) (command : Command) (s : Spooler) : Prop :=
  ∃ name, command.added = some name ∧ (getType s.typeArray name).isSome = true ∧ HasRoom memory s

def RedeclaresIn (m : Program) : Memory × ProgramAction → Prop
  | (memory, .line _ _ input) => Redeclares memory (readCommand input) m.s
  | _ => False

/-- With memory enough, the program is the one of before. -/
theorem programStepIn_enough (m : Program) (action : ProgramAction) :
    programStepIn m (.enough, action) = programStep m action := by
  cases action with
  | line world prompt input =>
      obtain ⟨s, main, handler⟩ := m
      cases main with
      | none => cases handler <;> rfl
      | some nodes => rfl
  | sigchld world reported => rfl
  | round world => rfl

theorem reports_errorMessage (message : String) (s : Spooler) : Reports s (errorMessage message s) :=
  ⟨[.message (.error message)], message, rfl, List.mem_singleton_self _⟩

theorem Talks.sameTables (talks : Talks s s') : s.SameTables s' := by
  obtain ⟨messages, rfl⟩ := talks
  exact ⟨rfl, rfl, rfl⟩

theorem not_reports_of_events (same : s'.events = s.events) : ¬ Reports s s' := by
  rintro ⟨events, message, added, member⟩
  rw [same, List.self_eq_append_right] at added
  rw [added] at member
  cases member

theorem newConversionIn_rejects (type1 type2 program args : Option Text)
    (reports : Reports s (newConversionIn memory type1 type2 program args s)) :
    s.SameTables (newConversionIn memory type1 type2 program args s) := by
  rcases newConversionIn_cases memory type1 type2 program args s with talks | ⟨type, conversion, -, made⟩
  · exact talks.sameTables
  · rw [made] at reports ⊢
    revert reports
    unfold addConversion
    split
    · exact fun _ => ⟨rfl, rfl, rfl⟩
    · split
      · exact fun _ => (talks_errorMessage _ s).sameTables
      · exact fun reports => absurd reports (not_reports_of_events rfl)

theorem newPrinterIn_rejects (name type : Option Text)
    (reports : Reports s (newPrinterIn memory name type s)) :
    s.SameTables (newPrinterIn memory name type s) := by
  rcases newPrinterIn_cases memory name type s with talks | ⟨name, type, made⟩
  · exact talks.sameTables
  · rw [made] at reports
    obtain ⟨events, message, added, member⟩ := reports
    -- the one message is the announcement of the printer
    have announced := List.append_cancel_left added
    rw [← announced, List.mem_singleton] at member
    cases member

def addedType (name : Text) (s : Spooler) : List FileType :=
  s.typeArray ++ [{ type := name, conversions := [] }]

/-- The ways a `type` command goes. -/
theorem newExtensionIn_cases (memory : Memory) (name : Text) (s : Spooler) :
    (¬ HasRoom memory s ∧ Talks s (newExtensionIn memory (some name) s)) ∨
      (HasRoom memory s ∧ (getType s.typeArray name).isSome = true ∧
        newExtensionIn memory (some name) s =
          { errorMessage "Type already defined." s with typeArray := addedType name s }) ∨
      (HasRoom memory s ∧ (getType s.typeArray name).isSome = false ∧
        newExtensionIn memory (some name) s = { s with typeArray := addedType name s }) := by
  unfold newExtensionIn addType HasRoom
  by_cases record : memory.record = true
  · by_cases room : s.typeArray.length < maxTypes
    · right
      cases known : (getType s.typeArray name).isSome with
      | true =>
          left
          refine ⟨⟨record, room⟩, rfl, ?_⟩
          simp [record, known, errorMessage, Spooler.emit, Nat.not_le.mpr room, addedType]
      | false =>
          right
          refine ⟨⟨record, room⟩, rfl, ?_⟩
          simp [record, known, Nat.not_le.mpr room, addedType]
    · left
      refine ⟨fun both => room both.2, ?_⟩
      have full : ∀ later : Spooler, later.typeArray = s.typeArray → Talks later
          (if maxTypes ≤ later.typeArray.length then
            errorMessage "Max types reached. Unable to add type." later
          else { later with typeArray := later.typeArray ++ [{ type := name, conversions := [] }] }) := by
        intro later types
        rw [if_pos (by rw [types]; omega)]
        exact talks_errorMessage _ later
      simp only [record, Bool.not_true, Bool.false_eq_true, if_false]
      split
      · exact (talks_errorMessage _ s).trans (full _ rfl)
      · exact full s rfl
  · left
    refine ⟨fun both => record both.1, ?_⟩
    simp only [record, Bool.not_false, if_true]
    split
    · exact (talks_errorMessage _ s).trans (talks_errorMessage _ _)
    · exact talks_errorMessage _ s

/-- An error is reported and the tables change exactly if a name is declared again. -/
theorem executeIn_rejects (declares : command.declares = true)
    (ran : executeIn memory world command s = some s') :
    (Reports s s' → s.SameTables s') ↔ ¬ Redeclares memory command s := by
  cases command with
  | type name =>
      cases ran
      cases name with
      | none =>
          constructor
          · rintro - ⟨name, none, -⟩
            cases none
          · exact fun _ _ => ⟨rfl, rfl, rfl⟩
      | some name =>
          rcases newExtensionIn_cases memory name s with ⟨none, talks⟩ | ⟨room, known, added⟩ |
            ⟨room, unknown, added⟩
          · constructor
            · rintro - ⟨-, -, -, room⟩
              exact none room
            · exact fun _ _ => talks.sameTables
          · constructor
            · intro rejects
              have same := (rejects (by rw [added]; exact reports_errorMessage _ s)).types
              rw [added] at same
              exact absurd same (by simp [addedType])
            · exact fun fresh => absurd ⟨name, rfl, known, room⟩ fresh
          · constructor
            · rintro - ⟨name', same, known, -⟩
              cases same
              rw [unknown] at known
              cases known
            · exact fun _ reports => absurd reports (not_reports_of_events (by rw [added]))
  | conversion type1 type2 program args =>
      cases ran
      constructor
      · rintro - ⟨name, other, -⟩
        cases other
      · exact fun _ => newConversionIn_rejects type1 type2 program args
  | printer name type =>
      cases ran
      constructor
      · rintro - ⟨name, other, -⟩
        cases other
      · exact fun _ => newPrinterIn_rejects name type
  | _ => cases declares

theorem Talks.types (talks : Talks s s') : s'.typeArray = s.typeArray := talks.sameTables.types

theorem startJob_types {file : Text} {jobid : Nat} (ran : startJob world file jobid s = some s') :
    s'.typeArray = s.typeArray := by
  rcases startJob_cases ran with talks | ⟨id, -, -, rfl⟩
  · exact talks.types
  · rfl

theorem change_types (change : World → Nat → Spooler → Spooler) (inOrder : InOrder change)
    (world : World) (jobid : Nat) (s : Spooler) : (change world jobid s).typeArray = s.typeArray := by
  rcases inOrder world jobid s with talks | ⟨status, -, changes⟩
  · exact talks.types
  · rw [changes]
    rfl

theorem freePrinter_types (name : Text) (s : Spooler) :
    (freePrinter name s).typeArray = s.typeArray := by
  unfold freePrinter
  split <;> rfl

theorem enterHandler_types {reported : Option (Int × ChildStatus)} {nodes : Option (List Nat)}
    (ran : enterHandler world reported s = some (s', nodes)) : s'.typeArray = s.typeArray := by
  refine enterHandler_related (R := fun s s' => s'.typeArray = s.typeArray) rfl
    (fun change reporting jobid => ?_) (fun name next types => ?_) ran
  · exact change_types change reporting.inOrder world jobid s
  · exact (freePrinter_types name next).trans types

theorem print_types {file printers : Option Text} (ran : print world file printers s = some s') :
    s'.typeArray = s.typeArray := by
  obtain ⟨file, after, job, made, ended⟩ := print_cases ran
  have types : after.typeArray = s.typeArray := by
    rcases newPrintJob_cases made with ⟨talks, -⟩ | ⟨before, name, type, set, talks, rfl, -⟩
    · exact talks.types
    · exact talks.types
  rcases ended with ⟨-, rfl⟩ | ⟨jobid, -, started⟩
  · exact types
  · exact (startJob_types started).trans types

theorem execute_types (other : command.declares = false)
    (ran : execute world command s = some s') : s'.typeArray = s.typeArray := by
  cases command with
  | print file printers => exact print_types ran
  | quit => cases ran
  | disable name => exact withName_types disablePrinter_types ran
  | enable name => exact withName_types enablePrinter_types ran
  | printers =>
      cases ran
      exact (talks_foldl _ (fun s id => talks_printerMessage id s) _ s).types
  | jobs =>
      cases ran
      exact (talks_foldl _ (fun s jobid => talks_jobMessage jobid s) _ s).types
  | pause jobID =>
      cases ran
      exact signalJob_types _ _ _ _ jobID s
  | resume jobID =>
      cases ran
      exact signalJob_types _ _ _ _ jobID s
  | cancel jobID =>
      cases ran
      exact signalJob_types _ _ _ _ jobID s
  | help =>
      cases ran
      rfl
  | unknown =>
      cases ran
      rfl
  | type name => cases other
  | printer name type => cases other
  | conversion type1 type2 program args => cases other

theorem addConversion_distinct {type : Text} {conversion : Conversion}
    (fresh : getConversion s.typeArray type conversion.type = none)
    (distinct : DistinctTargets s.typeArray) :
    DistinctTargets (addConversion type conversion s).typeArray := by
  unfold addConversion
  split
  · exact distinct
  · rename_i known found
    split
    · exact distinct
    · intro later member
      rcases List.mem_or_eq_of_mem_set member with old | rfl
      · exact distinct later old
      · have new : ∀ other ∈ known.conversions, other.type ≠ conversion.type := by
          rw [getConversion, found, Option.bind_some, FileType.conversionTo,
            List.find?_eq_none] at fresh
          simpa using fresh
        rw [List.map_append, List.map_singleton, List.nodup_append]
        refine ⟨distinct known (List.mem_of_find?_eq_some found), List.nodup_singleton _, ?_⟩
        intro target old target' same
        obtain ⟨other, inside, rfl⟩ := List.mem_map.mp old
        rw [List.mem_singleton.mp same]
        exact new other inside

theorem newConversionIn_distinct (type1 type2 program args : Option Text)
    (distinct : DistinctTargets s.typeArray) :
    DistinctTargets (newConversionIn memory type1 type2 program args s).typeArray := by
  rcases newConversionIn_cases memory type1 type2 program args s with talks |
    ⟨type, conversion, fresh, made⟩
  · rw [talks.types]
    exact distinct
  · rw [made]
    exact addConversion_distinct (by simpa using fresh) distinct

theorem newConversionIn_names (type1 type2 program args : Option Text) :
    (newConversionIn memory type1 type2 program args s).typeArray.map FileType.type =
      s.typeArray.map FileType.type := by
  rcases newConversionIn_cases memory type1 type2 program args s with talks | ⟨type, conversion, -, made⟩
  · rw [talks.types]
  · rw [made]
    exact addConversion_types _ _ s

/-- No type is added, and the targets of conversions stay apart. -/
structure Spooler.KeepsNames (s s' : Spooler) : Prop where
  names : s'.typeArray.map FileType.type = s.typeArray.map FileType.type
  targets : DistinctTargets s.typeArray → DistinctTargets s'.typeArray

theorem Spooler.keepsNames_of_types (types : s'.typeArray = s.typeArray) : s.KeepsNames s' := by
  constructor
  · rw [types]
  · rw [types]
    exact id

theorem executeIn_adds {name : Text} (adds : command.added = some name) (room : HasRoom memory s)
    (ran : executeIn memory world command s = some s') : s'.typeArray = addedType name s := by
  cases command with
  | type =>
      cases adds
      cases ran
      rcases newExtensionIn_cases memory name s with ⟨none, -⟩ | ⟨-, -, added⟩ | ⟨-, -, added⟩
      · exact absurd room none
      · rw [added]
      · rw [added]
  | _ => cases adds

theorem executeIn_keepsNames (none : command.added = none ∨ ¬ HasRoom memory s)
    (ran : executeIn memory world command s = some s') : s.KeepsNames s' := by
  by_cases declares : command.declares = true
  · cases command with
    | type name =>
        cases ran
        cases name with
        | none => exact Spooler.keepsNames_of_types rfl
        | some name =>
            have full : ¬ HasRoom memory s := none.resolve_left nofun
            rcases newExtensionIn_cases memory name s with ⟨-, talks⟩ | ⟨room, -⟩ | ⟨room, -⟩
            · exact Spooler.keepsNames_of_types talks.types
            · exact absurd room full
            · exact absurd room full
    | printer name type =>
        cases ran
        exact Spooler.keepsNames_of_types (newPrinterIn_types _ name type s)
    | conversion type1 type2 program args =>
        cases ran
        exact ⟨newConversionIn_names type1 type2 program args,
          newConversionIn_distinct type1 type2 program args⟩
    | _ => cases declares
  · apply Spooler.keepsNames_of_types
    apply @execute_types s s' world command (by simpa using declares)
    cases command with
    | type name => exact absurd rfl declares
    | printer name type => exact absurd rfl declares
    | conversion type1 type2 program args => exact absurd rfl declares
    | _ => exact ran

theorem DistinctTargets.added {name : Text} (distinct : DistinctTargets s.typeArray) :
    DistinctTargets (addedType name s) := by
  intro type member
  rcases List.mem_append.mp member with old | new
  · exact distinct type old
  · rw [List.mem_singleton.mp new]
    exact List.nodup_nil

theorem distinctNames_added {name : Text} :
    DistinctNames (addedType name s) ↔
      DistinctNames s.typeArray ∧ (getType s.typeArray name).isSome = false := by
  have known := @getType_isSome_iff s.typeArray name
  rw [DistinctNames, addedType, List.map_append, List.map_singleton, List.nodup_append_comm,
    List.singleton_append, List.nodup_cons, ← known, and_comm, Bool.not_eq_true, DistinctNames]

theorem distinctNames_executeIn (ran : executeIn memory world command s = some s') :
    DistinctNames s'.typeArray ↔
      DistinctNames s.typeArray ∧ ¬ Redeclares memory command s := by
  by_cases room : HasRoom memory s
  · cases added : command.added with
    | none =>
        have names := (executeIn_keepsNames (.inl added) ran).names
        have fresh : ¬ Redeclares memory command s := by
          rintro ⟨name, adds, -⟩
          cases added.symm.trans adds
        simp only [DistinctNames, names, fresh, not_false_eq_true, and_true]
    | some name =>
        rw [executeIn_adds added room ran, distinctNames_added]
        apply and_congr_right
        intro distinct
        constructor
        · rintro unknown ⟨name', same, known, -⟩
          cases added.symm.trans same
          rw [unknown] at known
          cases known
        · intro fresh
          by_contra known
          rw [Bool.not_eq_false] at known
          exact fresh ⟨name, added, known, room⟩
  · have names := (executeIn_keepsNames (.inr room) ran).names
    have fresh : ¬ Redeclares memory command s := by
      rintro ⟨name, -, -, has⟩
      exact room has
    simp only [DistinctNames, names, fresh, not_false_eq_true, and_true]

theorem runRound_types {jobid : Nat} (ran : runRound world jobid s = some s') :
    s'.typeArray = s.typeArray := by
  unfold runRound at ran
  split at ran
  · exact startJob_types ran
  · cases ran
    rfl

/-- A step executes the command of a line, or leaves the types alone. -/
theorem programStepIn_types {m m' : Program} {action : Memory × ProgramAction}
    (ran : programStepIn m action = some m') :
    (∃ memory world prompt input, action = (memory, .line world prompt input) ∧
      executeIn memory world (readCommand input) m.s = some m'.s) ∨
      (¬ RedeclaresIn m action ∧ m'.s.typeArray = m.s.typeArray) := by
  obtain ⟨memory, action⟩ := action
  cases action with
  | line world prompt input =>
      simp only [programStepIn] at ran
      split at ran
      · obtain ⟨next, executed, rfl⟩ := Option.map_eq_some_iff.mp ran
        exact .inl ⟨memory, world, prompt, input, rfl, executed⟩
      · cases ran
  | sigchld world reported =>
      right
      refine ⟨id, ?_⟩
      simp only [programStepIn, programStep] at ran
      split at ran
      · obtain ⟨⟨next, nodes⟩, entered, rfl⟩ := Option.map_eq_some_iff.mp ran
        exact enterHandler_types entered
      · cases ran
  | round world =>
      right
      refine ⟨id, ?_⟩
      simp only [programStepIn, programStep] at ran
      split at ran
      · cases ran
        rfl
      · obtain ⟨next, round, rfl⟩ := Option.map_eq_some_iff.mp ran
        exact runRound_types round
      · cases ran
        obtain ⟨nodes, -, -, removed⟩ := removeJobs_eq world m.s
        rw [removed]
      · obtain ⟨next, round, rfl⟩ := Option.map_eq_some_iff.mp ran
        exact runRound_types round
      · cases ran

theorem distinctNames_step {m m' : Program} {action : Memory × ProgramAction}
    (ran : programStepIn m action = some m') :
    DistinctNames m'.s.typeArray ↔ DistinctNames m.s.typeArray ∧ ¬ RedeclaresIn m action := by
  rcases programStepIn_types ran with ⟨memory, world, prompt, input, rfl, executed⟩ | ⟨fresh, same⟩
  · exact distinctNames_executeIn executed
  · rw [same, and_iff_left fresh]

theorem distinctTargets_step {m m' : Program} {action : Memory × ProgramAction}
    (distinct : DistinctTargets m.s.typeArray) (ran : programStepIn m action = some m') :
    DistinctTargets m'.s.typeArray := by
  rcases programStepIn_types ran with ⟨memory, world, prompt, input, rfl, executed⟩ | ⟨-, same⟩
  · cases added : (readCommand input).added with
    | none => exact (executeIn_keepsNames (.inl added) executed).targets distinct
    | some name =>
        by_cases room : HasRoom memory m.s
        · rw [executeIn_adds added room executed]
          exact distinct.added
        · exact (executeIn_keepsNames (.inr room) executed).targets distinct
  · rw [same]
    exact distinct

/-- In every run of the program, a declaration that reports an error leaves all tables as they are
exactly if it does not declare a type again for which there is room. The names of the types are
distinct exactly if no line has done so; the targets of each type's conversions are in any case. -/
theorem declaration_rejected_iff {actions : List (Memory × ProgramAction)} {m : Program}
    (ran : Runs.run programStepIn .init actions = some m) :
    (∀ memory world command s', command.declares = true →
      executeIn memory world command m.s = some s' →
      ((Reports m.s s' → m.s.SameTables s') ↔ ¬ Redeclares memory command m.s)) ∧
    (DistinctNames m.s.typeArray ↔
      Runs.Follows programStepIn (fun m action => ¬ RedeclaresIn m action) .init actions) ∧
    DistinctTargets m.s.typeArray := by
  refine ⟨fun memory world command s' declares executed => executeIn_rejects declares executed,
    ?_, ?_⟩
  · have run := Runs.follows_iff (fun m : Program => DistinctNames m.s.typeArray)
      (fun _ _ _ => distinctNames_step) actions ran
    rw [run, and_iff_right]
    exact List.nodup_nil
  · apply Runs.Reachable.invariant (fun m : Program => DistinctTargets m.s.typeArray) _ _
      (Runs.reachable_run actions .refl (Runs.follows_any actions) ran)
    · intro type member
      cases member
    · exact fun m action m' distinct _ ran => distinctTargets_step distinct ran

def declareLine (input : String) : Memory × ProgramAction := (⟨true, true⟩, batchLine input)

theorem declaration_rejected_two :
    Runs.Follows programStepIn (fun m action => ¬ RedeclaresIn m action) .init
      [declareLine "type txt", declareLine "type pdf"] := by
  have runs : (Runs.run programStepIn .init [declareLine "type txt", declareLine "type pdf"]).any
      (fun m => decide (m.s.typeArray.map FileType.type).Nodup) = true := by decide +kernel
  obtain ⟨m, ran, distinct⟩ := (Option.any_eq_true _ _).mp runs
  have distinct : DistinctNames m.s.typeArray := by simpa [DistinctNames] using distinct
  exact (declaration_rejected_iff ran).2.1.mp distinct

/-- A type is declared twice: the second command reports an error and adds it all the same. -/
theorem not_always_rejected :
    ¬ ∀ m, Runs.Reachable programStepIn Runs.Any .init m →
      (∀ memory world command s', command.declares = true →
        executeIn memory world command m.s = some s' → Reports m.s s' → m.s.SameTables s') ∧
      DistinctNames m.s.typeArray ∧ DistinctTargets m.s.typeArray := by
  intro always
  have runs : (Runs.run programStepIn .init [declareLine "type txt"]).any
      (fun m => (getType m.s.typeArray "txt".toList).isSome && decide (m.s.typeArray.length < 31)) =
        true := by decide +kernel
  obtain ⟨m, ran, declared⟩ := (Option.any_eq_true _ _).mp runs
  obtain ⟨known, room⟩ := Bool.and_eq_true_iff.mp declared
  have reached := Runs.reachable_run _ .refl (Runs.follows_any _) ran
  have again : Redeclares ⟨true, true⟩ (.type (some "txt".toList)) m.s :=
    ⟨_, rfl, known, rfl, of_decide_eq_true room⟩
  have executed : executeIn ⟨true, true⟩ quietWorld (.type (some "txt".toList)) m.s = some _ := rfl
  exact (executeIn_rejects rfl executed).mp ((always m reached).1 _ _ _ _ rfl executed) again

end Audible.Imprimer
