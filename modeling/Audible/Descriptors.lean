import Mathlib.Logic.Function.Basic

set_option autoImplicit false

/- The descriptors of a process, and how calls that open, close and duplicate them change what they
stand for. -/
namespace Descriptors

variable {File : Type}

/-- What each descriptor stands for. From `limit` on all of them are closed. -/
structure Table (File : Type) where
  file : Nat → Option File
  limit : Nat
  above : ∀ fd, limit ≤ fd → file fd = none

def Table.closed : Table File where
  file := fun _ => none
  limit := 0
  above := fun _ _ => rfl

/-- The lowest descriptor that is closed. -/
def Table.lowest (t : Table File) : Nat :=
  ((List.range t.limit).find? fun fd => (t.file fd).isNone).getD t.limit

def Table.set (t : Table File) (fd : Nat) (file : Option File) : Table File where
  file := Function.update t.file fd file
  limit := max t.limit (fd + 1)
  above := by
    intro other high
    have different : other ≠ fd := by omega
    rw [Function.update_of_ne different]
    exact t.above other (by omega)

def Table.openFile (t : Table File) (file : File) : Nat × Table File :=
  (t.lowest, t.set t.lowest (some file))

def Table.close (t : Table File) (fd : Nat) : Table File := t.set fd none

/-- Nothing happens if the old descriptor is closed. -/
def Table.dup2 (t : Table File) (old new : Nat) : Table File :=
  match t.file old with
  | none => t
  | some file => t.set new (some file)

/-- The two ends of a pipe get the lowest closed descriptors, the read end first. -/
def Table.pipe (t : Table File) (readEnd writeEnd : File) : (Nat × Nat) × Table File :=
  let (first, t) := t.openFile readEnd
  let (second, t) := t.openFile writeEnd
  ((first, second), t)

variable {t : Table File} {fd other old new : Nat} {file readEnd writeEnd : File}

theorem file_lowest (t : Table File) : t.file t.lowest = none := by
  unfold Table.lowest
  cases found : (List.range t.limit).find? fun fd => (t.file fd).isNone with
  | none => exact t.above _ (Nat.le_refl _)
  | some fd => simpa using List.find?_some found

theorem ne_lowest (is_open : t.file fd ≠ none) : fd ≠ t.lowest := by
  rintro rfl
  exact is_open (file_lowest t)

theorem file_set (t : Table File) (fd : Nat) (file : Option File) (other : Nat) :
    (t.set fd file).file other = if other = fd then file else t.file other :=
  Function.update_apply ..

@[simp] theorem file_close (t : Table File) (fd other : Nat) :
    (t.close fd).file other = if other = fd then none else t.file other := file_set ..

theorem file_dup2 (held : t.file old = some file) (other : Nat) :
    (t.dup2 old new).file other = if other = new then some file else t.file other := by
  unfold Table.dup2
  rw [held]
  exact file_set ..

/-- The ends of a new pipe have two descriptors that were closed; nothing else changes. -/
structure Piped (t t' : Table File) (readEnd writeEnd : File) (first second : Nat) : Prop where
  first_closed : t.file first = none
  second_closed : t.file second = none
  different : first ≠ second
  file : ∀ fd, t'.file fd =
    if fd = second then some writeEnd else if fd = first then some readEnd else t.file fd

theorem Piped.kept {t' : Table File} {first second : Nat}
    (piped : Piped t t' readEnd writeEnd first second) (held : t.file fd = some file) :
    t'.file fd = some file := by
  have notFirst : fd ≠ first := by
    rintro rfl
    cases piped.first_closed.symm.trans held
  have notSecond : fd ≠ second := by
    rintro rfl
    cases piped.second_closed.symm.trans held
  rw [piped.file, if_neg notSecond, if_neg notFirst, held]

theorem pipe_spec (t : Table File) (readEnd writeEnd : File) :
    Piped t (t.pipe readEnd writeEnd).2 readEnd writeEnd (t.pipe readEnd writeEnd).1.1
      (t.pipe readEnd writeEnd).1.2 := by
  have closed := file_lowest (t.set t.lowest (some readEnd))
  have different : t.lowest ≠ (t.set t.lowest (some readEnd)).lowest := by
    refine ne_lowest ?_
    simp [file_set]
  refine ⟨file_lowest t, ?_, different, fun fd => ?_⟩
  · rwa [file_set, if_neg different.symm] at closed
  · refine (file_set ..).trans ?_
    congr 1
    exact file_set ..

variable [DecidableEq File]

def Table.holds (t : Table File) (file : File) : Bool :=
  (List.range t.limit).any fun fd => t.file fd = some file

theorem holds_iff : t.holds file = true ↔ ∃ fd, t.file fd = some file := by
  constructor
  · intro held
    obtain ⟨fd, -, same⟩ := List.any_eq_true.mp held
    exact ⟨fd, of_decide_eq_true same⟩
  · rintro ⟨fd, same⟩
    refine List.any_eq_true.mpr ⟨fd, List.mem_range.mpr ?_, decide_eq_true same⟩
    by_contra high
    rw [t.above fd (Nat.le_of_not_lt high)] at same
    cases same

theorem holds_eq_false (absent : ∀ fd, t.file fd ≠ some file) : t.holds file = false := by
  refine eq_false_of_ne_true fun held => ?_
  obtain ⟨fd, same⟩ := holds_iff.mp held
  exact absent fd same

end Descriptors
