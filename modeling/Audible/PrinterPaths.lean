import Audible.PrinterConversions

set_option autoImplicit false

/- Whether the path that `getConversionPath` finds comes back to a type (`conversions.c`). -/
namespace Audible.Imprimer

variable {typeArray : List FileType} {f p : Text} {path chain : List Conversion} {loops : Nat}

/-- No type is passed through twice. -/
def Simple (f : Text) (path : List Conversion) : Prop :=
  (f :: path.map Conversion.type).Nodup

instance (f : Text) (path : List Conversion) : Decidable (Simple f path) :=
  inferInstanceAs (Decidable (List.Nodup _))

/-- The rounds of the loop in which the search takes the conversions of a chain, counted from 1. The
last one is found before the loop. -/
def rounds (typeArray : List FileType) : Text → List Conversion → List Nat
  | _, [] => []
  | _, [_] => [0]
  | f, conversion :: path =>
      ((conversionsOf typeArray f).idxOf conversion + 1) :: rounds typeArray conversion.type path

/-- The search comes to a chain before another one. -/
def Sooner (typeArray : List FileType) (f : Text) (chain other : List Conversion) : Prop :=
  List.Lex (· < ·) (rounds typeArray f chain) (rounds typeArray f other)

/-- A chain that the search has the budget for. -/
structure Affordable (typeArray : List FileType) (f p : Text) (loops : Nat)
    (chain : List Conversion) : Prop where
  linked : Chain typeArray f p chain
  cheap : cost typeArray f chain < loops

/-- Of the chains that the search has the budget for, those that come back to a type come after one
that does not. -/
def SimpleFirst (typeArray : List FileType) (f p : Text) (loops : Nat) : Prop :=
  ∀ chain, Affordable typeArray f p loops chain → ¬ Simple f chain →
    ∃ first, Affordable typeArray f p loops first ∧ Simple f first ∧ Sooner typeArray f first chain

/-- A chain is a conversion, or one before another chain. -/
theorem Chain.split (linked : Chain typeArray f p chain) :
    ∃ conversion ∈ conversionsOf typeArray f,
      (conversion.type = p ∧ chain = [conversion]) ∨
        ∃ rest, Chain typeArray conversion.type p rest ∧ rest ≠ [] ∧ chain = conversion :: rest := by
  cases linked with
  | last declared => exact ⟨_, declared, .inl ⟨rfl, rfl⟩⟩
  | cons declared tail =>
      refine ⟨_, declared, .inr ⟨_, tail, ?_, rfl⟩⟩
      rintro rfl
      cases tail

theorem rounds_cons {conversion : Conversion} {rest : List Conversion} (longer : rest ≠ []) :
    rounds typeArray f (conversion :: rest) =
      ((conversionsOf typeArray f).idxOf conversion + 1) :: rounds typeArray conversion.type rest := by
  rw [rounds]
  exact longer

theorem cost_cons {conversion : Conversion} {rest : List Conversion} (longer : rest ≠ []) :
    cost typeArray f (conversion :: rest) =
      (conversionsOf typeArray f).idxOf conversion + 1 + cost typeArray conversion.type rest := by
  rw [cost]
  exact longer

theorem getConversionPath_affordable (found : getConversionPath typeArray f p loops = some path)
    (nonempty : path ≠ []) : Affordable typeArray f p loops path :=
  have ⟨linked, cheap⟩ := getConversionPath_sound _ found nonempty
  ⟨linked, cheap⟩

/-- Chains that are come to in the same rounds pass through the same types. -/
theorem types_of_rounds {other : List Conversion} (linked : Chain typeArray f p chain)
    (linked' : Chain typeArray f p other)
    (same : rounds typeArray f chain = rounds typeArray f other) :
    chain.map Conversion.type = other.map Conversion.type := by
  induction chain generalizing f other with
  | nil => cases linked
  | cons first chain ih =>
      obtain ⟨conversion, declared, ⟨last, is⟩ | ⟨rest, tail, longer, is⟩⟩ := linked.split
      all_goals obtain ⟨rfl, rfl⟩ := List.cons.inj is
      all_goals
        obtain ⟨conversion', declared', ⟨last', rfl⟩ | ⟨rest', tail', longer', rfl⟩⟩ := linked'.split
      · rw [List.map_singleton, List.map_singleton, last, last']
      · rw [rounds_cons longer'] at same
        cases same
      · rw [rounds_cons longer] at same
        cases same
      · rw [rounds_cons longer, rounds_cons longer'] at same
        obtain ⟨head, same⟩ := List.cons.inj same
        obtain rfl : first = conversion' := (List.idxOf_inj declared).mp (by omega)
        rw [List.map_cons, List.map_cons, ih tail tail' same]

/-- The search returns the first of the chains that it has the budget for. -/
theorem getConversionPath_first (declared : Declared typeArray)
    (found : getConversionPath typeArray f p loops = some path) (nonempty : path ≠ [])
    (affordable : Affordable typeArray f p loops chain) :
    rounds typeArray f path = rounds typeArray f chain ∨ Sooner typeArray f path chain := by
  induction loops using Nat.strongRecOn generalizing f path chain with
  | _ loops ih =>
      obtain ⟨linked, cheap⟩ := affordable
      obtain ⟨different, positive, direct | ⟨indirect, searched⟩⟩ :=
        getConversionPath_found found nonempty
      · obtain ⟨conversion, -, -, rfl⟩ := direct
        obtain ⟨other, -, ⟨-, rfl⟩ | ⟨tail, -, longer, rfl⟩⟩ := linked.split
        · exact .inl rfl
        · right
          rw [Sooner, rounds_cons longer]
          exact .rel (Nat.succ_pos _)
      · obtain ⟨index, conversion, rest, at_, below, rfl, more, called, before⟩ :=
          searchConversions_found searched nonempty
        obtain ⟨other, member, ⟨last, -⟩ | ⟨tail, after, longer, rfl⟩⟩ := linked.split
        · exact absurd last (indirect other member)
        · rw [cost_cons longer] at cheap
          have later : index ≤ (conversionsOf typeArray f).idxOf other := by
            by_contra earlier
            exact getConversionPath_complete declared after _ (indirect other member) (by omega)
              (before _ (by omega) other (List.getElem?_idxOf member))
          have position := idxOf_le_of_getElem? at_
          rw [Sooner, rounds_cons more, rounds_cons longer]
          rcases Nat.lt_or_ge ((conversionsOf typeArray f).idxOf conversion)
              ((conversionsOf typeArray f).idxOf other) with sooner | same
          · exact .inr (.rel (by omega))
          · obtain rfl : conversion = other :=
              (List.idxOf_inj (List.mem_of_getElem? at_)).mp (by omega)
            rcases ih _ (by omega) called more ⟨after, by omega⟩ with together | sooner
            · exact .inl (by rw [together])
            · exact .inr (.cons sooner)

/-- The path that is found is simple if and only if the first chain that the search has the budget
for is. -/
theorem simple_iff {s : Spooler} (reached : Runs.Reachable declare Runs.Any .init s) (f p : Text) :
    (∀ path, getConversionPath s.typeArray f p maxConversions = some path → path ≠ [] →
      Simple f path) ↔ f = p ∨ SimpleFirst s.typeArray f p maxConversions := by
  have declared := declared_of_reachable reached
  constructor
  · intro simple
    by_cases same : f = p
    · exact .inl same
    · right
      intro chain affordable loops
      have known : (getType s.typeArray f).isSome = true := by
        obtain ⟨conversion, member, -⟩ := affordable.linked.split
        unfold conversionsOf at member
        cases found : getType s.typeArray f with
        | none => simp [found] at member
        | some type => rfl
      obtain ⟨path, found⟩ := Option.isSome_iff_exists.mp
        (getConversionPath_isSome declared known p maxConversions)
      have nonempty : path ≠ [] := by
        rintro rfl
        exact getConversionPath_complete declared affordable.linked _ same affordable.cheap found
      have least := getConversionPath_affordable found nonempty
      refine ⟨path, least, simple path found nonempty, ?_⟩
      rcases getConversionPath_first declared found nonempty affordable with together | sooner
      · rw [Simple, ← types_of_rounds least.linked affordable.linked together] at loops
        exact absurd (simple path found nonempty) loops
      · exact sooner
  · rintro (same | first) path found nonempty
    · exact absurd same (getConversionPath_found found nonempty).1
    · by_contra loops
      obtain ⟨chain, affordable, -, sooner⟩ := first path
        (getConversionPath_affordable found nonempty) loops
      rcases getConversionPath_first declared found nonempty affordable with together | later
      · rw [Sooner, together] at sooner
        exact List.lex_irrefl Nat.lt_irrefl _ sooner
      · exact List.lex_asymm Nat.lt_asymm sooner later

/-- A type with a conversion to a second one and back. The way on, by a third, is declared first. -/
def onward : Spooler :=
  declareAll [['a'], ['b'], ['c'], ['d']]
    [(['a'], ['c']), (['c'], ['d']), (['a'], ['b']), (['b'], ['a'])]

theorem simple_iff_onward :
    (∀ path, getConversionPath onward.typeArray ['a'] ['d'] maxConversions = some path → path ≠ [] →
      Simple ['a'] path) ↔
      ['a'] = ['d'] ∨ SimpleFirst onward.typeArray ['a'] ['d'] maxConversions :=
  simple_iff (reachable_declareAll _ _) ['a'] ['d']

/-- The same types, with the way on declared last. -/
def backAndForth : Spooler :=
  declareAll [['a'], ['b'], ['c'], ['d']]
    [(['a'], ['b']), (['b'], ['a']), (['a'], ['c']), (['c'], ['d'])]

/-- The search goes back and forth until the budget is almost used up, and then on. -/
theorem not_always_simple :
    ¬ ∀ s : Spooler, Runs.Reachable declare Runs.Any .init s → ∀ f p : Text,
      ∀ path, getConversionPath s.typeArray f p maxConversions = some path → path ≠ [] →
        Simple f path := by
  intro always
  have loops : (getConversionPath backAndForth.typeArray ['a'] ['d'] maxConversions).any
      (fun path => path ≠ [] ∧ ¬ Simple ['a'] path) = true := by
    decide +kernel
  obtain ⟨path, found, looping⟩ := (Option.any_eq_true _ _).mp loops
  obtain ⟨nonempty, twice⟩ := of_decide_eq_true looping
  exact twice (always backAndForth (reachable_declareAll _ _) ['a'] ['d'] path found nonempty)

end Audible.Imprimer
