import Audible.PrinterData
import Audible.Runs
import Mathlib.Data.List.Basic

set_option autoImplicit false

/- What `getConversionPath` finds (`conversions.c`). -/
namespace Audible.Imprimer

inductive Declaration
  | extension (name : Option Text)
  | conversion (type1 type2 program args : Option Text)

def declare (s : Spooler) : Declaration → Option Spooler
  | .extension name => some (newExtension name s)
  | .conversion type1 type2 program args => some (newConversion type1 type2 program args s)

variable {typeArray : List FileType} {f p : Text} {path : List Conversion}

def conversionsOf (typeArray : List FileType) (type : Text) : List Conversion :=
  ((getType typeArray type).map FileType.conversions).getD []

/-- Declared conversions from one type to another, each applied to what the one before it
produces. -/
inductive Chain (typeArray : List FileType) : Text → Text → List Conversion → Prop
  | last {f : Text} {conversion : Conversion} (declared : conversion ∈ conversionsOf typeArray f) :
      Chain typeArray f conversion.type [conversion]
  | cons {f p : Text} {conversion : Conversion} {path : List Conversion}
      (declared : conversion ∈ conversionsOf typeArray f)
      (rest : Chain typeArray conversion.type p path) :
      Chain typeArray f p (conversion :: path)

/-- What the search is charged for a chain: the positions of its conversions in the lists of their
types, counted from 1, without the last one. -/
def cost (typeArray : List FileType) : Text → List Conversion → Nat
  | _, [] => 0
  | _, [_] => 0
  | f, conversion :: path =>
      (conversionsOf typeArray f).idxOf conversion + 1 + cost typeArray conversion.type path

def Declared (typeArray : List FileType) : Prop :=
  ∀ type ∈ typeArray, ∀ conversion ∈ type.conversions,
    (getType typeArray conversion.type).isSome = true

theorem declared_of_mem (declared : Declared typeArray) {conversion : Conversion}
    (member : conversion ∈ conversionsOf typeArray f) :
    (getType typeArray conversion.type).isSome = true := by
  unfold conversionsOf at member
  cases found : getType typeArray f with
  | none =>
      rw [found] at member
      cases member
  | some type =>
      rw [found] at member
      exact declared type (List.mem_of_find?_eq_some found) conversion member

theorem getConversion_eq (f p : Text) :
    getConversion typeArray f p =
      (conversionsOf typeArray f).find? fun conversion => conversion.type = p := by
  unfold getConversion conversionsOf
  cases getType typeArray f <;> rfl

/-- What the loop returns comes from the first of its calls that does not return NULL. -/
theorem searchConversions_found {loops : Nat} {conversions : List Conversion}
    (found : searchConversions typeArray p loops conversions = some path) (nonempty : path ≠ []) :
    ∃ index conversion rest, conversions[index]? = some conversion ∧ index < loops ∧
      path = conversion :: rest ∧ rest ≠ [] ∧
      getConversionPath typeArray conversion.type p (loops - (index + 1)) = some rest ∧
      ∀ earlier < index, ∀ other, conversions[earlier]? = some other →
        getConversionPath typeArray other.type p (loops - (earlier + 1)) = some [] := by
  induction loops generalizing conversions with
  | zero =>
      unfold searchConversions at found
      split at found
      · cases found
        exact absurd rfl nonempty
      · cases found
  | succ loops ih =>
      cases conversions with
      | nil =>
          cases found
          exact absurd rfl nonempty
      | cons conversion conversions =>
          unfold searchConversions at found
          obtain ⟨first, called, found⟩ := Option.bind_eq_some_iff.mp found
          split at found
          · rename_i returned
            cases found
            exact ⟨0, conversion, first, rfl, by omega, rfl, returned, called, by simp⟩
          · rename_i null
            rw [not_not] at null
            obtain ⟨index, later, rest, at_, below, path, returned, found, before⟩ := ih found
            have less : ∀ k, loops + 1 - (k + 1 + 1) = loops - (k + 1) := by omega
            refine ⟨index + 1, later, rest, at_, by omega, path, returned, ?_, ?_⟩
            · rw [less]
              exact found
            · intro earlier below other at_
              cases earlier with
              | zero =>
                  cases at_
                  exact null ▸ called
              | succ earlier =>
                  rw [less]
                  exact before earlier (by omega) other at_

theorem searchConversions_empty {loops : Nat} {conversions : List Conversion}
    (missed : searchConversions typeArray p loops conversions = some []) {index : Nat}
    {conversion : Conversion} (at_ : conversions[index]? = some conversion) (below : index < loops)
    {rest : List Conversion}
    (called : getConversionPath typeArray conversion.type p (loops - (index + 1)) = some rest) :
    rest = [] := by
  induction loops generalizing conversions index with
  | zero => omega
  | succ loops ih =>
      cases conversions with
      | nil => cases at_
      | cons first conversions =>
          unfold searchConversions at missed
          obtain ⟨path, returned, missed⟩ := Option.bind_eq_some_iff.mp missed
          split at missed
          · cases missed
          · rename_i null
            cases index with
            | zero =>
                cases at_
                change getConversionPath typeArray conversion.type p loops = some path at returned
                rw [show loops + 1 - (0 + 1) = loops by omega, returned] at called
                cases called
                simpa using null
            | succ index =>
                apply ih missed at_ (by omega)
                rw [show loops + 1 - (index + 1 + 1) = loops - (index + 1) by omega] at called
                exact called

/-- A call for a declared type returns if its loop does. -/
theorem enterType_isSome {loops : Nat} {search : List Conversion → Option (List Conversion)}
    (known : (getType typeArray f).isSome = true)
    (returns : (search (conversionsOf typeArray f)).isSome = true) :
    (enterType typeArray f p loops search).isSome = true := by
  obtain ⟨type, found⟩ := Option.isSome_iff_exists.mp known
  have conversions : conversionsOf typeArray f = type.conversions := by
    rw [conversionsOf, found]
    rfl
  rw [conversions] at returns
  unfold enterType
  rw [found]
  simp only [Option.bind_eq_bind, Option.bind_some]
  split
  · rfl
  · split
    · rfl
    · exact returns

theorem searchConversions_isSome (declared : Declared typeArray) (loops : Nat)
    (conversions : List Conversion)
    (known : ∀ conversion ∈ conversions, (getType typeArray conversion.type).isSome = true) :
    (searchConversions typeArray p loops conversions).isSome = true := by
  induction loops generalizing conversions with
  | zero =>
      unfold searchConversions
      rw [if_pos (by simpa using known)]
      rfl
  | succ loops ih =>
      cases conversions with
      | nil => rfl
      | cons conversion conversions =>
          have first : (enterType typeArray conversion.type p loops
              (searchConversions typeArray p loops)).isSome = true := by
            apply enterType_isSome
            · exact known conversion (by simp)
            · exact ih _ fun later member => declared_of_mem declared member
          obtain ⟨path, returned⟩ := Option.isSome_iff_exists.mp first
          unfold searchConversions
          rw [returned]
          simp only [Option.bind_eq_bind, Option.bind_some]
          split
          · rfl
          · exact ih _ fun later member => known later (by simp [member])

theorem getConversionPath_isSome (declared : Declared typeArray)
    (known : (getType typeArray f).isSome = true) (p : Text) (loops : Nat) :
    (getConversionPath typeArray f p loops).isSome = true := by
  apply enterType_isSome known
  apply searchConversions_isSome declared
  exact fun _ member => declared_of_mem declared member

theorem idxOf_le_of_getElem? {conversions : List Conversion} {conversion : Conversion} {index : Nat}
    (at_ : conversions[index]? = some conversion) : conversions.idxOf conversion ≤ index := by
  apply Nat.le_of_not_lt
  intro before
  have different := List.not_of_lt_findIdx before
  obtain ⟨below, same⟩ := List.getElem?_eq_some_iff.mp at_
  rw [same] at different
  simp at different

/-- What a call returns that is not NULL. -/
theorem getConversionPath_found {loops : Nat}
    (found : getConversionPath typeArray f p loops = some path) (nonempty : path ≠ []) :
    f ≠ p ∧ 0 < loops ∧
      ((∃ conversion ∈ conversionsOf typeArray f, conversion.type = p ∧ path = [conversion]) ∨
        (∀ conversion ∈ conversionsOf typeArray f, conversion.type ≠ p) ∧
          searchConversions typeArray p loops (conversionsOf typeArray f) = some path) := by
  unfold getConversionPath enterType at found
  obtain ⟨type, known, found⟩ := Option.bind_eq_some_iff.mp found
  have conversions : conversionsOf typeArray f = type.conversions := by
    rw [conversionsOf, known]
    rfl
  split at found
  · cases found
    exact absurd rfl nonempty
  · rename_i enters
    rw [not_or, not_or] at enters
    refine ⟨enters.2.1, by omega, ?_⟩
    split at found
    · rename_i conversion direct
      rw [getConversion_eq] at direct
      cases found
      left
      refine ⟨conversion, List.mem_of_find?_eq_some direct, ?_, rfl⟩
      simpa using List.find?_some direct
    · rename_i direct
      rw [getConversion_eq, List.find?_eq_none] at direct
      right
      refine ⟨by simpa using direct, ?_⟩
      rw [conversions]
      exact found

/-- The search is sound, and keeps to its budget. -/
theorem getConversionPath_sound (loops : Nat)
    (found : getConversionPath typeArray f p loops = some path) (nonempty : path ≠ []) :
    Chain typeArray f p path ∧ cost typeArray f path < loops := by
  induction loops using Nat.strongRecOn generalizing f path with
  | _ loops ih =>
      obtain ⟨-, positive, direct | ⟨-, searched⟩⟩ := getConversionPath_found found nonempty
      · obtain ⟨conversion, declared, rfl, rfl⟩ := direct
        exact ⟨.last declared, positive⟩
      · obtain ⟨index, conversion, rest, at_, below, rfl, more, called, -⟩ :=
          searchConversions_found searched nonempty
        obtain ⟨chain, bound⟩ := ih (loops - (index + 1)) (by omega) called more
        have declared : conversion ∈ conversionsOf typeArray f := List.mem_of_getElem? at_
        constructor
        · exact .cons declared chain
        · have position := idxOf_le_of_getElem? at_
          cases rest with
          | nil => exact absurd rfl more
          | cons next rest =>
              rw [cost]
              · omega
              · simp

/-- A call that returns NULL with some budget has found no conversion, neither directly nor in its
loop. -/
theorem getConversionPath_null {loops : Nat} {conversion : Conversion}
    (null : getConversionPath typeArray f p loops = some []) (different : f ≠ p)
    (positive : 0 < loops) (member : conversion ∈ conversionsOf typeArray f) :
    conversion.type ≠ p ∧
      searchConversions typeArray p loops (conversionsOf typeArray f) = some [] := by
  unfold getConversionPath enterType at null
  obtain ⟨type, known, null⟩ := Option.bind_eq_some_iff.mp null
  have conversions : conversionsOf typeArray f = type.conversions := by
    rw [conversionsOf, known]
    rfl
  have enters : ¬ (type.conversions = [] ∨ f = p ∨ loops = 0) := by
    rw [← conversions, not_or, not_or]
    exact ⟨List.ne_nil_of_mem member, different, by omega⟩
  rw [if_neg enters] at null
  split at null
  · cases null
  · rename_i direct
    rw [getConversion_eq] at direct
    constructor
    · simpa using List.find?_eq_none.mp direct conversion member
    · rw [conversions]
      exact null

/-- A chain within the budget is found, or another one. -/
theorem getConversionPath_complete (declared : Declared typeArray) {chain : List Conversion}
    (linked : Chain typeArray f p chain) (loops : Nat) (different : f ≠ p)
    (cheap : cost typeArray f chain < loops) :
    getConversionPath typeArray f p loops ≠ some [] := by
  induction linked generalizing loops with
  | @last f conversion member =>
      intro null
      exact (getConversionPath_null null different (by omega) member).1 rfl
  | @cons f p conversion rest member tail ih =>
      intro null
      obtain ⟨indirect, searched⟩ := getConversionPath_null null different (by omega) member
      have budget : (conversionsOf typeArray f).idxOf conversion + 1 +
          cost typeArray conversion.type rest < loops := by
        cases rest with
        | nil => cases tail
        | cons next rest =>
            rw [cost] at cheap
            · exact cheap
            · simp
      obtain ⟨path, called⟩ := Option.isSome_iff_exists.mp (getConversionPath_isSome declared
        (declared_of_mem declared member) p
        (loops - ((conversionsOf typeArray f).idxOf conversion + 1)))
      have null := searchConversions_empty searched (List.getElem?_idxOf member) (by omega) called
      rw [null] at called
      exact ih _ indirect (by omega) called

theorem getType_isSome_iff {name : Text} :
    (getType typeArray name).isSome = true ↔ name ∈ typeArray.map FileType.type := by
  simp [getType]

/-- The names of the types are not changed by a conversion. -/
theorem map_type_set {type : Text} {grown : FileType} (name : grown.type = type)
    (known : (getType typeArray type).isSome = true) :
    (typeArray.set (typeArray.findIdx fun known => known.type = type) grown).map FileType.type =
      typeArray.map FileType.type := by
  have below : typeArray.findIdx (fun known => known.type = type) < typeArray.length := by
    rw [List.findIdx_lt_length]
    simpa [getType] using known
  have here := List.findIdx_getElem (w := below)
  rw [List.map_set, name]
  apply List.ext_getElem
  · simp
  · intro index inside inside'
    rw [List.getElem_set]
    split
    · rename_i same
      subst same
      exact (by simpa using here : _ = type).symm
    · rfl

theorem addConversion_types (type : Text) (conversion : Conversion) (s : Spooler) :
    (addConversion type conversion s).typeArray.map FileType.type =
      s.typeArray.map FileType.type := by
  unfold addConversion
  split
  · rfl
  · rename_i known found
    split
    · rfl
    · have name : known.type = type := by simpa using List.find?_some found
      exact @map_type_set s.typeArray type
        { known with conversions := known.conversions ++ [conversion] } name (by rw [found]; rfl)

theorem Declared.addConversion {s : Spooler} {type : Text} {conversion : Conversion}
    (declared : Declared s.typeArray)
    (target : (getType s.typeArray conversion.type).isSome = true) :
    Declared (addConversion type conversion s).typeArray := by
  have names := addConversion_types type conversion s
  intro later member inner inside
  rw [getType_isSome_iff, names, ← getType_isSome_iff]
  unfold Imprimer.addConversion at member
  split at member
  · exact declared later member inner inside
  · rename_i known found
    split at member
    · exact declared later member inner inside
    · rcases List.mem_or_eq_of_mem_set member with old | rfl
      · exact declared later old inner inside
      · rcases List.mem_append.mp inside with old | new
        · exact declared known (List.mem_of_find?_eq_some found) inner old
        · rw [List.mem_singleton.mp new]
          exact target

theorem Declared.snoc (declared : Declared typeArray) (name : Text) :
    Declared (typeArray ++ [{ type := name, conversions := [] }]) := by
  intro type member conversion inside
  rcases List.mem_append.mp member with old | new
  · have known := declared type old conversion inside
    rw [getType_isSome_iff] at known ⊢
    rw [List.map_append]
    exact List.mem_append_left _ known
  · rw [List.mem_singleton.mp new] at inside
    cases inside

theorem Declared.addType {s : Spooler} (declared : Declared s.typeArray) (name : Text) :
    Declared (addType { type := name, conversions := [] } s).typeArray := by
  unfold Imprimer.addType
  split
  · exact declared
  · exact declared.snoc name

theorem Declared.declare {s s' : Spooler} {declaration : Declaration}
    (declared : Declared s.typeArray) (declares : declare s declaration = some s') :
    Declared s'.typeArray := by
  cases declaration with
  | extension name =>
      cases declares
      unfold newExtension newExtensionIn
      split
      · exact declared
      · apply Declared.addType
        split
        · exact declared
        · exact declared
  | conversion type1 type2 program args =>
      cases declares
      unfold newConversion newConversionIn
      split
      · rename_i type1 type2 program
        split
        · exact declared
        · rename_i known
          simp only [Memory.enough, Bool.not_true, Bool.false_eq_true, if_false]
          split
          · exact declared
          · apply Declared.addConversion declared
            rw [not_or] at known
            rw [Option.isSome_iff_ne_none]
            simpa using known.2
      · exact declared

theorem addType_known {s : Spooler} {name : Text} (type : FileType)
    (known : name ∈ s.typeArray.map FileType.type) :
    name ∈ (addType type s).typeArray.map FileType.type := by
  unfold addType
  split
  · exact known
  · rw [List.map_append]
    exact List.mem_append_left _ known

/-- Types are added only. -/
theorem declare_known {s s' : Spooler} {declaration : Declaration} {name : Text}
    (declares : declare s declaration = some s') (known : (getType s.typeArray name).isSome = true) :
    (getType s'.typeArray name).isSome = true := by
  rw [getType_isSome_iff] at known ⊢
  cases declaration with
  | extension added =>
      cases declares
      unfold newExtension newExtensionIn
      split
      · exact known
      · apply addType_known
        split
        · exact known
        · exact known
  | conversion type1 type2 program args =>
      cases declares
      unfold newConversion newConversionIn
      split
      · split_ifs
        · exact known
        · exact known
        · exact known
        · exact known
        · rw [addConversion_types]
          exact known
      · exact known

theorem declared_of_reachable {s : Spooler} (reached : Runs.Reachable declare Runs.Any .init s) :
    Declared s.typeArray := by
  apply Runs.Reachable.invariant (fun s : Spooler => Declared s.typeArray) _ _ reached
  · intro type member
    cases member
  · intro s declaration s' declared _ declares
    exact declared.declare declares

/-- The search returns NULL or a chain of declared conversions; it returns NULL exactly if the two
types are the same or no chain from one to the other costs less than `MAX_CONVERSIONS`. -/
theorem getConversionPath_spec {s : Spooler} (reached : Runs.Reachable declare Runs.Any .init s)
    (f p : Text) (source : (getType s.typeArray f).isSome = true) :
    ∃ path, getConversionPath s.typeArray f p maxConversions = some path ∧
      (path = [] ∨ Chain s.typeArray f p path) ∧
      (path = [] ↔ f = p ∨ ∀ chain, Chain s.typeArray f p chain →
        maxConversions ≤ cost s.typeArray f chain) := by
  have declared := declared_of_reachable reached
  obtain ⟨path, found⟩ := Option.isSome_iff_exists.mp
    (getConversionPath_isSome declared source p maxConversions)
  refine ⟨path, found, ?_, ?_⟩
  · by_cases null : path = []
    · exact .inl null
    · exact .inr (getConversionPath_sound _ found null).1
  · constructor
    · intro null
      rw [null] at found
      by_cases same : f = p
      · exact .inl same
      · right
        intro chain linked
        apply Nat.le_of_not_lt
        intro cheap
        exact getConversionPath_complete declared linked _ same cheap found
    · intro missing
      by_contra nonempty
      rcases missing with same | expensive
      · exact (getConversionPath_found found nonempty).1 same
      · obtain ⟨linked, cheap⟩ := getConversionPath_sound _ found nonempty
        have bound := expensive path linked
        omega

def declarations (types : List Text) (conversions : List (Text × Text)) : List Declaration :=
  types.map (fun type => .extension (some type)) ++
    conversions.map fun (type1, type2) => .conversion (some type1) (some type2) (some []) none

def declareAll (types : List Text) (conversions : List (Text × Text)) : Spooler :=
  (Runs.run declare .init (declarations types conversions)).getD .init

theorem run_declare (s : Spooler) (declarations : List Declaration) :
    ∃ final, Runs.run declare s declarations = some final := by
  induction declarations generalizing s with
  | nil => exact ⟨s, rfl⟩
  | cons declaration declarations ih =>
      cases declaration with
      | extension name => exact ih _
      | conversion type1 type2 program args => exact ih _

theorem reachable_declareAll (types : List Text) (conversions : List (Text × Text)) :
    Runs.Reachable declare Runs.Any .init (declareAll types conversions) := by
  obtain ⟨final, ran⟩ := run_declare .init (declarations types conversions)
  rw [declareAll, ran]
  exact Runs.reachable_run _ .refl (Runs.follows_any _) ran

theorem getConversionPath_spec_example :
    ∃ path, getConversionPath (declareAll [['a'], ['b']] [(['a'], ['b'])]).typeArray ['a'] ['b']
        maxConversions = some path ∧
      (path = [] ∨ Chain (declareAll [['a'], ['b']] [(['a'], ['b'])]).typeArray ['a'] ['b'] path) ∧
      (path = [] ↔ ['a'] = ['b'] ∨
        ∀ chain, Chain (declareAll [['a'], ['b']] [(['a'], ['b'])]).typeArray ['a'] ['b'] chain →
          maxConversions ≤ cost (declareAll [['a'], ['b']] [(['a'], ['b'])]).typeArray ['a'] chain) :=
  getConversionPath_spec (reachable_declareAll _ _) ['a'] ['b'] (by decide)

def stations : List Text := [['a'], ['b'], ['c'], ['d'], ['e'], ['f'], ['g'], ['h'], ['i']]

def deadEnds : List Text := [['A'], ['B'], ['C'], ['D'], ['E'], ['F'], ['G'], ['H']]

/-- Nine types in a row; each but the last also has conversions, declared first, to eight types
that have none. -/
def detours : Spooler :=
  declareAll (stations ++ deadEnds)
    ((stations.zip stations.tail).flatMap fun (type, next) =>
      (deadEnds ++ [next]).map fun target => (type, target))

/-- The budget is used up by dead ends. -/
theorem search_gives_up :
    ¬ ∀ s : Spooler, Runs.Reachable declare Runs.Any .init s → ∀ f p : Text,
      (getType s.typeArray f).isSome = true → (getType s.typeArray p).isSome = true →
      ∃ path, getConversionPath s.typeArray f p maxConversions = some path ∧
        (path = [] ∨ Chain s.typeArray f p path) ∧
        (path = [] → f = p ∨ ∀ chain, ¬ Chain s.typeArray f p chain) := by
  intro always
  have next : ∀ pair ∈ stations.zip stations.tail,
      { type := pair.2, program := [], args := none } ∈ conversionsOf detours.typeArray pair.1 := by
    decide +kernel
  have linked : ∃ chain, Chain detours.typeArray ['a'] ['i'] chain :=
    ⟨_, .cons (next (['a'], ['b']) (by decide)) (.cons (next (['b'], ['c']) (by decide))
      (.cons (next (['c'], ['d']) (by decide)) (.cons (next (['d'], ['e']) (by decide))
      (.cons (next (['e'], ['f']) (by decide)) (.cons (next (['f'], ['g']) (by decide))
      (.cons (next (['g'], ['h']) (by decide)) (.last (next (['h'], ['i']) (by decide)))))))))⟩
  have null : getConversionPath detours.typeArray ['a'] ['i'] maxConversions = some [] := by
    decide +kernel
  obtain ⟨path, found, -, missing⟩ := always detours (reachable_declareAll _ _) ['a'] ['i']
    (by decide +kernel) (by decide +kernel)
  rw [null] at found
  cases found
  obtain ⟨chain, linked⟩ := linked
  rcases missing rfl with same | none
  · exact absurd same (by decide)
  · exact none chain linked

end Audible.Imprimer
