import Mathlib.Algebra.Order.Group.Multiset
import Mathlib.Data.Multiset.Bind
import Mathlib.Logic.Function.Basic
import Mathlib.Tactic.Abel

set_option autoImplicit false

/- Parts of a memory as collections of cells: addresses, each with what is known of its value. A
sum of collections is held only where its parts have no address in common. -/
namespace Cells

section Holds

variable {A V : Type} {memory memory' : A → Option V} {cells cells' rest : Multiset (A × (V → Prop))}
variable {a b : A} {v w : V} {known known' : V → Prop}

def cell (a : A) (known : V → Prop) : Multiset (A × (V → Prop)) := {(a, known)}

/-- The value is known. -/
def value (a : A) (v : V) : Multiset (A × (V → Prop)) := cell a (· = v)

/-- Nothing is known of the value. -/
def raw (V : Type) (a : A) : Multiset (A × (V → Prop)) := cell a fun _ => True

/-- The addresses of the cells differ, and the memory has values there of which that is known. -/
structure Holds (memory : A → Option V) (cells : Multiset (A × (V → Prop))) : Prop where
  apart : (cells.map Prod.fst).Nodup
  agrees : ∀ c ∈ cells, ∃ v, memory c.1 = some v ∧ c.2 v

@[simp] theorem mem_cell {c : A × (V → Prop)} : c ∈ cell a known ↔ c = (a, known) :=
  Multiset.mem_singleton

@[simp] theorem map_cell {B : Type} (f : A × (V → Prop) → B) :
    (cell a known).map f = {f (a, known)} :=
  Multiset.map_singleton f (a, known)

theorem Holds.left (holds : Holds memory (cells + cells')) : Holds memory cells := by
  refine ⟨?_, fun c member => holds.agrees c (Multiset.mem_add.mpr (.inl member))⟩
  have apart := holds.apart
  rw [Multiset.map_add, Multiset.nodup_add] at apart
  exact apart.1

theorem Holds.right (holds : Holds memory (cells + cells')) : Holds memory cells' := by
  rw [add_comm] at holds
  exact holds.left

/-- Cells on the two sides of a sum have different addresses. -/
theorem Holds.ne (holds : Holds memory (cells + cells')) {c d : A × (V → Prop)} (left : c ∈ cells)
    (right : d ∈ cells') : c.1 ≠ d.1 := by
  intro same
  have apart := holds.apart
  rw [Multiset.map_add, Multiset.nodup_add] at apart
  refine Multiset.disjoint_left.mp apart.2.2 (Multiset.mem_map_of_mem Prod.fst left) ?_
  rw [same]
  exact Multiset.mem_map_of_mem Prod.fst right

theorem Holds.read (holds : Holds memory (cell a known + rest)) :
    ∃ v, memory a = some v ∧ known v :=
  holds.agrees (a, known) (Multiset.mem_add.mpr (.inl (mem_cell.mpr rfl)))

theorem Holds.value (holds : Holds memory (value a v + rest)) : memory a = some v := by
  obtain ⟨w, here, rfl⟩ := holds.read
  exact here

theorem Holds.congr (holds : Holds memory cells)
    (same : ∀ c ∈ cells, memory' c.1 = memory c.1) : Holds memory' cells := by
  refine ⟨holds.apart, fun c member => ?_⟩
  rw [same c member]
  exact holds.agrees c member

theorem Holds.weaken (holds : Holds memory (cell a known + rest))
    (weaker : ∀ v, known v → known' v) : Holds memory (cell a known' + rest) := by
  constructor
  · simpa using holds.apart
  · intro c member
    rcases Multiset.mem_add.mp member with at_a | elsewhere
    · obtain rfl := mem_cell.mp at_a
      obtain ⟨v, here, is⟩ := holds.read
      exact ⟨v, here, weaker v is⟩
    · exact holds.right.agrees c elsewhere

theorem Holds.reads (holds : Holds memory (cell a known + rest)) (here : memory a = some v) :
    Holds memory (Cells.value a v + rest) := by
  constructor
  · simpa [Cells.value] using holds.apart
  · intro c member
    rcases Multiset.mem_add.mp member with at_a | elsewhere
    · obtain rfl := mem_cell.mp at_a
      exact ⟨v, here, rfl⟩
    · exact holds.right.agrees c elsewhere

theorem Holds.write [DecidableEq A] (holds : Holds memory (cell a known + rest)) (is : known' w) :
    Holds (Function.update memory a (some w)) (cell a known' + rest) := by
  constructor
  · simpa using holds.apart
  · intro c member
    rcases Multiset.mem_add.mp member with at_a | elsewhere
    · obtain rfl := mem_cell.mp at_a
      exact ⟨w, Function.update_self .., is⟩
    · have other : a ≠ c.1 := holds.ne (mem_cell.mpr rfl) elsewhere
      rw [Function.update_of_ne other.symm]
      exact holds.right.agrees c elsewhere

/-- Cells are added whose addresses are new. -/
theorem Holds.extend (holds : Holds memory cells) (new : Holds memory' cells')
    (apart : ∀ c ∈ cells', ∀ d ∈ cells, c.1 ≠ d.1)
    (same : ∀ c ∈ cells, memory' c.1 = memory c.1) : Holds memory' (cells' + cells) := by
  constructor
  · rw [Multiset.map_add, Multiset.nodup_add]
    refine ⟨new.apart, holds.apart, Multiset.disjoint_left.mpr fun added old => ?_⟩
    obtain ⟨c, member, rfl⟩ := Multiset.mem_map.mp added
    obtain ⟨d, held, meet⟩ := Multiset.mem_map.mp old
    exact apart c member d held meet.symm
  · intro c member
    rcases Multiset.mem_add.mp member with added | old
    · exact new.agrees c added
    · exact (holds.congr same).agrees c old

end Holds

section Words

variable {V : Type} {a : Nat} {known : V → Prop} {memory : Nat → Option V}

/-- What is known of the values at consecutive addresses. -/
def words (a : Nat) : List (V → Prop) → Multiset (Nat × (V → Prop))
  | [] => 0
  | known :: rest => cell a known + words (a + 1) rest

def values (a : Nat) (vs : List V) : Multiset (Nat × (V → Prop)) := words a (vs.map fun v w => w = v)

/-- Consecutive addresses. -/
def raws (V : Type) (a count : Nat) : Multiset (Nat × (V → Prop)) :=
  words a (List.replicate count fun _ => True)

@[simp] theorem words_nil : words a ([] : List (V → Prop)) = 0 := rfl

@[simp] theorem words_cons (rest : List (V → Prop)) :
    words a (known :: rest) = cell a known + words (a + 1) rest := rfl

theorem words_append (first second : List (V → Prop)) :
    words a (first ++ second) = words a first + words (a + first.length) second := by
  induction first generalizing a with
  | nil => simp
  | cons v first ih =>
      simp only [List.cons_append, words_cons, ih, List.length_cons, add_assoc]
      rw [Nat.add_comm 1 first.length]

theorem mem_words {list : List (V → Prop)} {c : Nat × (V → Prop)} :
    c ∈ words a list ↔ a ≤ c.1 ∧ list[c.1 - a]? = some c.2 := by
  induction list generalizing a with
  | nil => simp
  | cons v list ih =>
      obtain ⟨address, known⟩ := c
      simp only [words_cons, Multiset.mem_add, mem_cell, ih, Prod.mk.injEq]
      constructor
      · rintro (⟨rfl, rfl⟩ | ⟨after, found⟩)
        · simp
        · refine ⟨by omega, ?_⟩
          rw [show address - a = address - (a + 1) + 1 by omega, List.getElem?_cons_succ]
          exact found
      · rintro ⟨after, found⟩
        by_cases first : address = a
        · subst first
          simp only [Nat.sub_self, List.getElem?_cons_zero, Option.some.injEq] at found
          exact .inl ⟨rfl, found.symm⟩
        · refine .inr ⟨by omega, ?_⟩
          rw [show address - a = address - (a + 1) + 1 by omega, List.getElem?_cons_succ] at found
          exact found

theorem words_bounds {list : List (V → Prop)} {c : Nat × (V → Prop)} (member : c ∈ words a list) :
    a ≤ c.1 ∧ c.1 < a + list.length := by
  obtain ⟨after, found⟩ := mem_words.mp member
  have inside := (List.getElem?_eq_some_iff.mp found).1
  omega

theorem words_apart (list : List (V → Prop)) : ((words a list).map Prod.fst).Nodup := by
  induction list generalizing a with
  | nil => simp
  | cons v list ih =>
      rw [words_cons, Multiset.map_add, map_cell, Multiset.nodup_add]
      refine ⟨Multiset.nodup_singleton a, ih, ?_⟩
      rw [Multiset.singleton_disjoint, Multiset.mem_map]
      rintro ⟨c, member, same⟩
      have := (words_bounds member).1
      omega

theorem holds_words {list : List (V → Prop)}
    (agrees : ∀ i known, list[i]? = some known → ∃ v, memory (a + i) = some v ∧ known v) :
    Holds memory (words a list) := by
  refine ⟨words_apart _, ?_⟩
  intro c member
  obtain ⟨after, found⟩ := mem_words.mp member
  have here := agrees (c.1 - a) c.2 found
  rw [Nat.add_sub_cancel' after] at here
  exact here

theorem holds_raws {count : Nat} (mapped : ∀ i < count, ∃ v, memory (a + i) = some v) :
    Holds memory (raws V a count) := by
  apply holds_words
  intro i known found
  rw [List.getElem?_replicate] at found
  split at found
  · rename_i before
    obtain ⟨v, here⟩ := mapped i before
    rw [← Option.some.inj found]
    exact ⟨v, here, trivial⟩
  · cases found

theorem raws_bounds {count : Nat} {c : Nat × (V → Prop)} (member : c ∈ raws V a count) :
    a ≤ c.1 ∧ c.1 < a + count := by
  have bounds := words_bounds member
  rw [List.length_replicate] at bounds
  exact bounds

theorem raws_add (first second : Nat) :
    raws V a (first + second) = raws V a first + raws V (a + first) second := by
  rw [raws, List.replicate_add, words_append, List.length_replicate]
  rfl

theorem raws_one : raws V a 1 = raw V a := by
  simp [raws, raw]

/-- The values there are at consecutive addresses. -/
theorem Holds.exists_values {count : Nat} {rest : Multiset (Nat × (V → Prop))}
    (holds : Holds memory (raws V a count + rest)) :
    ∃ vs : List V, vs.length = count ∧ Holds memory (values a vs + rest) := by
  induction count generalizing a rest with
  | zero => exact ⟨[], rfl, holds⟩
  | succ count ih =>
      rw [Nat.add_comm, raws_add, raws_one, add_assoc] at holds
      obtain ⟨v, here, -⟩ := holds.read
      have known := holds.reads here
      rw [add_left_comm] at known
      obtain ⟨vs, length, holds⟩ := ih known
      refine ⟨v :: vs, congrArg Nat.succ length, ?_⟩
      rw [add_left_comm, ← add_assoc] at holds
      exact holds

end Words

section Weakens

variable {A V : Type} {memory : A → Option V}
variable {cells cells' cells'' more more' : Multiset (A × (V → Prop))}
variable {a : A} {known known' : V → Prop}

/-- The cells are the same, and no more is known of them. -/
structure Weakens (cells cells' : Multiset (A × (V → Prop))) : Prop where
  addresses : cells'.map Prod.fst = cells.map Prod.fst
  agrees : ∀ memory : A → Option V, (∀ c ∈ cells, ∃ v, memory c.1 = some v ∧ c.2 v) →
    ∀ c ∈ cells', ∃ v, memory c.1 = some v ∧ c.2 v

theorem Weakens.refl (cells : Multiset (A × (V → Prop))) : Weakens cells cells :=
  ⟨rfl, fun _ agrees => agrees⟩

theorem Weakens.trans (first : Weakens cells cells') (second : Weakens cells' cells'') :
    Weakens cells cells'' :=
  ⟨second.addresses.trans first.addresses,
    fun memory agrees => second.agrees memory (first.agrees memory agrees)⟩

theorem Weakens.add (first : Weakens cells cells') (second : Weakens more more') :
    Weakens (cells + more) (cells' + more') := by
  constructor
  · rw [Multiset.map_add, Multiset.map_add, first.addresses, second.addresses]
  · intro memory agrees c member
    rcases Multiset.mem_add.mp member with left | right
    · exact first.agrees memory (fun d here => agrees d (Multiset.mem_add.mpr (.inl here))) c left
    · exact second.agrees memory (fun d here => agrees d (Multiset.mem_add.mpr (.inr here))) c right

theorem weakens_cell (weaker : ∀ v, known v → known' v) : Weakens (cell a known) (cell a known') := by
  constructor
  · rw [map_cell, map_cell]
  · intro memory agrees c member
    obtain rfl := mem_cell.mp member
    obtain ⟨v, here, is⟩ := agrees (a, known) (mem_cell.mpr rfl)
    exact ⟨v, here, weaker v is⟩

theorem weakens_raw : Weakens (cell a known) (raw V a) := weakens_cell fun _ _ => trivial

theorem Weakens.holds (weakens : Weakens cells cells') (holds : Holds memory cells) :
    Holds memory cells' := by
  refine ⟨?_, weakens.agrees memory holds.agrees⟩
  rw [weakens.addresses]
  exact holds.apart

theorem Weakens.mem (weakens : Weakens cells cells') {c : A × (V → Prop)} (member : c ∈ cells') :
    ∃ d ∈ cells, d.1 = c.1 := by
  have address := Multiset.mem_map_of_mem Prod.fst member
  rw [weakens.addresses] at address
  exact Multiset.mem_map.mp address

theorem weakens_raws {a : Nat} (list : List (V → Prop)) :
    Weakens (words a list) (raws V a list.length) := by
  induction list generalizing a with
  | nil => exact .refl 0
  | cons known list ih => exact weakens_raw.add ih

end Weakens

section Rings

/- Doubly linked lists of addresses: the link to what follows `x` is `n` words after `x`, the
link to what precedes it `p` words after. -/
variable (n p : Nat)

def edge (x y : Nat) : Multiset (Nat × (Nat → Prop)) := value (x + n) y + value (y + p) x

/-- The links from `x` over the members of a list to `y`. -/
def path (x : Nat) : List Nat → Nat → Multiset (Nat × (Nat → Prop))
  | [], y => edge n p x y
  | b :: rest, y => edge n p x b + path b rest y

/-- A circular list with its head. -/
def ring (head : Nat) (members : List Nat) : Multiset (Nat × (Nat → Prop)) :=
  path n p head members head

variable {n p}

theorem path_append (x b y : Nat) (before after : List Nat) :
    path n p x (before ++ b :: after) y = path n p x before b + path n p b after y := by
  induction before generalizing x with
  | nil => rfl
  | cons c before ih => simp only [List.cons_append, path, ih, add_assoc]

/-- The first edge of a path, whatever it starts from. -/
theorem path_start (members : List Nat) (y : Nat) :
    ∃ rest, ∀ x, path n p x members y = edge n p x (members.headD y) + rest := by
  cases members with
  | nil => exact ⟨0, fun x => (add_zero _).symm⟩
  | cons b members => exact ⟨path n p b members y, fun x => rfl⟩

/-- The last edge of a path, whatever it ends in. -/
theorem path_end (members : List Nat) (x : Nat) :
    ∃ rest, ∀ y, path n p x members y = edge n p (members.getLastD x) y + rest := by
  induction members generalizing x with
  | nil => exact ⟨0, fun y => (add_zero _).symm⟩
  | cons b members ih =>
      obtain ⟨rest, ends⟩ := ih b
      refine ⟨edge n p x b + rest, fun y => ?_⟩
      rw [path, ends y, List.getLastD_cons]
      abel

/-- The edges at a place of a path: with a member there, and without. -/
theorem path_place (x y : Nat) (before after : List Nat) :
    ∃ rest, path n p x (before ++ after) y =
        edge n p (before.getLastD x) (after.headD y) + rest ∧
      ∀ b, path n p x (before ++ b :: after) y =
        edge n p (before.getLastD x) b + edge n p b (after.headD y) + rest := by
  obtain ⟨front, ends⟩ := @path_end n p before x
  obtain ⟨back, starts⟩ := @path_start n p after y
  refine ⟨front + back, ?_, fun b => ?_⟩
  · cases after with
    | nil =>
        have whole := starts (before.getLastD x)
        simp only [path, List.headD_nil, left_eq_add] at whole
        simp [ends y, whole]
    | cons c after =>
        have whole := starts (before.getLastD x)
        simp only [path, List.headD_cons, add_right_inj] at whole
        simp only [path_append, ends c, List.headD_cons, whole]
        abel
  · rw [path_append, ends b, starts b]
    abel

/-- A member's two edges, and the edge that is left without it. -/
theorem ring_member {head b : Nat} {members : List Nat} (member : b ∈ members) :
    ∃ last next rest, ring n p head members = edge n p last b + edge n p b next + rest ∧
      ring n p head (members.erase b) = edge n p last next + rest := by
  obtain ⟨before, after, -, whole, without⟩ := List.exists_erase_eq member
  obtain ⟨rest, removed, there⟩ := @path_place n p head head before after
  refine ⟨before.getLastD head, after.headD head, rest, ?_, ?_⟩
  · rw [whole, ring, there b]
  · rw [without, ring, removed]

/-- A member is put at the front. -/
theorem ring_cons (head : Nat) (members : List Nat) :
    ∃ rest, ring n p head members = edge n p head (members.headD head) + rest ∧
      ∀ b, ring n p head (b :: members) =
        edge n p head b + edge n p b (members.headD head) + rest :=
  path_place head head [] members

theorem ring_next (head b : Nat) (before after : List Nat) :
    ∃ rest, ring n p head (before ++ b :: after) = value (b + n) (after.headD head) + rest := by
  obtain ⟨rest, -, there⟩ := @path_place n p head head before after
  refine ⟨edge n p (before.getLastD head) b + value (after.headD head + p) b + rest, ?_⟩
  rw [ring, there b, edge, edge]
  abel

theorem ring_first (head : Nat) (members : List Nat) :
    ∃ rest, ring n p head members = value (head + n) (members.headD head) + rest := by
  obtain ⟨rest, front, -⟩ := @ring_cons n p head members
  refine ⟨value (members.headD head + p) head + rest, ?_⟩
  rw [front, edge]
  abel

/-- The links of the head and of a member to what follows them. -/
theorem ring_both (head b : Nat) (before after : List Nat) :
    ∃ rest, ring n p head (before ++ b :: after) =
      value (head + n) (before.headD b) + (value (b + n) (after.headD head) + rest) := by
  obtain ⟨front, starts⟩ := @path_start n p before b
  obtain ⟨back, goesOn⟩ := @path_start n p after head
  refine ⟨value (before.headD b + p) head + value (after.headD head + p) b + front + back, ?_⟩
  rw [ring, path_append, starts, goesOn, edge, edge]
  abel

end Rings

section Links

variable {n p : Nat} {memory : Nat → Option Nat} {rest : Multiset (Nat × (Nat → Prop))}
variable {x y head : Nat} {members members' before after : List Nat}

/-- Neighbours in the words of a memory: the link of each leads to the other. -/
def Joined (n p : Nat) (memory : Nat → Option Nat) (x y : Nat) : Prop :=
  memory (x + n) = some y ∧ memory (y + p) = some x

/-- The words of a memory link the head, the members and the head again. -/
def Linked (n p : Nat) (memory : Nat → Option Nat) (head : Nat) (members : List Nat) : Prop :=
  (head :: (members ++ [head])).IsChain (Joined n p memory)

theorem Holds.joined (holds : Holds memory (edge n p x y + rest)) : Joined n p memory x y := by
  have back := holds
  rw [edge, add_assoc, add_left_comm] at back
  rw [edge, add_assoc] at holds
  exact ⟨holds.value, back.value⟩

theorem Holds.chain (holds : Holds memory (path n p x members y + rest)) :
    (x :: (members ++ [y])).IsChain (Joined n p memory) := by
  induction members generalizing x rest with
  | nil => exact List.isChain_pair.mpr holds.joined
  | cons b members ih =>
      have later := holds
      rw [path, add_assoc] at holds
      rw [path, add_comm (edge n p x b), add_assoc] at later
      exact List.isChain_cons_cons.mpr ⟨holds.joined, ih later⟩

theorem Holds.linked (holds : Holds memory (ring n p head members + rest)) :
    Linked n p memory head members :=
  holds.chain

theorem path_addresses (n p x y : Nat) (members : List Nat) :
    (path n p x members y).map Prod.fst =
      ((x :: members).map (· + n) : List Nat) + ((members ++ [y]).map (· + p) : List Nat) := by
  induction members generalizing x with
  | nil => simp [path, edge, value]
  | cons b members ih =>
      rw [path, Multiset.map_add, ih, edge]
      simp only [value, Multiset.map_add, map_cell, List.map_cons, List.cons_append,
        ← Multiset.cons_coe, ← Multiset.singleton_add]
      abel

/-- What has links of its own is not linked twice. -/
theorem Holds.distinct (holds : Holds memory (ring n p head members + rest)) :
    (head :: members).Nodup := by
  have apart := holds.left.apart
  rw [ring, path_addresses, Multiset.nodup_add] at apart
  exact (Multiset.coe_nodup.mp apart.1).of_map _

theorem Linked.place (linked : Linked n p memory head (before ++ after)) :
    Joined n p memory (before.getLastD head) (after.headD head) := by
  have whole : head :: (before ++ after ++ [head]) = (head :: before) ++ (after ++ [head]) := by
    simp
  rw [Linked, whole, List.isChain_append] at linked
  apply linked.2.2
  · rw [List.getLast?_cons, List.getLastD_eq_getLast?]
    rfl
  · cases after with
    | nil => rfl
    | cons => rfl

/-- A memory links only one list to a head. -/
theorem Linked.unique (linked : Linked n p memory head members)
    (linked' : Linked n p memory head members') (off : head ∉ members) (off' : head ∉ members') :
    members = members' := by
  have whole : ∀ x, (x :: (members ++ [head])).IsChain (Joined n p memory) →
      (x :: (members' ++ [head])).IsChain (Joined n p memory) → members = members' := by
    clear linked linked'
    induction members generalizing members' with
    | nil =>
        intro x chain chain'
        cases members' with
        | nil => rfl
        | cons c members' =>
            have first := (List.isChain_cons_cons.mp chain).1.1
            have first' := (List.isChain_cons_cons.mp chain').1.1
            have same := Option.some.inj (first.symm.trans first')
            exact absurd (same ▸ List.mem_cons_self) off'
    | cons b members ih =>
        intro x chain chain'
        obtain ⟨first, later⟩ := List.isChain_cons_cons.mp chain
        cases members' with
        | nil =>
            have first' := (List.isChain_cons_cons.mp chain').1.1
            have same := Option.some.inj (first'.symm.trans first.1)
            exact absurd (same ▸ List.mem_cons_self) off
        | cons c members' =>
            obtain ⟨first', later'⟩ := List.isChain_cons_cons.mp chain'
            obtain rfl := Option.some.inj (first.1.symm.trans first'.1)
            rw [ih (fun member => off (List.mem_cons_of_mem _ member))
              (fun member => off' (List.mem_cons_of_mem _ member)) b later later']
  exact whole head linked linked'

end Links

end Cells
