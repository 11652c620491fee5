import Audible.HeapGaps

set_option autoImplicit false

/- The size of the block for a request, and the search for a free block. -/
namespace Audible.Sfmm

open Cells Returning

variable {util : Sfutil} {p : Picture} {rest : Multiset (Nat × (Nat → Prop))}
variable {lists before after : List FreeList} {list : FreeList} {needed size units : Nat}

-- getNewSize

/-- The units of the block for a size, unless it is rounded up to `INT_MIN`. -/
def unitsFor (size : Nat) : Option Nat :=
  let newSize : Int := ((8 + size : Nat) : Int).bmod (2 ^ 32)
  if newSize ≤ 32 then some 2
  else if (newSize + 15) / 16 < 2 ^ 27 then some ((newSize + 15) / 16).toNat
  else none

theorem unitsFor_bounds (is : unitsFor size = some units) : 2 ≤ units ∧ units < 2 ^ 27 := by
  unfold unitsFor at is
  dsimp only at is
  generalize ((8 + size : Nat) : Int).bmod (2 ^ 32) = newSize at is
  split at is
  · cases is
    omega
  · split at is
    · cases is
      omega
    · cases is

theorem getNewSize_some (is : unitsFor size = some units) : getNewSize size = 16 * (units : Int) := by
  have bounds := unitsFor_bounds is
  unfold unitsFor at is
  unfold getNewSize
  dsimp only at is ⊢
  generalize ((8 + size : Nat) : Int).bmod (2 ^ 32) = newSize at is ⊢
  split at is
  · rename_i small
    cases is
    rw [if_neg (by omega)]
    rfl
  · rename_i large
    split at is
    · cases is
      rw [if_pos (by omega)]
      split
      · have rounded : newSize + (16 - newSize % 16) = 16 * (((newSize + 15) / 16).toNat : Int) := by
          omega
        rw [rounded, bmod_bytes bounds.2]
      · omega
    · cases is

/-- The sizes from `2 ^ 31 - 23` to `2 ^ 31 - 9`, and those that are the same in an `int`. -/
theorem getNewSize_none (is : unitsFor size = none) : getNewSize size = -2 ^ 31 := by
  have bound : ((8 + size : Nat) : Int).bmod (2 ^ 32) < 2 ^ 31 := by
    have := @Int.bmod_lt ((8 + size : Nat) : Int) (2 ^ 32) (by decide)
    omega
  unfold unitsFor at is
  unfold getNewSize
  dsimp only at is ⊢
  generalize ((8 + size : Nat) : Int).bmod (2 ^ 32) = newSize at is bound ⊢
  split at is
  · cases is
  · split at is
    · cases is
    · have rounded : newSize + (16 - newSize % 16) = 2 ^ 31 := by omega
      rw [if_pos (by omega), if_pos (by omega), rounded]
      rfl

/-- Below `2 ^ 31 - 32` nothing wraps. -/
theorem unitsFor_small (small : size < 2 ^ 31 - 32) :
    unitsFor size = some (max 2 ((size + 23) / 16)) := by
  have same : ((8 + size : Nat) : Int).bmod (2 ^ 32) = 8 + size := by
    rw [Int.bmod_eq_of_le_mul_two] <;> omega
  have rounded : ((8 + (size : Int) + 15) / 16).toNat = (size + 23) / 16 := by
    have sum : 8 + (size : Int) + 15 = ((size + 23 : Nat) : Int) := by omega
    rw [sum]
    rfl
  unfold unitsFor
  dsimp only
  rw [same, rounded]
  split
  · rename_i few
    have least : (size + 23) / 16 ≤ 2 := by omega
    rw [Nat.max_eq_left least]
  · rename_i many
    have most : 2 ≤ (size + 23) / 16 := by omega
    rw [if_pos (by omega), Nat.max_eq_right most]

-- the search loop

/-- The free block that fits best: the first member of the first list with members whose size is
enough. -/
def bestFit (size : Nat) (lists : List FreeList) : Option (Nat × Nat) :=
  (entries lists).find? (size ≤ ·.2)

def searchFrom (head size : Nat) : List FreeList → Option Nat → Option Nat × Nat
  | [], header => (header, head)
  | list :: lists, header =>
      if size ≤ list.size then
        match list.members with
        | [] => searchFrom head size lists (some (list.node + 1))
        | first :: _ => (some first, list.node)
      else searchFrom head size lists header

theorem first_member_mem (member : list ∈ lists) :
    (list.node + 2, fun w => w = list.members.headD (list.node + 1)) ∈ listCells util.head lists := by
  obtain ⟨cells, split⟩ := @lists_split util.head lists list member
  obtain ⟨links, first⟩ := @ring_first 1 2 (list.node + 1) list.members
  rw [split, FreeList.cells, first]
  simp only [Multiset.mem_add]
  exact .inr (.inl (.inr (.inl mem_value)))

theorem does_findFrom {newSize : Int} {rounds : Nat} {header : Option Nat} (enough : after.length < rounds) :
    Does util (p.at (listCells util.head (before ++ after) + rest))
      (findFrom util newSize rounds ((after.map FreeList.node).headD util.head) header)
      (searchFrom util.head (toSize newSize) after header)
      (p.at (listCells util.head (before ++ after) + rest)) := by
  induction after generalizing before rounds header with
  | nil =>
      obtain ⟨rounds, rfl⟩ := Nat.exists_eq_add_one_of_ne_zero (Nat.ne_zero_of_lt enough)
      simp only [List.map_nil, List.headD_nil, findFrom, if_pos]
      exact .pure _
  | cons list after ih =>
      obtain ⟨rounds, rfl⟩ := Nat.exists_eq_add_one_of_ne_zero (Nat.ne_zero_of_lt enough)
      have member : list ∈ before ++ list :: after := by simp
      have later := fun header => @ih (before ++ [list]) rounds header (by simpa using enough)
      simp only [List.append_assoc, List.singleton_append] at later
      apply does_knowing (fun m described => node_ne_head described member)
      intro other
      simp only [List.map_cons, List.headD_cons, findFrom, if_neg other, searchFrom]
      apply (does_load_mem (Multiset.mem_add.mpr (.inl (size_mem member)))).bind
      by_cases fits : toSize newSize ≤ list.size
      · rw [if_pos fits, if_pos fits]
        apply (does_load_mem (Multiset.mem_add.mpr (.inl (first_member_mem member)))).bind
        cases members : list.members with
        | nil =>
            simp only [List.headD_nil, ne_eq, not_true_eq_false, if_false]
            apply (does_load_mem (Multiset.mem_add.mpr (.inl next_mem))).bind
            exact later (some (list.node + 1))
        | cons first others =>
            apply does_knowing (fun m described => @member_ne_node util p _ util.head _ list m first
              described member (by simp [members]))
            intro different
            simp only [List.headD_cons, ne_eq, different, not_false_eq_true, if_true]
            exact .pure _
      · rw [if_neg fits, if_neg fits]
        apply (does_load_mem (Multiset.mem_add.mpr (.inl next_mem))).bind
        exact later header

/-- The whole search. -/
theorem does_search {newSize : Int} (few : lists.length ≤ p.nodes) {β : Type}
    {next : Option Nat × Nat → HeapM β} {result : β} {final : Picture}
    (tail : Does util (p.at (listCells util.head lists + rest))
      (next (searchFrom util.head (toSize newSize) lists none)) result final) :
    Does util (p.at (listCells util.head lists + rest)) (do
      let first ← load (util.head + 4)
      let found ← findFrom util newSize ((← get).nodes + 1) first none
      next found) result final := by
  apply (does_load_mem (Multiset.mem_add.mpr (.inl first_mem))).bind
  apply does_get
  intro m _ nodes
  rw [nodes]
  exact (@does_findFrom util p rest [] lists newSize (p.nodes + 1) none (Nat.lt_succ_of_le few)).bind tail

theorem bestFit_cons (size : Nat) (list : FreeList) (lists : List FreeList) :
    bestFit size (list :: lists) =
      ((list.members.map (·, list.size)).find? (size ≤ ·.2)).or (bestFit size lists) := by
  rw [bestFit, entries_cons, List.find?_append]
  rfl

/-- The loop stops at the list of the block that fits best. -/
theorem searchFrom_fit {head first fit : Nat} {header : Option Nat}
    (found : bestFit size lists = some (first, fit)) :
    ∃ list ∈ lists, searchFrom head size lists header = (some first, list.node) := by
  induction lists generalizing header with
  | nil => cases found
  | cons list lists ih =>
      rw [bestFit_cons] at found
      unfold searchFrom
      by_cases fits : size ≤ list.size
      · rw [if_pos fits]
        cases members : list.members with
        | nil =>
            rw [members, List.map_nil, List.find?_nil, Option.none_or] at found
            obtain ⟨other, member, stops⟩ := @ih (some (list.node + 1)) found
            exact ⟨other, List.mem_cons_of_mem _ member, stops⟩
        | cons block others =>
            rw [members, List.map_cons, List.find?_cons_of_pos (by simpa using fits),
              Option.some_or] at found
            cases found
            exact ⟨list, List.mem_cons_self .., rfl⟩
      · rw [if_neg fits]
        have none : (list.members.map (·, list.size)).find? (size ≤ ·.2) = none := by
          simpa using fun _ _ => Nat.lt_of_not_le fits
        rw [none, Option.none_or] at found
        obtain ⟨other, member, stops⟩ := @ih header found
        exact ⟨other, List.mem_cons_of_mem _ member, stops⟩

/-- The loop goes to the end, past empty lists. -/
theorem searchFrom_empty {head : Nat} {header : Option Nat} (none : bestFit size lists = none) :
    (∃ list ∈ lists, size ≤ list.size ∧
      searchFrom head size lists header = (some (list.node + 1), head)) ∨
    (∀ list ∈ lists, list.size < size) ∧ searchFrom head size lists header = (header, head) := by
  induction lists generalizing header with
  | nil => exact .inr ⟨by simp, rfl⟩
  | cons list lists ih =>
      rw [bestFit_cons, Option.or_eq_none_iff] at none
      unfold searchFrom
      by_cases fits : size ≤ list.size
      · rw [if_pos fits]
        have members : list.members = [] := by
          cases members : list.members with
          | nil => rfl
          | cons block others =>
              rw [members, List.map_cons, List.find?_cons_of_pos (by simpa using fits)] at none
              cases none.1
        rw [members]
        rcases @ih (some (list.node + 1)) none.2 with ⟨other, member, large, ends⟩ | ⟨-, ends⟩
        · exact .inl ⟨other, List.mem_cons_of_mem _ member, large, ends⟩
        · exact .inl ⟨list, List.mem_cons_self .., fits, ends⟩
      · rw [if_neg fits]
        rcases @ih header none.2 with ⟨other, member, large, ends⟩ | ⟨small, ends⟩
        · exact .inl ⟨other, List.mem_cons_of_mem _ member, large, ends⟩
        · refine .inr ⟨?_, ends⟩
          intro other member
          rcases List.mem_cons.mp member with rfl | later
          · exact Nat.lt_of_not_le fits
          · exact small other later

-- the block that is found

theorem does_findBlock_fit {first fit : Nat} {newSize : Int} {final : Picture}
    (few : lists.length ≤ p.nodes) (found : bestFit (toSize newSize) lists = some (first, fit))
    (removes : Does util (p.at (listCells util.head lists + rest)) (removeHeader first) first final) :
    Does util (p.at (listCells util.head lists + rest)) (findBlock util removeHeader newSize) first final := by
  obtain ⟨list, member, stops⟩ := @searchFrom_fit lists (toSize newSize) util.head first fit none found
  apply does_search few
  rw [stops]
  apply does_knowing (fun m described => node_ne_head described member)
  intro other
  dsimp only
  rw [if_pos other]
  exact removes

/-- Nothing fits, but there is an empty list for a size that is enough: its head is taken for a
block, and its size set to 0. -/
theorem does_findBlock_none (unlink : Nat → HeapM Nat) {newSize : Int}
    (few : lists.length ≤ p.nodes) (none : bestFit (toSize newSize) lists = none)
    (large : ∃ list ∈ lists, toSize newSize ≤ list.size) :
    ∃ h others, Weakens (tagged h (fun info => info.blockSize.toNat = 0) + others)
        (listCells util.head lists + rest) ∧
      Does util (p.at (listCells util.head lists + rest)) (findBlock util unlink newSize) h
        (p.at (tagged h (fun info => info.blockSize.toNat = 0) + others)) := by
  obtain ⟨large, listed, enough⟩ := large
  have ends : ∃ list ∈ lists,
      searchFrom util.head (toSize newSize) lists Option.none = (some (list.node + 1), util.head) := by
    rcases @searchFrom_empty lists (toSize newSize) util.head Option.none none with
      ⟨list, member, -, ends⟩ | ⟨small, -⟩
    · exact ⟨list, member, ends⟩
    · exact absurd enough (Nat.not_le_of_lt (small large listed))
  obtain ⟨list, member, ends⟩ := ends
  obtain ⟨cells, split⟩ := @lists_split util.head lists list member
  have place : listCells util.head lists + rest = tagged (list.node + 1) (fun _ => True) +
      (value util.head 0 + value list.node list.size + ring 1 2 (list.node + 1) list.members + cells +
        rest) := by
    rw [split, FreeList.cells, tagged_raw]
    abel
  refine ⟨list.node + 1, value util.head 0 + value list.node list.size +
    ring 1 2 (list.node + 1) list.members + cells + rest, ?_, ?_⟩
  · rw [place]
    exact weakens_raw.add (.refl _)
  · apply does_search few
    rw [ends]
    dsimp only
    rw [if_neg (by simp), place]
    apply Returns.bind
    · exact @does_modifyInfo util p _ (list.node + 1) _ (fun info => info.blockSize.toNat = 0) _
        fun _ _ => rfl
    · exact .pure _

end Audible.Sfmm
