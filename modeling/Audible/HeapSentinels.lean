import Audible.HeapRuns

set_option autoImplicit false

/- The list of free lists over any calls of `getSentinelOfSize`: sorted, and linked both ways. -/
namespace Audible.Sfmm

open Cells Returning

variable {util : Sfutil} {m m' : Memory} {lists lists' : List FreeList} {list list' : FreeList}
variable {rounds size next node known head : Nat}

/-- A node has its size, and the members of its list are linked in a circle. -/
structure FreeList.InMemory (m : Memory) (list : FreeList) : Prop where
  size : m.word list.node = some list.size
  members : Linked 1 2 m.word (list.node + 1) list.members
  distinct : ((list.node + 1) :: list.members).Nodup

/-- The nodes of the lists are linked in a circle, strictly in the order of their sizes. -/
structure Sorted (util : Sfutil) (m : Memory) (lists : List FreeList) : Prop where
  increasing : Increasing lists
  head : m.word util.head = some 0
  nodes : Linked 4 5 m.word util.head (lists.map FreeList.node)
  distinct : (util.head :: lists.map FreeList.node).Nodup
  lists : ∀ list ∈ lists, list.InMemory m

theorem FreeList.InMemory.unique (here : list.InMemory m) (here' : list'.InMemory m)
    (same : list.node = list'.node) : list = list' := by
  obtain ⟨node, size, members⟩ := list
  obtain ⟨node', size', members'⟩ := list'
  obtain rfl : node = node' := same
  have sizes : size = size' := Option.some.inj (here.size.symm.trans here'.size)
  have linked : members = members' := here.members.unique here'.members
    (List.nodup_cons.mp here.distinct).1 (List.nodup_cons.mp here'.distinct).1
  rw [sizes, linked]

theorem Sorted.unique (sorted : Sorted util m lists) (sorted' : Sorted util m lists') :
    lists = lists' := by
  have once := (List.nodup_cons.mp sorted.distinct).1
  have once' := (List.nodup_cons.mp sorted'.distinct).1
  have nodes := sorted.nodes.unique sorted'.nodes once once'
  have all := sorted.lists
  have all' := sorted'.lists
  clear sorted sorted' once once'
  induction lists generalizing lists' with
  | nil => exact (List.map_eq_nil_iff.mp nodes.symm).symm
  | cons list lists ih =>
      cases lists' with
      | nil => cases nodes
      | cons list' lists' =>
          rw [List.map_cons, List.map_cons, List.cons.injEq] at nodes
          have first := (all list List.mem_cons_self).unique (all' list' List.mem_cons_self) nodes.1
          rw [first, ih nodes.2 (fun other member => all other (List.mem_cons_of_mem _ member))
            fun other member => all' other (List.mem_cons_of_mem _ member)]

/-- The memory has the lists, and room for other cells. -/
def Listed (util : Sfutil) (m : Memory) (lists : List FreeList) : Prop :=
  Increasing lists ∧ ∃ (p : Picture) (rest : Multiset (Nat × (Nat → Prop))),
    lists.length ≤ p.nodes ∧ Describes util (p.at (listCells util.head lists + rest)) m

theorem Listed.sorted (listed : Listed util m lists) : Sorted util m lists := by
  obtain ⟨increasing, p, rest, -, described⟩ := listed
  have holds := described.holds.left
  have nodes := holds
  rw [listCells, add_comm (value util.head 0 + _), add_assoc] at nodes
  refine ⟨increasing, described.word head_mem, nodes.linked, nodes.distinct, fun list member => ?_⟩
  obtain ⟨others, split⟩ := @lists_split util.head lists list member
  have own : Holds m.word (ring 1 2 (list.node + 1) list.members + (value list.node list.size +
      raw Nat (list.node + 1) + (value util.head 0 + others))) := by
    have place : listCells util.head lists = ring 1 2 (list.node + 1) list.members +
        (value list.node list.size + raw Nat (list.node + 1) + (value util.head 0 + others)) := by
      rw [split, FreeList.cells]
      abel
    rw [← place]
    exact holds
  exact ⟨described.word (size_mem member), own.linked, own.distinct⟩

theorem listed_init (util : Sfutil) : Listed util (sfMemInit util) [] := by
  refine ⟨List.Pairwise.nil, emptyPicture util false, 0, Nat.zero_le _, ?_⟩
  rw [add_zero]
  exact describes_init

theorem getSizeNodeFrom_same {current : Nat}
    (runs : getSizeNodeFrom util size rounds current m = .ok (node, m')) : m' = m := by
  induction rounds generalizing current m with
  | zero => cases runs
  | succ rounds ih =>
      unfold getSizeNodeFrom at runs
      split at runs
      · cases runs
        rfl
      · obtain ⟨known, mid, loads, goesOn⟩ := of_bind runs
        obtain rfl := (of_load loads).2
        split at goesOn
        · cases goesOn
          rfl
        · obtain ⟨next, mid', loads', later⟩ := of_bind goesOn
          obtain rfl := (of_load loads').2
          exact ih later

theorem getSizeNode_same (runs : getSizeNode util size m = .ok (node, m')) : m' = m := by
  unfold getSizeNode at runs
  obtain ⟨first, mid, loads, goesOn⟩ := of_bind runs
  obtain rfl := (of_load loads).2
  exact getSizeNodeFrom_same goesOn

/-- The node that has been found is of the size, or a new one is put before it. -/
theorem getSentinelOfSize_eq (finds : getSizeNode util size m = .ok (next, m))
    (there : m.word next = some known) :
    getSentinelOfSize util size m =
      if size = known then .ok (next, m) else sfAddFreeList util size next m := by
  have loads : load next m = .ok (known, m) := by simp [load, there]
  unfold getSentinelOfSize
  rw [run_bind finds, run_bind loads]
  split
  · rfl
  · rfl

/-- Outside of the new node only two links change. -/
theorem sfAddFreeList_others (runs : sfAddFreeList util size next m = .ok (node, m')) :
    ∃ prev, m.word (next + 5) = some prev ∧ ∀ a, (a < node ∨ node + nodeWords ≤ a) →
      a ≠ prev + 4 → a ≠ next + 5 → m'.word a = m.word a := by
  unfold sfAddFreeList at runs
  obtain ⟨prev, mid, loads, adds⟩ := of_bind runs
  obtain ⟨back, rfl⟩ := of_load loads
  obtain ⟨new, mid₁, news, links⟩ := of_bind adds
  obtain ⟨_, mid₂, stores, more⟩ := of_bind links
  obtain ⟨_, mid₃, stores', returns⟩ := of_bind more
  cases news
  cases returns
  refine ⟨prev, back, fun a outside first second => ?_⟩
  unfold nodeWords at outside
  rw [of_store stores', of_store stores, Function.update_of_ne second, Function.update_of_ne first]
  dsimp only
  repeat rw [if_neg (by omega)]

/-- What a call of `getSentinelOfSize` does to sorted lists: the node it returns is of the size, all
lists stay as they are, and there is one more, which is empty, if no list was of the size. -/
structure AfterSentinel (util : Sfutil) (size : Nat) (m : Memory) (lists : List FreeList)
    (node : Nat) (m' : Memory) (lists' : List FreeList) : Prop where
  sorted : Sorted util m' lists'
  found : ∃ list ∈ lists', list.node = node ∧ list.size = size
  kept : (m' = m ∧ lists' = lists) ∨ (size ∉ lists.map FreeList.size ∧ ∃ before after,
    lists = before ++ after ∧ lists' = before ++ (⟨node, size, []⟩ : FreeList) :: after)
  others : ∀ a, (a < node ∨ node + nodeWords ≤ a) →
    (∀ x ∈ util.head :: lists.map FreeList.node, a ≠ x + 4 ∧ a ≠ x + 5) → m'.word a = m.word a

theorem AfterSentinel.sublist (after : AfterSentinel util size m lists node m' lists') :
    lists.Sublist lists' := by
  rcases after.kept with ⟨-, rfl⟩ | ⟨-, front, back, rfl, rfl⟩
  · exact .refl _
  · exact (List.Sublist.refl front).append (List.sublist_cons_self _ back)

theorem Listed.sentinel (listed : Listed util m lists) (positive : size ≠ 0) :
    ∃ node m' lists', getSentinelOfSize util size m = .ok (node, m') ∧ Listed util m' lists' ∧
      AfterSentinel util size m lists node m' lists' := by
  have sorted := listed.sorted
  obtain ⟨increasing, p, rest, few, described⟩ := listed
  obtain ⟨m₁, finds, -⟩ := @does_getSizeNode util p rest lists size few m described
  obtain rfl := getSizeNode_same finds
  rcases pushFree_cases util.head (util.node p.nodes) size 0 increasing with
    ⟨before, list, after, rfl, rfl, -, node⟩ | ⟨before, after, rfl, other, pushed, node⟩
  · have member : list ∈ before ++ list :: after := by simp
    rw [node] at finds
    refine ⟨list.node, m₁, before ++ list :: after, ?_, ⟨increasing, p, rest, few, described⟩, sorted,
      ⟨list, member, rfl, rfl⟩, .inl ⟨rfl, rfl⟩, fun _ _ _ => rfl⟩
    rw [getSentinelOfSize_eq finds (sorted.lists list member).size, if_pos rfl]
  · obtain ⟨known, there, different⟩ :=
      @other_size_mem util.head before after size (Nat.pos_of_ne_zero positive) other
    have here := described.word there
    obtain ⟨m', adds, described'⟩ := @does_sfAddFreeList util p rest before after size m₁ described
    have increasing' : Increasing (before ++ (⟨util.node p.nodes, size, []⟩ : FreeList) :: after) := by
      have pushes := increasing_pushFree (util.node p.nodes) size 0 increasing
      rw [pushed, increasing_iff] at pushes
      rw [increasing_iff]
      simpa using pushes
    have listed' : Listed util m'
        (before ++ (⟨util.node p.nodes, size, []⟩ : FreeList) :: after) := by
      refine ⟨increasing', { p with nodes := p.nodes + 1 }, rest, ?_, described'⟩
      simp only [List.length_append, List.length_cons] at few ⊢
      omega
    rw [node] at finds
    refine ⟨util.node p.nodes, m', _, ?_, listed', listed'.sorted, ⟨⟨util.node p.nodes, size, []⟩,
      by simp, rfl, rfl⟩, .inr ⟨other, before, after, rfl, rfl⟩, ?_⟩
    · rw [getSentinelOfSize_eq finds here, if_neg different]
      exact adds
    · intro a outside unlinked
      obtain ⟨prev, back, same⟩ := sfAddFreeList_others adds
      have joined := sorted.nodes
      rw [List.map_append] at joined
      obtain rfl := Option.some.inj (back.symm.trans joined.place.2)
      have isPrev : (before.map FreeList.node).getLastD util.head ∈
          util.head :: (before ++ after).map FreeList.node := by
        rw [List.map_append, ← List.cons_append]
        exact List.mem_append_left _ List.getLastD_mem_cons
      have isNext : (after.map FreeList.node).headD util.head ∈
          util.head :: (before ++ after).map FreeList.node := by
        rw [List.map_append]
        cases after with
        | nil => exact List.mem_cons_self
        | cons list after => simp
      exact same a outside (unlinked _ isPrev).1 (unlinked _ isNext).2

def sentinelStep (util : Sfutil) (m : Memory) (size : Nat) : Option Memory :=
  match getSentinelOfSize util size m with
  | .ok (_, m') => some m'
  | .error _ => none

/-- No list that there was is lost. -/
theorem Listed.reached {start : Memory} (listed : Listed util start lists)
    (reached : Runs.Reachable (sentinelStep util) (fun _ size => size ≠ 0) start m) :
    ∃ lists', Listed util m lists' ∧ lists.Sublist lists' := by
  refine Runs.Reachable.invariant (fun m => ∃ lists', Listed util m lists' ∧ lists.Sublist lists')
    ⟨lists, listed, .refl _⟩ ?_ reached
  intro m size next ⟨lists₁, listed₁, before⟩ positive taken
  obtain ⟨node, m', lists₂, runs, listed₂, after⟩ := listed₁.sentinel positive
  rw [sentinelStep, runs] at taken
  cases taken
  exact ⟨lists₂, listed₂, before.trans after.sublist⟩

/-- From the empty list on, after any calls for sizes that are not 0, the lists are sorted, and the
next call finds or makes the list of its size. -/
theorem sentinels_sorted
    (reached : Runs.Reachable (sentinelStep util) (fun _ size => size ≠ 0) (sfMemInit util) m) :
    ∃ lists, Sorted util m lists ∧ ∀ size, size ≠ 0 → ∃ node m' lists',
      getSentinelOfSize util size m = .ok (node, m') ∧
        AfterSentinel util size m lists node m' lists' := by
  obtain ⟨lists, listed, -⟩ := (listed_init util).reached reached
  refine ⟨lists, listed.sorted, fun size positive => ?_⟩
  obtain ⟨node, m', lists', runs, -, after⟩ := listed.sentinel positive
  exact ⟨node, m', lists', runs, after⟩

/-- Nodes at the front, at the end and in between. -/
theorem sentinels_sorted_three : ∃ m lists,
    Runs.run (sentinelStep fourPages) (sfMemInit fourPages) [64, 32, 96, 64, 80] = some m ∧
      Sorted fourPages m lists ∧ ∀ size, size ≠ 0 → ∃ node m' lists',
        getSentinelOfSize fourPages size m = .ok (node, m') ∧
          AfterSentinel fourPages size m lists node m' lists' := by
  obtain ⟨m, runs, reached, -⟩ := @Runs.exists_reachable _ _ (sentinelStep fourPages)
    (fun _ size => size ≠ 0) (sfMemInit fourPages) [64, 32, 96, 64, 80] _
    (fun _ _ => of_decide_eq_true) (by decide +kernel) (fun _ => true) (by decide +kernel)
  obtain ⟨lists, sorted, next⟩ := sentinels_sorted reached
  exact ⟨m, lists, runs, sorted, next⟩

theorem Stands.listed {state : State} {shape : Shape} (stands : Stands util state shape) :
    ∃ lists, Listed util state.memory lists := by
  cases shape with
  | empty enomem =>
      refine ⟨[], List.Pairwise.nil, emptyPicture util enomem, 0, Nat.zero_le _, ?_⟩
      rw [add_zero]
      exact stands.described
  | used heap =>
      have described : Describes util (heap.picture util) state.memory := stands.described
      rw [Heap.picture_lists] at described
      exact ⟨heap.lists, Heap.Valid.increasing stands.valid, _, _, Nat.le_refl _, described⟩

/-- The lists of a program that uses the allocator keep their blocks. -/
theorem sentinels_in_use {state : State}
    (inUse : Runs.Reachable (step util) (Allowed util) (start util) state)
    (reached : Runs.Reachable (sentinelStep util) (fun _ size => size ≠ 0) state.memory m) :
    ∃ lists lists', Sorted util state.memory lists ∧ Sorted util m lists' ∧ lists.Sublist lists' := by
  obtain ⟨shape, stands⟩ := stands_of_reachable inUse
  obtain ⟨lists, listed⟩ := stands.listed
  obtain ⟨lists', listed', kept⟩ := listed.reached reached
  exact ⟨lists, lists', listed.sorted, listed'.sorted, kept⟩

end Audible.Sfmm
