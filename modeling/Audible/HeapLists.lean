import Audible.HeapWords

set_option autoImplicit false

/- The free lists and the list of free lists. -/
namespace Audible.Sfmm

open Cells Returning

variable {util : Sfutil} {p : Picture} {whole rest : Multiset (Nat × (Nat → Prop))}
variable {a v w h last next head : Nat} {members : List Nat}

/-- The links of a block that is taken off its list; its own stay as they are. -/
theorem does_removeHeader :
    Does util (p.at (edge 1 2 last h + edge 1 2 h next + rest)) (removeHeader h) h
      (p.at (edge 1 2 last next + (value (h + 1) next + value (h + 2) last) + rest)) := by
  have start : edge 1 2 last h + edge 1 2 h next + rest =
      value (h + 1) next + (value (h + 2) last +
        (value (last + 1) h + (value (next + 2) h + rest))) := by
    simp only [edge]
    abel
  have finish : edge 1 2 last next + (value (h + 1) next + value (h + 2) last) + rest =
      value (h + 1) next + (value (h + 2) last +
        (value (last + 1) next + (value (next + 2) last + rest))) := by
    simp only [edge]
    abel
  rw [start, finish]
  apply (does_second fun _ => does_load).bind
  apply does_load.bind
  apply (does_third fun _ => does_store_value).bind
  apply does_load.bind
  apply (does_second fun _ => does_load).bind
  apply (does_fourth fun _ => does_store_value).bind
  exact .pure h

/-- A block is put between a list's head and its first member. -/
theorem does_addHeaderToFreeList {node : Nat} :
    Does util (p.at (edge 1 2 (node + 1) next + (raw Nat (h + 1) + raw Nat (h + 2)) + rest))
      (addHeaderToFreeList h node) h
      (p.at (edge 1 2 (node + 1) h + edge 1 2 h next + rest)) := by
  have start : edge 1 2 (node + 1) next + (raw Nat (h + 1) + raw Nat (h + 2)) + rest =
      value (node + 2) next +
        (raw Nat (h + 1) + (raw Nat (h + 2) + (value (next + 2) (node + 1) + rest))) := by
    simp only [edge]
    abel
  have finish : edge 1 2 (node + 1) h + edge 1 2 h next + rest =
      value (node + 2) h +
        (value (h + 1) next + (value (h + 2) (node + 1) + (value (next + 2) h + rest))) := by
    simp only [edge]
    abel
  rw [start, finish]
  apply does_load.bind
  apply (does_second fun _ => does_store_value).bind
  apply (does_third fun _ => does_store_value).bind
  apply does_load.bind
  apply (does_fourth fun _ => does_store_value).bind
  apply does_store_value.bind
  exact .pure h

/-- A list of free blocks of one size: its node, and the headers of its blocks. -/
structure FreeList where
  node : Nat
  size : Nat
  members : List Nat

def FreeList.cells (list : FreeList) : Multiset (Nat × (Nat → Prop)) :=
  value list.node list.size + raw Nat (list.node + 1) + ring 1 2 (list.node + 1) list.members

def listCells (head : Nat) (lists : List FreeList) : Multiset (Nat × (Nat → Prop)) :=
  value head 0 + raws Nat (head + 1) 3 + ring 4 5 head (lists.map FreeList.node) +
    (lists.map FreeList.cells).sum

theorem does_load_mem (member : (a, fun w => w = v) ∈ whole) :
    Does util (p.at whole) (load a) v (p.at whole) := by
  obtain ⟨rest, rfl⟩ := Multiset.exists_cons_of_mem member
  exact does_load

theorem mem_value : (a, fun w => w = v) ∈ value a v := mem_cell.mpr rfl

def nodeCells (node size next prev : Nat) : Multiset (Nat × (Nat → Prop)) :=
  words node [fun w => w = size, fun _ => True, fun w => w = node + 1, fun w => w = node + 1,
    fun w => w = next, fun w => w = prev]

theorem nodeCells_eq (node size next prev : Nat) :
    nodeCells node size next prev =
      FreeList.cells ⟨node, size, []⟩ + (value (node + 4) next + value (node + 5) prev) := by
  simp only [nodeCells, words_cons, words_nil, FreeList.cells, ring, path, edge, value, raw]
  abel

/-- New nodes are apart from the heap, the head and each other. -/
theorem Sfutil.Mapped.off_node {pages nodes : Nat} (mapped : util.Mapped pages nodes a)
    (room : pages ≤ util.limit) : a < util.node nodes ∨ util.node nodes + nodeWords ≤ a := by
  have heap : pages * pageWords ≤ util.limit * pageWords := Nat.mul_le_mul_right _ room
  rcases mapped with inHeap | inHead | ⟨k, before, inNode⟩
  · have apart := util.nodeApart nodes
    omega
  · have apart := util.nodeOffHead nodes
    omega
  · have apart := util.nodesApart k nodes (by omega)
    omega

/-- The node that `sf_add_free_list` takes memory for. -/
theorem does_newNode {size next prev : Nat} :
    Does util (p.at whole) (newNode util size next prev) (util.node p.nodes)
      ({ p with nodes := p.nodes + 1 }.at (nodeCells (util.node p.nodes) size next prev + whole)) := by
  intro m described
  obtain ⟨holds, mapped, room, pages, nodes, enomem⟩ := described
  rw [Picture.at_nodes] at nodes
  have off : ∀ c ∈ whole, c.1 < util.node p.nodes ∨ util.node p.nodes + nodeWords ≤ c.1 :=
    fun c member => (mapped c member).off_node room
  have inside : ∀ c ∈ nodeCells (util.node p.nodes) size next prev,
      util.node p.nodes ≤ c.1 ∧ c.1 < util.node p.nodes + nodeWords :=
    fun c member => words_bounds member
  unfold newNode
  rw [nodes]
  refine ⟨_, rfl, ?_, ?_, room, pages, rfl, enomem⟩
  · apply holds.extend
    · apply holds_words
      intro i known found
      match i with
      | 0 | 1 | 2 | 3 | 4 | 5 =>
          simp only [List.getElem?_cons_zero, List.getElem?_cons_succ, Option.some.injEq] at found
          subst found
          simp
      | i + 6 => simp at found
    · intro c new d old
      have here := inside c new
      have there := off d old
      omega
    · intro c old
      have there := off c old
      unfold nodeWords at there
      dsimp only
      repeat rw [if_neg (by omega)]
  · intro c member
    rcases Multiset.mem_add.mp member with new | old
    · exact .inr (.inr ⟨p.nodes, Nat.lt_succ_self _, inside c new⟩)
    · rcases mapped c old with inHeap | inHead | ⟨k, before, inNode⟩
      · exact .inl inHeap
      · exact .inr (.inl inHead)
      · exact .inr (.inr ⟨k, Nat.lt_succ_of_lt before, inNode⟩)

variable {lists before after : List FreeList} {list : FreeList}

theorem head_mem : (head, fun w => w = 0) ∈ listCells head lists := by
  unfold listCells
  simp only [Multiset.mem_add]
  exact .inl (.inl (.inl mem_value))

theorem first_mem :
    (head + 4, fun w => w = (lists.map FreeList.node).headD head) ∈ listCells head lists := by
  obtain ⟨rest, first⟩ := @ring_first 4 5 head (lists.map FreeList.node)
  unfold listCells
  rw [first]
  simp only [Multiset.mem_add]
  exact .inl (.inr (.inl mem_value))

theorem next_mem :
    (list.node + 4, fun w => w = (after.map FreeList.node).headD head) ∈
      listCells head (before ++ list :: after) := by
  obtain ⟨rest, next⟩ :=
    @ring_next 4 5 head list.node (before.map FreeList.node) (after.map FreeList.node)
  unfold listCells
  rw [List.map_append, List.map_cons, next]
  simp only [Multiset.mem_add]
  exact .inl (.inr (.inl mem_value))

/-- The cells of one list and the others. -/
theorem lists_split (member : list ∈ lists) :
    ∃ rest, listCells head lists = value head 0 + (list.cells + rest) := by
  obtain ⟨before, after, rfl⟩ := List.append_of_mem member
  refine ⟨raws Nat (head + 1) 3 + ring 4 5 head ((before ++ list :: after).map FreeList.node) +
    ((before.map FreeList.cells).sum + (after.map FreeList.cells).sum), ?_⟩
  rw [listCells, @List.map_append _ _ FreeList.cells, List.map_cons, List.sum_append, List.sum_cons]
  abel

theorem size_mem (member : list ∈ lists) :
    (list.node, fun w => w = list.size) ∈ listCells head lists := by
  obtain ⟨rest, split⟩ := @lists_split head lists list member
  rw [split]
  simp only [Multiset.mem_add, FreeList.cells]
  exact .inr (.inl (.inl (.inl mem_value)))

/-- A member of a list is linked to the next one, or to the head of the list. -/
theorem member_next_mem {front back : List Nat} {h : Nat} (member : list ∈ lists)
    (members : list.members = front ++ h :: back) :
    (h + 1, fun w => w = back.headD (list.node + 1)) ∈ listCells head lists := by
  obtain ⟨cells, split⟩ := @lists_split head lists list member
  obtain ⟨links, next⟩ := @ring_next 1 2 (list.node + 1) h front back
  rw [split, FreeList.cells, members, next]
  simp only [Multiset.mem_add]
  exact .inr (.inl (.inr (.inl mem_value)))

theorem member_ne_node {m : Memory} {h : Nat}
    (described : Describes util (p.at (listCells head lists + rest)) m) (member : list ∈ lists)
    (listed : h ∈ list.members) : h ≠ list.node + 1 := by
  obtain ⟨cells, split⟩ := @lists_split head lists list member
  obtain ⟨front, back, members⟩ := List.append_of_mem listed
  obtain ⟨links, both⟩ := @ring_both 1 2 (list.node + 1) h front back
  have place : listCells head lists + rest =
      value (list.node + 1 + 1) (front.headD h) + (value (h + 1) (back.headD (list.node + 1)) +
        (links + (value head 0 + value list.node list.size + raw Nat (list.node + 1) + cells +
          rest))) := by
    rw [split, FreeList.cells, members, both]
    abel
  have holds := described.holds
  rw [place] at holds
  have apart := holds.ne mem_value (Multiset.mem_add.mpr (.inl mem_value))
  intro same
  rw [same] at apart
  exact apart rfl

theorem node_ne_head {m : Memory} (described : Describes util (p.at (listCells head lists + rest)) m)
    (member : list ∈ lists) : list.node ≠ head := by
  obtain ⟨others, split⟩ := @lists_split head lists list member
  have holds := described.holds.left
  rw [split] at holds
  have inside : (list.node, fun w => w = list.size) ∈ list.cells + others := by
    simp only [Multiset.mem_add, FreeList.cells]
    exact .inl (.inl (.inl mem_value))
  exact (holds.ne mem_value inside).symm

/-- The node of the first list of at least a size, or the head. -/
def nodeFor (head size : Nat) (lists : List FreeList) : Nat :=
  ((lists.find? (size ≤ ·.size)).map FreeList.node).getD head

theorem nodeFor_cons (size : Nat) (list : FreeList) (lists : List FreeList) :
    nodeFor head size (list :: lists) =
      if size ≤ list.size then list.node else nodeFor head size lists := by
  unfold nodeFor
  by_cases fits : size ≤ list.size
  · simp [fits]
  · simp [fits]

theorem does_getSizeNodeFrom {size rounds : Nat} (enough : after.length < rounds) :
    Does util (p.at (listCells util.head (before ++ after) + rest))
      (getSizeNodeFrom util size rounds ((after.map FreeList.node).headD util.head))
      (nodeFor util.head size after) (p.at (listCells util.head (before ++ after) + rest)) := by
  induction after generalizing before rounds with
  | nil =>
      obtain ⟨rounds, rfl⟩ := Nat.exists_eq_add_one_of_ne_zero (Nat.ne_zero_of_lt enough)
      simp only [List.map_nil, List.headD_nil, getSizeNodeFrom, if_pos]
      exact .pure _
  | cons list after ih =>
      obtain ⟨rounds, rfl⟩ := Nat.exists_eq_add_one_of_ne_zero (Nat.ne_zero_of_lt enough)
      have member : list ∈ before ++ list :: after := by simp
      apply does_knowing (fun m described => node_ne_head described member)
      intro other
      simp only [List.map_cons, List.headD_cons, getSizeNodeFrom, if_neg other]
      apply (does_load_mem (Multiset.mem_add.mpr (.inl (size_mem member)))).bind
      by_cases fits : size ≤ list.size
      · rw [if_pos fits, nodeFor_cons, if_pos fits]
        exact .pure _
      · rw [if_neg fits, nodeFor_cons, if_neg fits]
        apply (does_load_mem (Multiset.mem_add.mpr (.inl next_mem))).bind
        have rest := @ih (before ++ [list]) rounds (by simpa using enough)
        rw [List.append_assoc, List.singleton_append] at rest
        exact rest

theorem does_getSizeNode {size : Nat} (few : lists.length ≤ p.nodes) :
    Does util (p.at (listCells util.head lists + rest)) (getSizeNode util size)
      (nodeFor util.head size lists) (p.at (listCells util.head lists + rest)) := by
  unfold getSizeNode
  apply (does_load_mem (Multiset.mem_add.mpr (.inl first_mem))).bind
  apply does_get
  intro m _ nodes
  rw [nodes]
  exact @does_getSizeNodeFrom util p rest [] lists size (p.nodes + 1) (Nat.lt_succ_of_le few)

/-- A block is put at the front of the list of its size, for which there may have to be a new
node. -/
def pushFree (node size header : Nat) : List FreeList → List FreeList
  | [] => [⟨node, size, [header]⟩]
  | list :: lists =>
      if list.size < size then list :: pushFree node size header lists
      else if list.size = size then { list with members := header :: list.members } :: lists
      else ⟨node, size, [header]⟩ :: list :: lists

def nodesWith (size nodes : Nat) (lists : List FreeList) : Nat :=
  if size ∈ lists.map FreeList.size then nodes else nodes + 1

def Increasing (lists : List FreeList) : Prop := lists.Pairwise (·.size < ·.size)

theorem pushFree_cases (head node size header : Nat) (increasing : Increasing lists) :
    (∃ before list after, lists = before ++ list :: after ∧ list.size = size ∧
      pushFree node size header lists =
        before ++ { list with members := header :: list.members } :: after ∧
      nodeFor head size lists = list.node) ∨
    (∃ before after, lists = before ++ after ∧ size ∉ lists.map FreeList.size ∧
      pushFree node size header lists = before ++ ⟨node, size, [header]⟩ :: after ∧
      nodeFor head size lists = (after.map FreeList.node).headD head) := by
  induction lists with
  | nil => exact .inr ⟨[], [], rfl, by simp, rfl, rfl⟩
  | cons list lists ih =>
      obtain ⟨larger, rest⟩ := List.pairwise_cons.mp increasing
      rw [nodeFor_cons, pushFree]
      by_cases less : list.size < size
      · rw [if_pos less, if_neg (Nat.not_le_of_lt less)]
        rcases ih rest with ⟨before, found, after, split, same, pushed, node⟩ |
          ⟨before, after, split, other, pushed, node⟩
        · exact .inl ⟨list :: before, found, after, by rw [split]; rfl, same, by rw [pushed]; rfl,
            node⟩
        · refine .inr ⟨list :: before, after, by rw [split]; rfl, ?_, by rw [pushed]; rfl, node⟩
          rw [List.map_cons, List.mem_cons, not_or]
          exact ⟨by omega, other⟩
      · have fits : size ≤ list.size := Nat.le_of_not_lt less
        rw [if_neg less, if_pos fits]
        by_cases same : list.size = size
        · rw [if_pos same]
          exact .inl ⟨[], list, lists, rfl, same, rfl, rfl⟩
        · rw [if_neg same]
          refine .inr ⟨[], list :: lists, rfl, ?_, rfl, rfl⟩
          rw [List.map_cons, List.mem_cons, not_or]
          refine ⟨by omega, ?_⟩
          intro member
          obtain ⟨other, listed, size⟩ := List.mem_map.mp member
          have := larger other listed
          omega

/-- A node is put into the list of nodes. -/
theorem does_sfAddFreeList {size : Nat} :
    Does util (p.at (listCells util.head (before ++ after) + rest))
      (sfAddFreeList util size ((after.map FreeList.node).headD util.head)) (util.node p.nodes)
      ({ p with nodes := p.nodes + 1 }.at
        (listCells util.head (before ++ (⟨util.node p.nodes, size, []⟩ : FreeList) :: after) + rest)) := by
  obtain ⟨links, without, there⟩ := @path_place 4 5 util.head util.head
    (before.map FreeList.node) (after.map FreeList.node)
  obtain ⟨next, isNext⟩ : ∃ next, next = (after.map FreeList.node).headD util.head := ⟨_, rfl⟩
  obtain ⟨last, isLast⟩ : ∃ last, last = (before.map FreeList.node).getLastD util.head := ⟨_, rfl⟩
  obtain ⟨node, isNode⟩ : ∃ node, node = util.node p.nodes := ⟨_, rfl⟩
  obtain ⟨others, isOthers⟩ : ∃ others, others = value util.head 0 + raws Nat (util.head + 1) 3 +
      links + ((before.map FreeList.cells).sum + (after.map FreeList.cells).sum) + rest := ⟨_, rfl⟩
  have start : listCells util.head (before ++ after) + rest =
      value (next + 5) last + (value (last + 4) next + others) := by
    rw [listCells, List.map_append, List.map_append, ring, without, ← isNext, ← isLast, edge,
      List.sum_append, isOthers]
    abel
  have finish : listCells util.head (before ++ (⟨node, size, []⟩ : FreeList) :: after) + rest =
      value (next + 5) node + (value (last + 4) node +
        (nodeCells node size next last + others)) := by
    rw [listCells, List.map_append, List.map_append, List.map_cons, List.map_cons, ring, there node,
      ← isNext, ← isLast, edge, edge, List.sum_append, List.sum_cons, nodeCells_eq, isOthers]
    abel
  have middle : nodeCells node size next last +
        (value (next + 5) last + (value (last + 4) next + others)) =
      value (next + 5) last + (value (last + 4) next + (nodeCells node size next last + others)) := by
    abel
  rw [start, ← isNext, ← isNode, finish]
  apply does_load.bind
  apply does_newNode.bind
  rw [← isNode, middle]
  apply (does_second fun _ => does_store_value).bind
  apply does_store_value.bind
  exact .pure node

theorem listCells_append (head : Nat) (before after : List FreeList) :
    ∃ rest, ∀ list : FreeList, listCells head (before ++ list :: after) =
      value head 0 + raws Nat (head + 1) 3 +
        ring 4 5 head (before.map FreeList.node ++ list.node :: after.map FreeList.node) +
        (list.cells + rest) := by
  refine ⟨(before.map FreeList.cells).sum + (after.map FreeList.cells).sum, ?_⟩
  intro list
  rw [listCells, List.map_append, List.map_append, List.map_cons, List.map_cons, List.sum_append,
    List.sum_cons]
  abel

/-- A block is put on a list. -/
theorem does_push :
    Does util (p.at (listCells head (before ++ list :: after) +
        (raw Nat (h + 1) + raw Nat (h + 2) + rest))) (addHeaderToFreeList h list.node) h
      (p.at (listCells head (before ++ { list with members := h :: list.members } :: after) +
        rest)) := by
  obtain ⟨others, split⟩ := listCells_append head before after
  obtain ⟨links, front, more⟩ := @ring_cons 1 2 (list.node + 1) list.members
  obtain ⟨nodes, isNodes⟩ : ∃ nodes, nodes = value head 0 + raws Nat (head + 1) 3 +
      ring 4 5 head (before.map FreeList.node ++ list.node :: after.map FreeList.node) := ⟨_, rfl⟩
  have start : listCells head (before ++ list :: after) +
        (raw Nat (h + 1) + raw Nat (h + 2) + rest) =
      edge 1 2 (list.node + 1) (list.members.headD (list.node + 1)) +
        (raw Nat (h + 1) + raw Nat (h + 2)) + (value list.node list.size + raw Nat (list.node + 1) +
          links + (nodes + others + rest)) := by
    rw [split list, FreeList.cells, front, isNodes]
    abel
  have finish : listCells head (before ++ { list with members := h :: list.members } :: after) +
        rest =
      edge 1 2 (list.node + 1) h + edge 1 2 h (list.members.headD (list.node + 1)) +
        (value list.node list.size + raw Nat (list.node + 1) + links + (nodes + others + rest)) := by
    rw [split, FreeList.cells, more h, isNodes]
    abel
  rw [start, finish]
  exact does_addHeaderToFreeList

/-- The node before which a list of a new size comes has another size, which is 0 for the head. -/
theorem other_size_mem {size : Nat} (positive : 0 < size)
    (other : size ∉ (before ++ after).map FreeList.size) :
    ∃ there, ((after.map FreeList.node).headD head, fun w => w = there) ∈
      listCells head (before ++ after) ∧ size ≠ there := by
  cases after with
  | nil => exact ⟨0, head_mem, positive.ne'⟩
  | cons list after =>
      refine ⟨list.size, size_mem (by simp), ?_⟩
      rintro rfl
      exact other (List.mem_map_of_mem (by simp))

/-- The list of a size is found or made, and a block put on it. -/
theorem does_pushFree {size : Nat} (increasing : Increasing lists) (few : lists.length ≤ p.nodes)
    (positive : 0 < size) :
    Does util (p.at (listCells util.head lists + (raw Nat (h + 1) + raw Nat (h + 2) + rest)))
      (getSentinelOfSize util size >>= fun sentinel => addHeaderToFreeList h sentinel) h
      ({ p with nodes := nodesWith size p.nodes lists }.at
        (listCells util.head (pushFree (util.node p.nodes) size h lists) + rest)) := by
  have found := @does_getSizeNode util p (raw Nat (h + 1) + raw Nat (h + 2) + rest) lists size few
  rcases pushFree_cases util.head (util.node p.nodes) size h increasing with
    ⟨before, list, after, rfl, same, pushed, node⟩ | ⟨before, after, rfl, other, pushed, node⟩
  · have present : size ∈ (before ++ list :: after).map FreeList.size := by
      rw [← same]
      exact List.mem_map_of_mem (by simp)
    have member : list ∈ before ++ list :: after := by simp
    rw [nodesWith, if_pos present, pushed]
    rw [node] at found
    apply Returns.bind (a := list.node)
    · unfold getSentinelOfSize
      apply found.bind
      apply (does_load_mem (Multiset.mem_add.mpr (.inl (size_mem member)))).bind
      rw [if_pos same.symm]
      exact .pure _
    · exact does_push
  · rw [nodesWith, if_neg other, pushed]
    rw [node] at found
    obtain ⟨there, known, different⟩ := @other_size_mem util.head before after size positive other
    have sentinel : Does util
        (p.at (listCells util.head (before ++ after) + (raw Nat (h + 1) + raw Nat (h + 2) + rest)))
        (getSentinelOfSize util size) (util.node p.nodes)
        ({ p with nodes := p.nodes + 1 }.at
          (listCells util.head (before ++ (⟨util.node p.nodes, size, []⟩ : FreeList) :: after) +
            (raw Nat (h + 1) + raw Nat (h + 2) + rest))) := by
      unfold getSentinelOfSize
      apply found.bind
      apply (does_load_mem (Multiset.mem_add.mpr (.inl known))).bind
      rw [if_neg different]
      exact does_sfAddFreeList
    exact sentinel.bind does_push

theorem toSize_units {units : Nat} (fits : units < 2 ^ 27) : toSize (16 * units) = 16 * units := by
  unfold toSize
  omega

/-- A free block is put on the list of its size. -/
theorem does_addToList {is : Info → Prop} {units : Nat}
    (sized : ∀ info, is info → info.blockSize.toNat = units) (fits : units < 2 ^ 27)
    (positive : 0 < units) (increasing : Increasing lists) (few : lists.length ≤ p.nodes) :
    Does util (p.at (tagged h is +
        (listCells util.head lists + (raw Nat (h + 1) + raw Nat (h + 2) + rest)))) (addToList util h) h
      ({ p with nodes := nodesWith (16 * units) p.nodes lists }.at
        (tagged h is + (listCells util.head (pushFree (util.node p.nodes) (16 * units) h lists) +
          rest))) := by
  apply does_loadInfo
  intro info known
  rw [Info.bytes_eq (sized info known) fits, toSize_units fits]
  rw [add_left_comm, add_left_comm (tagged h is) (listCells _ _)]
  rw [add_left_comm (tagged h is)]
  exact does_pushFree increasing few (by omega)

/-- The members of all lists, with the sizes of their lists. -/
def entries (lists : List FreeList) : List (Nat × Nat) :=
  lists.flatMap fun list => list.members.map fun header => (header, list.size)

@[simp] theorem entries_append :
    entries (before ++ after) = entries before ++ entries after := by
  simp [entries]

@[simp] theorem entries_cons :
    entries (list :: lists) = list.members.map (·, list.size) ++ entries lists := by
  simp [entries]

theorem length_pushFree (node size header : Nat) (increasing : Increasing lists) :
    (pushFree node size header lists).length = nodesWith size lists.length lists := by
  rcases pushFree_cases 0 node size header increasing with
    ⟨before, list, after, rfl, same, pushed, -⟩ | ⟨before, after, rfl, other, pushed, -⟩
  · have present : size ∈ (before ++ list :: after).map FreeList.size := by
      rw [← same]
      exact List.mem_map_of_mem (by simp)
    rw [nodesWith, if_pos present, pushed]
    simp
  · rw [nodesWith, if_neg other, pushed]
    simp only [List.length_append, List.length_cons]
    omega

theorem entries_pushFree (node size header : Nat) (increasing : Increasing lists) :
    (entries (pushFree node size header lists)).Perm ((header, size) :: entries lists) := by
  rcases pushFree_cases 0 node size header increasing with
    ⟨before, list, after, rfl, same, pushed, -⟩ | ⟨before, after, rfl, other, pushed, -⟩
  · rw [pushed, ← same]
    simp only [entries_append, entries_cons, List.map_cons, List.cons_append]
    exact List.perm_middle
  · rw [pushed]
    simp only [entries_append, entries_cons, List.map_cons, List.map_nil, List.cons_append,
      List.nil_append]
    exact List.perm_middle

theorem sizes_pushFree {node size header other : Nat}
    (member : other ∈ (pushFree node size header lists).map FreeList.size) :
    other = size ∨ other ∈ lists.map FreeList.size := by
  induction lists with
  | nil => exact .inl (by simpa [pushFree] using member)
  | cons list lists ih =>
      unfold pushFree at member
      split at member
      · rcases List.mem_cons.mp member with rfl | later
        · exact .inr (by simp)
        · rcases ih later with same | old
          · exact .inl same
          · exact .inr (List.mem_cons_of_mem _ old)
      · split at member
        · exact .inr member
        · rcases List.mem_cons.mp member with rfl | later
          · exact .inl rfl
          · exact .inr later

theorem increasing_pushFree (node size header : Nat) (increasing : Increasing lists) :
    Increasing (pushFree node size header lists) := by
  induction lists with
  | nil => exact List.pairwise_singleton _ _
  | cons list lists ih =>
      obtain ⟨larger, rest⟩ := List.pairwise_cons.mp increasing
      unfold pushFree
      split
      · rename_i less
        refine List.pairwise_cons.mpr ⟨?_, ih rest⟩
        intro other member
        rcases sizes_pushFree (List.mem_map_of_mem member) with same | old
        · omega
        · obtain ⟨found, listed, same⟩ := List.mem_map.mp old
          have := larger found listed
          omega
      · rename_i notLess
        split
        · exact List.pairwise_cons.mpr ⟨larger, rest⟩
        · rename_i different
          refine List.pairwise_cons.mpr ⟨?_, increasing⟩
          intro other member
          rcases List.mem_cons.mp member with rfl | later
          · show size < other.size
            omega
          · have := larger other later
            show size < other.size
            omega

/-- A block is taken off the first list it is on. -/
def dropFree (header : Nat) : List FreeList → List FreeList
  | [] => []
  | list :: lists =>
      if header ∈ list.members then { list with members := list.members.erase header } :: lists
      else list :: dropFree header lists

theorem dropFree_split {header size : Nat} (listed : (header, size) ∈ entries lists) :
    ∃ before list after, lists = before ++ list :: after ∧ header ∈ list.members ∧
      dropFree header lists =
        before ++ { list with members := list.members.erase header } :: after := by
  induction lists with
  | nil => simp [entries] at listed
  | cons list lists ih =>
      unfold dropFree
      split
      · rename_i member
        exact ⟨[], list, lists, rfl, member, rfl⟩
      · rename_i elsewhere
        rw [entries_cons, List.mem_append] at listed
        rcases listed with here | later
        · obtain ⟨found, member, same⟩ := List.mem_map.mp here
          cases same
          exact absurd member elsewhere
        · obtain ⟨before, found, after, rfl, member, dropped⟩ := ih later
          exact ⟨list :: before, found, after, rfl, member, by rw [dropped]; rfl⟩

theorem sizes_dropFree (header : Nat) (lists : List FreeList) :
    (dropFree header lists).map FreeList.size = lists.map FreeList.size := by
  induction lists with
  | nil => rfl
  | cons list lists ih =>
      unfold dropFree
      split
      · rfl
      · rw [List.map_cons, List.map_cons, ih]

theorem length_dropFree (header : Nat) (lists : List FreeList) :
    (dropFree header lists).length = lists.length := by
  have same := congrArg List.length (sizes_dropFree header lists)
  simpa using same

theorem increasing_iff : Increasing lists ↔ (lists.map FreeList.size).Pairwise (· < ·) :=
  List.pairwise_map.symm

theorem increasing_dropFree (header : Nat) (increasing : Increasing lists) :
    Increasing (dropFree header lists) := by
  rw [increasing_iff, sizes_dropFree]
  exact increasing_iff.mp increasing

theorem entries_dropFree {header size : Nat} (listed : (header, size) ∈ entries lists)
    (once : ((entries lists).map Prod.fst).Nodup) :
    (entries lists).Perm ((header, size) :: entries (dropFree header lists)) := by
  obtain ⟨before, list, after, rfl, member, dropped⟩ := dropFree_split listed
  have inList : (header, list.size) ∈ entries (before ++ list :: after) := by
    rw [entries_append, entries_cons]
    exact List.mem_append_right _ (List.mem_append_left _ (List.mem_map_of_mem member))
  have same : (header, size) = (header, list.size) :=
    List.inj_on_of_nodup_map once listed inList rfl
  have erased := (List.perm_cons_erase member).map fun header => (header, list.size)
  rw [dropped, same]
  simp only [entries_append, entries_cons]
  exact ((erased.append_right _).append_left _).trans List.perm_middle

/-- `removeHeader` on a block that is listed joins its neighbours and leaves its links behind. -/
theorem does_dropFree {size : Nat} (listed : (h, size) ∈ entries lists) :
    ∃ last next others, listCells head (dropFree h lists) = edge 1 2 last next + others ∧
      ∀ rest, Does util (p.at (listCells head lists + rest)) (removeHeader h) h
        (p.at (listCells head (dropFree h lists) + (value (h + 1) next + value (h + 2) last) +
          rest)) := by
  obtain ⟨before, list, after, rfl, member, dropped⟩ := dropFree_split listed
  obtain ⟨others, split⟩ := listCells_append head before after
  obtain ⟨last, next, links, there, gone⟩ := @ring_member 1 2 (list.node + 1) h list.members member
  obtain ⟨nodes, isNodes⟩ : ∃ nodes, nodes = value head 0 + raws Nat (head + 1) 3 +
      ring 4 5 head (before.map FreeList.node ++ list.node :: after.map FreeList.node) := ⟨_, rfl⟩
  obtain ⟨kept, isKept⟩ : ∃ kept, kept =
      value list.node list.size + raw Nat (list.node + 1) + links + (nodes + others) := ⟨_, rfl⟩
  have start : listCells head (before ++ list :: after) =
      edge 1 2 last h + edge 1 2 h next + kept := by
    rw [split list, FreeList.cells, there, isKept, isNodes]
    abel
  have without : listCells head (dropFree h (before ++ list :: after)) =
      edge 1 2 last next + kept := by
    rw [dropped, split, FreeList.cells, gone, isKept, isNodes]
    abel
  refine ⟨last, next, kept, without, ?_⟩
  intro rest
  have finish : edge 1 2 last next + kept + (value (h + 1) next + value (h + 2) last) + rest =
      edge 1 2 last next + (value (h + 1) next + value (h + 2) last) + (kept + rest) := by
    abel
  rw [start, without, finish, add_assoc _ kept]
  exact does_removeHeader

end Audible.Sfmm
