import Audible.Cells
import Audible.HeapData
import Audible.Returning

set_option autoImplicit false

/- What is known of words of memory while the allocator runs, and the accesses to them. -/
namespace Audible.Sfmm

open Cells Returning

@[simp] theorem Info.decode_encode (info : Info) : Info.decode info.encode = info := by
  obtain ⟨allocated, prevAllocated, zeroes, size, requested⟩ := info
  have isZeroes := zeroes.isLt
  have isSize := size.isLt
  have isRequested := requested.isLt
  have bits : ∀ b : Bool, b.toNat = 0 ∨ b.toNat = 1 := by decide
  have first := bits allocated
  have second := bits prevAllocated
  simp only [Info.decode, Info.encode, Info.mk.injEq]
  refine ⟨?_, ?_, ?_, ?_, ?_⟩
  · rw [Nat.testBit_zero]
    cases allocated
    · exact decide_eq_false (by simp only [Bool.toNat_false]; omega)
    · exact decide_eq_true (by simp only [Bool.toNat_true]; omega)
  · rw [Nat.testBit_succ, Nat.testBit_zero]
    cases prevAllocated
    · exact decide_eq_false (by simp only [Bool.toNat_false]; omega)
    · exact decide_eq_true (by simp only [Bool.toNat_true]; omega)
  · apply BitVec.eq_of_toNat_eq
    rw [BitVec.toNat_ofNat]
    omega
  · apply BitVec.eq_of_toNat_eq
    rw [BitVec.toNat_ofNat]
    omega
  · apply BitVec.eq_of_toNat_eq
    rw [BitVec.toNat_ofNat]
    omega

variable (util : Sfutil)

/-- The cells, and the rest of the state. -/
structure Picture where
  cells : Multiset (Nat × (Nat → Prop))
  pages : Nat
  nodes : Nat
  enomem : Bool

def Sfutil.Mapped (pages nodes address : Nat) : Prop :=
  (util.start ≤ address ∧ address < util.start + pages * pageWords) ∨
  (util.head ≤ address ∧ address < util.head + nodeWords) ∨
  ∃ k < nodes, util.node k ≤ address ∧ address < util.node k + nodeWords

structure Describes (p : Picture) (m : Memory) : Prop where
  holds : Holds m.word p.cells
  mapped : ∀ c ∈ p.cells, util.Mapped p.pages p.nodes c.1
  room : p.pages ≤ util.limit
  pages : m.pages = p.pages
  nodes : m.nodes = p.nodes
  enomem : m.enomem = p.enomem

def Picture.at (p : Picture) (cells : Multiset (Nat × (Nat → Prop))) : Picture :=
  { p with cells := cells }

@[simp] theorem Picture.at_pages (p : Picture) (cells : Multiset (Nat × (Nat → Prop))) :
    (p.at cells).pages = p.pages := rfl

@[simp] theorem Picture.at_nodes (p : Picture) (cells : Multiset (Nat × (Nat → Prop))) :
    (p.at cells).nodes = p.nodes := rfl

abbrev Does {α : Type} (before : Picture) (program : HeapM α) (value : α) (after : Picture) : Prop :=
  Returns (Describes util) before program value after

variable {util} {p : Picture} {rest : Multiset (Nat × (Nat → Prop))} {a v w : Nat}
variable {known known' : Nat → Prop}

theorem does_load : Does util (p.at (value a v + rest)) (load a) v (p.at (value a v + rest)) := by
  intro m described
  refine ⟨m, ?_, described⟩
  simp [load, described.holds.value]

theorem does_store (is : known' w) :
    Does util (p.at (cell a known + rest)) (store a w) () (p.at (cell a known' + rest)) := by
  intro m described
  obtain ⟨v, here, -⟩ := described.holds.read
  refine ⟨{ m with word := Function.update m.word a (some w) }, ?_, ?_⟩
  · simp [store, here]
  · obtain ⟨holds, mapped, room, pages, nodes, enomem⟩ := described
    refine ⟨holds.write is, ?_, room, pages, nodes, enomem⟩
    intro c member
    rcases Multiset.mem_add.mp member with at_a | elsewhere
    · obtain rfl := mem_cell.mp at_a
      exact mapped (a, known) (Multiset.mem_add.mpr (.inl (mem_cell.mpr rfl)))
    · exact mapped c (Multiset.mem_add.mpr (.inr elsewhere))

theorem does_store_value :
    Does util (p.at (cell a known + rest)) (store a w) () (p.at (value a w + rest)) :=
  does_store rfl

theorem of_load {m m' : Memory} (runs : load a m = .ok (v, m')) : m.word a = some v ∧ m' = m := by
  unfold load at runs
  split at runs
  · cases runs
  · rename_i known here
    cases runs
    exact ⟨here, rfl⟩

theorem of_store {m m' : Memory} (runs : store a v m = .ok ((), m')) :
    m'.word = Function.update m.word a (some v) := by
  unfold store at runs
  split at runs
  · cases runs
    rfl
  · cases runs

/-- What is known of a word of bit-fields. -/
def tagged (a : Nat) (is : Info → Prop) : Multiset (Nat × (Nat → Prop)) :=
  cell a fun w => is (Info.decode w)

variable {is is' is₂ : Info → Prop}

theorem tagged_raw : raw Nat a = tagged a fun _ => True := rfl

theorem reads_tagged {m : Memory} (described : Describes util (p.at (tagged a is + rest)) m) :
    ∃ w, load a m = .ok (w, m) ∧ is (Info.decode w) := by
  obtain ⟨w, here, known⟩ := described.holds.read
  exact ⟨w, by simp [load, here], known⟩

theorem reads_info {m : Memory} (described : Describes util (p.at (tagged a is + rest)) m) :
    ∃ info, loadInfo a m = .ok (info, m) ∧ is info := by
  obtain ⟨w, reads, known⟩ := reads_tagged described
  refine ⟨Info.decode w, ?_, known⟩
  unfold loadInfo
  exact run_bind reads

/-- A word whose bits are partly known is read. -/
theorem does_loadInfo {β : Type} {next : Info → HeapM β} {b : β} {after : Picture}
    (tail : ∀ info, is info → Does util (p.at (tagged a is + rest)) (next info) b after) :
    Does util (p.at (tagged a is + rest)) (loadInfo a >>= next) b after :=
  Returns.look (fun _ described => reads_info described) tail

theorem does_modifyInfo {change : Info → Info} (changes : ∀ info, is info → is' (change info)) :
    Does util (p.at (tagged a is + rest)) (modifyInfo a change) () (p.at (tagged a is' + rest)) := by
  apply Returns.look (fun _ described => reads_tagged described)
  intro w known
  apply does_store
  rw [Info.decode_encode]
  exact changes _ known

/-- Less is known of some words. -/
theorem Describes.weakens {cells cells' : Multiset (Nat × (Nat → Prop))} {m : Memory}
    (weakens : Weakens cells cells') (described : Describes util (p.at cells) m) :
    Describes util (p.at cells') m := by
  obtain ⟨holds, mapped, room, pages, nodes, enomem⟩ := described
  refine ⟨weakens.holds holds, ?_, room, pages, nodes, enomem⟩
  intro c member
  obtain ⟨d, before, same⟩ := weakens.mem member
  rw [← same]
  exact mapped d before

theorem does_weakened {α : Type} {program : HeapM α} {result : α} {after : Picture}
    {cells cells' : Multiset (Nat × (Nat → Prop))} (weakens : Weakens cells cells')
    (runs : Does util (p.at cells') program result after) :
    Does util (p.at cells) program result after :=
  fun m described => runs m (described.weakens weakens)

/-- The program looks at the numbers of pages and nodes. -/
theorem does_get {β : Type} {next : Memory → HeapM β} {b : β} {before after : Picture}
    (tail : ∀ m : Memory, m.pages = before.pages → m.nodes = before.nodes →
      Does util before (next m) b after) : Does util before (get >>= next) b after := by
  have looks : ∀ m, Describes util before m → ∃ m', (get : HeapM Memory) m = .ok (m', m) ∧
      (m'.pages = before.pages ∧ m'.nodes = before.nodes) :=
    fun m described => ⟨m, rfl, described.pages, described.nodes⟩
  exact Returns.look looks fun m same => tail m same.1 same.2

section Places

variable {α : Type} {program : HeapM α} {result : α}
variable {part part' x y z : Multiset (Nat × (Nat → Prop))}

theorem does_second
    (runs : ∀ rest, Does util (p.at (part + rest)) program result (p.at (part' + rest))) :
    Does util (p.at (x + (part + rest))) program result (p.at (x + (part' + rest))) := by
  rw [add_left_comm x, add_left_comm x]
  exact runs _

theorem does_third
    (runs : ∀ rest, Does util (p.at (part + rest)) program result (p.at (part' + rest))) :
    Does util (p.at (x + (y + (part + rest)))) program result (p.at (x + (y + (part' + rest)))) := by
  rw [← add_assoc x, ← add_assoc x]
  exact does_second runs

theorem does_fourth
    (runs : ∀ rest, Does util (p.at (part + rest)) program result (p.at (part' + rest))) :
    Does util (p.at (x + (y + (z + (part + rest))))) program result
      (p.at (x + (y + (z + (part' + rest))))) := by
  rw [← add_assoc x, ← add_assoc x]
  exact does_third runs

end Places

/-- What the memory shows may be used. -/
theorem does_knowing {α : Type} {program : HeapM α} {result : α} {before after : Picture}
    {fact : Prop} (known : ∀ m, Describes util before m → fact)
    (runs : fact → Does util before program result after) : Does util before program result after :=
  fun m described => runs (known m described) m described

/-- The bits of a header or footer, and its size in units of 16 bytes. -/
structure Tag (allocated prevAllocated : Bool) (units : Nat) (info : Info) : Prop where
  allocated : info.allocated = allocated
  prevAllocated : info.prevAllocated = prevAllocated
  size : info.blockSize.toNat = units

variable {allocated prevAllocated : Bool} {units more h : Nat}

theorem toField_units (fits : units < 2 ^ 28) : (toField (16 * units)).toNat = units := by
  have quotient : (16 * (units : Int)) / 16 = units := by omega
  rw [toField, quotient, BitVec.ofInt_natCast, BitVec.toNat_ofNat, Nat.mod_eq_of_lt fits]

/-- Sizes below 2 ^ 31 are what they should be as an `int`. -/
theorem bmod_bytes (fits : units < 2 ^ 27) :
    (16 * (units : Int)).bmod (2 ^ 32) = 16 * (units : Int) := by
  apply Int.bmod_eq_of_le_mul_two
  · omega
  · omega

theorem Info.bytes_eq {info : Info} (size : info.blockSize.toNat = units) (fits : units < 2 ^ 27) :
    info.bytes = 16 * (units : Int) := by
  unfold Info.bytes
  rw [size]
  exact bmod_bytes fits

theorem Info.setFree_tag (info : Info) (fits : units < 2 ^ 28) :
    Tag false true units (info.setFree (16 * units)) :=
  ⟨rfl, rfl, toField_units fits⟩

theorem does_setFreeHeader (fits : units < 2 ^ 28) :
    Does util (p.at (tagged a is + rest)) (setFreeHeader a (16 * units)) a
      (p.at (tagged a (Tag false true units) + rest)) :=
  (does_modifyInfo fun info _ => info.setFree_tag fits).bind (.pure a)

theorem does_setFooter (fits : units < 2 ^ 28) :
    Does util (p.at (tagged a is + rest)) (setFooter a (16 * units)) a
      (p.at (tagged a (Tag false true units) + rest)) :=
  (does_modifyInfo fun info _ => info.setFree_tag fits).bind (.pure a)

theorem does_getFooterPointer (sized : ∀ info, is info → info.blockSize.toNat = units) :
    Does util (p.at (tagged h is + rest)) (getFooterPointer h) (h + 2 * units - 1)
      (p.at (tagged h is + rest)) := by
  apply does_loadInfo
  intro info known
  rw [sized info known]
  exact .pure _

theorem does_getNextHeaderPointer (sized : ∀ info, is info → info.blockSize.toNat = units) :
    Does util (p.at (tagged h is + rest)) (getNextHeaderPointer h) (h + 2 * units)
      (p.at (tagged h is + rest)) := by
  apply does_loadInfo
  intro info known
  rw [sized info known]
  exact .pure _

theorem does_getHeaderPointer (sized : ∀ info, is info → info.blockSize.toNat = units)
    (positive : 0 < units) :
    Does util (p.at (tagged (h + 2 * units - 1) is + rest)) (getHeaderPointer (h + 2 * units - 1)) h
      (p.at (tagged (h + 2 * units - 1) is + rest)) := by
  apply does_loadInfo
  intro info known
  rw [sized info known]
  rw [if_pos (by omega), show h + 2 * units - 1 + 1 - 2 * units = h by omega]
  exact .pure _

theorem does_setPrevAllocated (set : ∀ info, is info →
    is' { info with prevAllocated := prevAllocated }) :
    Does util (p.at (tagged a is + rest)) (setPrevAllocated a prevAllocated) ()
      (p.at (tagged a is' + rest)) :=
  does_modifyInfo set

theorem does_coalesce (sized : ∀ info, is info → info.blockSize.toNat = units)
    (fits : units + more < 2 ^ 27) :
    Does util (p.at (tagged h is + (tagged (h + 2 * (units + more) - 1) is₂ + rest)))
      (coalesce h (16 * more)) h
      (p.at (tagged h (Tag false true (units + more)) +
        (tagged (h + 2 * (units + more) - 1) (Tag false true (units + more)) + rest))) := by
  apply does_loadInfo
  intro info known
  have sum : info.bytes + 16 * (more : Int) = 16 * ((units + more : Nat) : Int) := by
    rw [Info.bytes_eq (sized info known) (by omega)]
    omega
  rw [sum, bmod_bytes fits]
  apply (does_setFreeHeader (by omega)).bind
  apply (does_getFooterPointer fun _ tag => tag.size).bind
  rw [add_left_comm (tagged h _), add_left_comm (tagged h _)]
  exact (does_setFooter (by omega)).bind (.pure h)

end Audible.Sfmm
