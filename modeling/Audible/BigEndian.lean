import Mathlib.Data.List.Basic
import Mathlib.Data.Nat.ModEq
import Mathlib.Tactic.Ring

set_option autoImplicit false

/- Big-endian byte strings: the number a byte string spells, the string of a given width
that spells a number, and the two's-complement reading. Nothing here is about audio. -/
namespace BigEndian

/-- The number spelled by `bytes` after the digits of `n`. -/
def valueFrom (n : Nat) : List (BitVec 8) → Nat
  | [] => n
  | b :: bytes => valueFrom (256 * n + b.toNat) bytes

def value (bytes : List (BitVec 8)) : Nat := valueFrom 0 bytes

/-- The `width` low base-256 digits of `n`, most significant first. -/
def digits : Nat → Nat → List (BitVec 8)
  | 0, _ => []
  | width + 1, n => BitVec.ofNat 8 (n / 256 ^ width) :: digits width n

/-- The two's-complement value of a byte string of its own width. -/
def signedValue (bytes : List (BitVec 8)) : Int :=
  (value bytes : Int).bmod (256 ^ bytes.length)

private theorem width_pos (width : Nat) : 0 < 256 ^ width := Nat.pow_pos (by decide)

@[simp] theorem valueFrom_nil (n : Nat) : valueFrom n [] = n := rfl

@[simp] theorem valueFrom_cons (n : Nat) (b : BitVec 8) (bytes : List (BitVec 8)) :
    valueFrom n (b :: bytes) = valueFrom (256 * n + b.toNat) bytes := rfl

@[simp] theorem digits_length (width n : Nat) : (digits width n).length = width := by
  induction width with
  | zero => rfl
  | succ width ih => simp [digits, ih]

theorem valueFrom_eq (n : Nat) (bytes : List (BitVec 8)) :
    valueFrom n bytes = 256 ^ bytes.length * n + value bytes := by
  induction bytes generalizing n with
  | nil => simp [value]
  | cons b bytes ih =>
      rw [value, valueFrom_cons, valueFrom_cons, ih, ih, List.length_cons, Nat.pow_succ,
        Nat.mul_add]
      ring

theorem value_cons (b : BitVec 8) (bytes : List (BitVec 8)) :
    value (b :: bytes) = 256 ^ bytes.length * b.toNat + value bytes := by
  rw [value, valueFrom_cons, valueFrom_eq]
  simp

theorem value_lt (bytes : List (BitVec 8)) : value bytes < 256 ^ bytes.length := by
  induction bytes with
  | nil => simp [value]
  | cons b bytes ih =>
      have top : b.toNat + 1 ≤ 256 := b.isLt
      calc
        value (b :: bytes) < 256 ^ bytes.length * b.toNat + 256 ^ bytes.length := by
          rw [value_cons]
          omega
        _ = 256 ^ bytes.length * (b.toNat + 1) := by rw [Nat.mul_add, Nat.mul_one]
        _ ≤ 256 ^ bytes.length * 256 := Nat.mul_le_mul_left _ top
        _ = 256 ^ (b :: bytes).length := by rw [List.length_cons, Nat.pow_succ]

theorem digits_add_mul (width n k : Nat) : digits width (256 ^ width * k + n) = digits width n := by
  induction width generalizing k with
  | zero => rfl
  | succ width ih =>
      have head : BitVec.ofNat 8 ((256 ^ (width + 1) * k + n) / 256 ^ width) =
          BitVec.ofNat 8 (n / 256 ^ width) := by
        apply BitVec.eq_of_toNat_eq
        rw [Nat.pow_succ, Nat.mul_assoc, Nat.add_comm, Nat.add_mul_div_left _ _ (width_pos _)]
        simp only [BitVec.toNat_ofNat]
        omega
      rw [digits, digits, head, Nat.pow_succ, Nat.mul_assoc, ih]

/-- Only the low digits of a number are written. -/
theorem digits_mod (width n : Nat) : digits width (n % 256 ^ width) = digits width n := by
  conv_rhs => rw [← Nat.div_add_mod n (256 ^ width), digits_add_mul]

theorem digits_value (bytes : List (BitVec 8)) : digits bytes.length (value bytes) = bytes := by
  induction bytes with
  | nil => rfl
  | cons b bytes ih =>
      have head : value (b :: bytes) / 256 ^ bytes.length = b.toNat := by
        rw [value_cons, Nat.mul_add_div (width_pos _), Nat.div_eq_of_lt (value_lt bytes),
          Nat.add_zero]
      rw [List.length_cons, digits, head, value_cons, digits_add_mul, ih]
      simp

theorem value_digits (width n : Nat) : value (digits width n) = n % 256 ^ width := by
  induction width with
  | zero => simp [digits, value, Nat.mod_one]
  | succ width ih =>
      rw [digits, value_cons, digits_length, ih, BitVec.toNat_ofNat, Nat.pow_succ,
        Nat.add_comm]
      exact (Nat.mod_mul).symm

/-- The first `count` fields of `width` bytes each. -/
def fields (width : Nat) : Nat → List (BitVec 8) → List (List (BitVec 8))
  | 0, _ => []
  | count + 1, bytes => bytes.take width :: fields width count (bytes.drop width)

@[simp] theorem fields_length (width count : Nat) (bytes : List (BitVec 8)) :
    (fields width count bytes).length = count := by
  induction count generalizing bytes with
  | zero => rfl
  | succ count ih => simp [fields, ih]

theorem flatten_fields (width count : Nat) (bytes : List (BitVec 8))
    (whole : bytes.length = count * width) : (fields width count bytes).flatten = bytes := by
  induction count generalizing bytes with
  | zero => simp_all [fields]
  | succ count ih =>
      have rest : (bytes.drop width).length = count * width := by
        rw [List.length_drop, whole, Nat.succ_mul]
        omega
      rw [fields, List.flatten_cons, ih _ rest, List.take_append_drop]

theorem length_of_mem_fields {width count : Nat} {bytes field : List (BitVec 8)}
    (whole : bytes.length = count * width) (member : field ∈ fields width count bytes) :
    field.length = width := by
  induction count generalizing bytes with
  | zero => simp [fields] at member
  | succ count ih =>
      have size : bytes.length = count * width + width := by rw [whole, Nat.succ_mul]
      rcases List.mem_cons.mp member with rfl | member
      · rw [List.length_take]
        omega
      · exact ih (by rw [List.length_drop]; omega) member

theorem fields_flatten (width : Nat) (parts : List (List (BitVec 8)))
    (sized : ∀ part ∈ parts, part.length = width) :
    fields width parts.length parts.flatten = parts := by
  induction parts with
  | nil => rfl
  | cons part parts ih =>
      have front : part.length = width := sized part (by simp)
      have rest := ih fun other member => sized other (by simp [member])
      rw [List.length_cons, List.flatten_cons, fields, ← front, List.take_left, List.drop_left,
        front, rest]

theorem fields_append (width m n : Nat) (a b : List (BitVec 8)) (whole : a.length = m * width) :
    fields width (m + n) (a ++ b) = fields width m a ++ fields width n b := by
  induction m generalizing a with
  | zero =>
      rw [Nat.zero_mul, List.length_eq_zero_iff] at whole
      simp [whole, fields]
  | succ m ih =>
      have size : a.length = m * width + width := by rw [whole, Nat.succ_mul]
      rw [Nat.succ_add, fields, fields, List.take_append_of_le_length (by omega),
        List.drop_append_of_le_length (by omega), ih _ (by rw [List.length_drop]; omega),
        List.cons_append]

/-- Fields of fields: cutting a string into blocks and each block into fields cuts it into
fields. -/
theorem fields_mul (width inner count : Nat) (bytes : List (BitVec 8))
    (whole : bytes.length = count * (inner * width)) :
    fields width (count * inner) bytes =
      (fields (inner * width) count bytes).flatMap (fields width inner) := by
  have sized : ∀ part ∈ (fields (inner * width) count bytes).flatMap (fields width inner),
      part.length = width := by
    intro part member
    obtain ⟨block, blockMember, partMember⟩ := List.mem_flatMap.mp member
    exact length_of_mem_fields (length_of_mem_fields whole blockMember) partMember
  have joined : ((fields (inner * width) count bytes).flatMap (fields width inner)).flatten =
      bytes := by
    have each : ∀ block ∈ fields (inner * width) count bytes,
        (fields width inner block).flatten = block := by
      intro block member
      exact flatten_fields _ _ _ (length_of_mem_fields whole member)
    rw [List.flatMap_def, List.flatten_flatten, List.map_map]
    conv_rhs => rw [← flatten_fields _ _ _ whole]
    congr 1
    conv_rhs => rw [← List.map_id (fields (inner * width) count bytes)]
    exact List.map_congr_left each
  have size : ((fields (inner * width) count bytes).flatMap (fields width inner)).length =
      count * inner := by
    simp [List.length_flatMap]
  have cut := fields_flatten width _ sized
  rwa [joined, size] at cut

theorem flatten_injective {width : Nat} {a b : List (List (BitVec 8))}
    (sizedA : ∀ part ∈ a, part.length = width) (sizedB : ∀ part ∈ b, part.length = width)
    (count : a.length = b.length) (same : a.flatten = b.flatten) : a = b := by
  rw [← fields_flatten width a sizedA, ← fields_flatten width b sizedB, count, same]

theorem map_eq_self_iff {α : Type} (f : α → α) (items : List α) :
    items.map f = items ↔ ∀ item ∈ items, f item = item := by
  have same : items.map f = items.map id ↔ _ := List.map_inj_left
  rwa [List.map_id] at same

/-- Rewriting every field of a string leaves the string alone exactly when it leaves every
field alone. -/
theorem flatten_map_fields_iff (width count : Nat) (bytes : List (BitVec 8))
    (rewrite : List (BitVec 8) → List (BitVec 8)) (whole : bytes.length = count * width)
    (sized : ∀ field, (rewrite field).length = width) :
    ((fields width count bytes).map rewrite).flatten = bytes ↔
      ∀ field ∈ fields width count bytes, rewrite field = field := by
  constructor
  · intro same
    have parts : (fields width count bytes).map rewrite = fields width count bytes := by
      apply @flatten_injective width _ _ _ (fun field => length_of_mem_fields whole) (by simp)
      · rw [same, flatten_fields _ _ _ whole]
      · intro part member
        obtain ⟨field, -, rfl⟩ := List.mem_map.mp member
        exact sized field
    exact (map_eq_self_iff _ _).mp parts
  · intro each
    rw [(map_eq_self_iff _ _).mpr each, flatten_fields _ _ _ whole]

theorem digits_eq_iff (width a b : Nat) :
    digits width a = digits width b ↔ a % 256 ^ width = b % 256 ^ width := by
  refine ⟨fun same => ?_, fun same => ?_⟩
  · rw [← value_digits, ← value_digits, same]
  · rw [← digits_mod, same, digits_mod]

/-- The low digits of an exclusive or are those of the low digits. -/
theorem digits_xor {width a b : Nat} (k : Nat) (same : digits width a = digits width b) :
    digits width (a ^^^ k) = digits width (b ^^^ k) := by
  rw [digits_eq_iff] at same ⊢
  rw [show 256 = 2 ^ 8 by decide, ← Nat.pow_mul] at same ⊢
  rw [Nat.xor_mod_two_pow, Nat.xor_mod_two_pow, same]

theorem value_injective {a b : List (BitVec 8)} (sameLength : a.length = b.length)
    (same : value a = value b) : a = b := by
  rw [← digits_value a, ← digits_value b, sameLength, same]

end BigEndian
