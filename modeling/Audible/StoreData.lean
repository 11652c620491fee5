import Audible.CInt
import Mathlib.Data.List.Lex

set_option autoImplicit false

/- Blobs and keys of the object store (`data.c`). A C string is the list of its bytes
before the terminator, a pointer that may be NULL is an `Option`, and the outer `Option`
of a function is `none` where the code dereferences NULL. -/
namespace Audible.Store

/-- `BLOB` without its mutex and its debugging copy of the content. -/
structure Blob where
  refcnt : CInt
  size : Nat
  content : Option (List Byte)
  deriving DecidableEq, Repr

/-- `KEY` -/
structure Key where
  hash : CInt
  blob : Blob
  deriving DecidableEq, Repr

/-- At most `size` bytes, and nothing from the first zero byte on. -/
def strndup (content : List Byte) (size : Nat) : List Byte :=
  (content.take size).takeWhile (· ≠ 0#8)

def blobRef (bp : Option Blob) : Option Blob :=
  bp.map fun bp => { bp with refcnt := bp.refcnt + 1 }

def blobCreate (content : Option (List Byte)) (size : Nat) : Option Blob :=
  blobRef (some
    { content := content.map fun bytes => strndup bytes size
      size := size
      refcnt := 0 })

/-- `strcmp`, as far as the code may rely on it: zero on equal strings, otherwise the sign
of the first difference of unsigned bytes (a string that ends first being the smaller). -/
structure Strcmp where
  cmp : List Byte → List Byte → CInt
  equal : ∀ a, cmp a a = 0
  less : ∀ a b, 0#8 ∉ a → 0#8 ∉ b → a < b → (cmp a b).toInt < 0
  greater : ∀ a b, 0#8 ∉ a → 0#8 ∉ b → b < a → 0 < (cmp a b).toInt

def blobCompare (strcmp : Strcmp) (bp1 bp2 : Option Blob) : Option CInt :=
  match bp1, bp2 with
  | some bp1, some bp2 => do
      let content1 ← bp1.content
      let content2 ← bp2.content
      return strcmp.cmp content1 content2
  | _, _ => some (-1)

/-- One turn of the hash loop; `c` is a signed `char` widened to `unsigned long`. -/
def hashStep (hash : BitVec 64) (c : Byte) : BitVec 64 :=
  ((hash <<< 5) + hash) + c.signExtend 64

/-- The accumulated `unsigned long` is returned as an `int`. -/
def hashString (str : List Byte) : CInt :=
  (str.foldl hashStep 5381#64).setWidth 32

def blobHash (bp : Option Blob) : Option CInt := do
  let bp ← bp
  let content ← bp.content
  return hashString content

def keyCreate (bp : Option Blob) : Option Key := do
  let hash ← blobHash bp
  let blob ← bp
  return { hash, blob }

def keyCompare (strcmp : Strcmp) (kp1 kp2 : Option Key) : Option CInt :=
  match kp1, kp2 with
  | some kp1, some kp2 => do
      let cmp := (kp1.hash - kp2.hash).abs
      let order ← blobCompare strcmp (some kp1.blob) (some kp2.blob)
      return cmp + order
  | _, _ => some (-1)

/-- The byte strings a key is meant to be made from. -/
structure KeyBytes where
  bytes : List Byte
  nonempty : bytes ≠ []
  noNul : 0#8 ∉ bytes

theorem KeyBytes.ext_iff (a b : KeyBytes) : a = b ↔ a.bytes = b.bytes := by
  cases a
  cases b
  simp

/-- `key_create(blob_create(bytes, length))`, the way the server makes a key. -/
def makeKey (a : KeyBytes) : Option Key :=
  keyCreate (blobCreate (some a.bytes) a.bytes.length)

theorem strndup_all (bytes : List Byte) (noNul : 0#8 ∉ bytes) :
    strndup bytes bytes.length = bytes := by
  have kept : ∀ c ∈ bytes, decide (c ≠ 0#8) = true := by
    intro c member
    simpa using fun zero : c = 0#8 => noNul (zero ▸ member)
  simpa [strndup] using @List.takeWhile_append_of_pos _ _ bytes [] kept

theorem makeKey_eq (a : KeyBytes) :
    makeKey a = some
      { hash := hashString a.bytes
        blob := { refcnt := 1, size := a.bytes.length, content := some a.bytes } } := by
  simp [makeKey, keyCreate, blobHash, blobCreate, blobRef, strndup_all a.bytes a.noNul]

/-- What `key_compare` computes on two keys the server made. -/
theorem keyCompare_makeKey (strcmp : Strcmp) (a b : KeyBytes) :
    keyCompare strcmp (makeKey a) (makeKey b) =
      some ((hashString a.bytes - hashString b.bytes).abs + strcmp.cmp a.bytes b.bytes) := by
  simp [makeKey_eq, keyCompare, blobCompare]

/-- glibc's `strcmp`: the difference of the first bytes that differ. -/
def byteDifference : List Byte → List Byte → CInt
  | [], [] => 0
  | [], b :: _ => -(b.setWidth 32)
  | a :: _, [] => a.setWidth 32
  | a :: as, b :: bs =>
      if a = b then byteDifference as bs else a.setWidth 32 - b.setWidth 32

theorem byteDifference_self (a : List Byte) : byteDifference a a = 0 := by
  induction a with
  | nil => rfl
  | cons head tail ih => simpa [byteDifference] using ih

private theorem toInt_widen (a : Byte) : (a.setWidth 32).toInt = a.toNat := by
  have ha := a.isLt
  rw [BitVec.toInt_setWidth, Int.bmod_eq_of_le (by omega) (by omega)]

private theorem toInt_widen_sub (a b : Byte) :
    (a.setWidth 32 - b.setWidth 32).toInt = (a.toNat : Int) - b.toNat := by
  have ha := a.isLt
  have hb := b.isLt
  rw [BitVec.toInt_sub, toInt_widen, toInt_widen, Int.bmod_eq_of_le (by omega) (by omega)]

private theorem toInt_widen_neg (b : Byte) : (-(b.setWidth 32)).toInt = -(b.toNat : Int) := by
  simpa using toInt_widen_sub 0#8 b

theorem byteDifference_swap (a b : List Byte) :
    (byteDifference b a).toInt = -(byteDifference a b).toInt := by
  induction a generalizing b with
  | nil =>
      cases b with
      | nil => rfl
      | cons other rest => simp only [byteDifference, toInt_widen, toInt_widen_neg, Int.neg_neg]
  | cons head tail ih =>
      cases b with
      | nil => simp only [byteDifference, toInt_widen, toInt_widen_neg]
      | cons other rest =>
          by_cases same : head = other
          · simpa [byteDifference, same] using ih rest
          · simp only [byteDifference, same, Ne.symm same, ↓reduceIte, toInt_widen_sub]
            omega

theorem byteDifference_neg (a b : List Byte) (noNulB : 0#8 ∉ b) (less : a < b) :
    (byteDifference a b).toInt < 0 := by
  induction a generalizing b with
  | nil =>
      cases b with
      | nil => simp at less
      | cons other rest =>
          have nonzero : other ≠ 0#8 := fun zero => noNulB (by simp [zero])
          rw [byteDifference, toInt_widen_neg]
          bv_omega
  | cons head tail ih =>
      cases b with
      | nil => simp at less
      | cons other rest =>
          rcases List.cons_lt_cons_iff.mp less with smaller | ⟨same, below⟩
          · have different : head ≠ other := by bv_omega
            rw [byteDifference, if_neg different, toInt_widen_sub]
            bv_omega
          · rw [byteDifference, if_pos same]
            exact ih rest (fun member => noNulB (List.mem_cons_of_mem _ member)) below

theorem byteDifference_pos (a b : List Byte) (noNulA : 0#8 ∉ a) (greater : b < a) :
    0 < (byteDifference a b).toInt := by
  have negative := byteDifference_neg b a noNulA greater
  rw [byteDifference_swap] at negative
  omega

/-- The implementation the failing inputs below are run on. -/
def glibcStrcmp : Strcmp where
  cmp := byteDifference
  equal := byteDifference_self
  less a b _ noNulB := byteDifference_neg a b noNulB
  greater a b noNulA _ := byteDifference_pos a b noNulA

/-- `key_compare` tells two keys apart exactly as their strings are, unless the second
string sorts after the first by the distance of their hashes: then the two summands of the
result cancel and the keys pass for one. -/
theorem keyCompare_identity_iff (strcmp : Strcmp) (a b : KeyBytes) :
    (keyCompare strcmp (makeKey a) (makeKey b) = some 0 ↔ a = b) ↔
      (a = b ∨ (strcmp.cmp a.bytes b.bytes).toInt ≠
        -((hashString a.bytes - hashString b.bytes).toInt.natAbs : Int)) := by
  rw [keyCompare_makeKey, Option.some_inj, abs_add_eq_zero_iff]
  by_cases same : a = b
  · subst same
    simp [strcmp.equal]
  · simp [same]

/-- The keys `"a"` and `"b"`: their hashes differ by one, and so do their bytes. -/
theorem keyCompare_merges_a_b :
    ¬ ∀ (strcmp : Strcmp) (a b : KeyBytes),
      keyCompare strcmp (makeKey a) (makeKey b) = some 0 ↔ a = b := by
  intro identity
  have merged := identity glibcStrcmp ⟨[97#8], by decide, by decide⟩ ⟨[98#8], by decide, by decide⟩
  rw [keyCompare_makeKey, KeyBytes.ext_iff] at merged
  exact absurd (merged.mp (by decide)) (by decide)

end Audible.Store
