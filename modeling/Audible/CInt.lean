import Mathlib.Algebra.Group.Nat.Defs
import Mathlib.Data.List.Basic

set_option autoImplicit false

/- The fixed-width C types the four programs share. -/
namespace Audible

/-- `char` and `unsigned char`; which of the two a reading means is said where it is read. -/
abbrev Byte := BitVec 8

/-- `int` and `unsigned int`, with arithmetic modulo `2 ^ 32`. -/
abbrev CInt := BitVec 32

/-- What `getchar` and `putchar` return when there is nothing to read or write. -/
def EOF : CInt := -1

theorem ofNat_eq_EOF_iff (n : Nat) (bound : n < 2 ^ 32) :
    BitVec.ofNat 32 n = EOF ↔ n = 2 ^ 32 - 1 := by
  rw [← BitVec.toNat_inj, BitVec.toNat_ofNat, Nat.mod_eq_of_lt bound]
  rfl

/-- A sum of `int`s wraps to zero exactly when one is the negation of the other's size. -/
theorem abs_add_eq_zero_iff (d s : CInt) :
    d.abs + s = 0 ↔ s.toInt = -(d.toInt.natAbs : Int) := by
  have bound := d.toInt_lt
  have lower := d.le_toInt
  have sBound := s.toInt_lt
  have sLower := s.le_toInt
  have least : (BitVec.intMin 32).toInt = -2147483648 := by decide
  have zero : (0 : CInt).toInt = 0 := by decide
  rw [← BitVec.toInt_inj, BitVec.toInt_add, BitVec.toInt_abs_eq_natAbs, zero,
    ← Int.dvd_iff_bmod_eq_zero]
  split
  · rename_i same
    subst same
    rw [least] at bound lower ⊢
    omega
  · omega

end Audible
