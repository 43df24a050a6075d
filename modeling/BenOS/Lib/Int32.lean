/-
C's 32-bit integers as integers: `toInt32` is the `int` and `toUint32`
the `unsigned int` that a value is stored as, in two's complement. A
model stores a result through one of them wherever the code assigns or
passes it at that type, and the lemmas here move the wrap outwards or
away.
-/
import Mathlib.Data.Int.Init

namespace BenOS.Lib

/-- A value stored as an `int`. -/
def toInt32 (x : Int) : Int := (x + 2147483648) % 4294967296 - 2147483648

/-- A value stored as an `unsigned int`. -/
def toUint32 (x : Int) : Int := x % 4294967296

theorem toInt32_ge (x : Int) : -2147483648 ≤ toInt32 x := by
  unfold toInt32
  omega

theorem toInt32_lt (x : Int) : toInt32 x < 2147483648 := by
  unfold toInt32
  omega

/-- A value in the range of an `int` is stored as it is. -/
theorem toInt32_of_range {x : Int} (hge : -2147483648 ≤ x)
    (hlt : x < 2147483648) : toInt32 x = x := by
  unfold toInt32
  omega

/-- A value in the range of an `unsigned int` is stored as it is. -/
theorem toUint32_of_range {x : Int} (hge : 0 ≤ x) (hlt : x < 4294967296) :
    toUint32 x = x := by
  unfold toUint32
  omega

/-- A length that an `unsigned int` holds, read back as the length it is. -/
theorem toNat_toUint32 {n : Nat} (hlt : n < 4294967296) :
    (toUint32 (n : Int)).toNat = n := by
  rw [toUint32_of_range (Int.natCast_nonneg n) (by omega), Int.toNat_natCast]

@[simp] theorem toInt32_toInt32 (x : Int) : toInt32 (toInt32 x) = toInt32 x :=
  toInt32_of_range (toInt32_ge x) (toInt32_lt x)

/-- Storing a sum, one of whose terms was stored before. -/
theorem toInt32_add_left (x y : Int) :
    toInt32 (toInt32 x + y) = toInt32 (x + y) := by
  unfold toInt32
  omega

/-- Storing a value changes it by a multiple of any divisor of the
range, so the remainders stay. -/
theorem toInt32_emod {m : Int} (x : Int) (hm : m ∣ 4294967296) :
    toInt32 x % m = x % m := by
  have hsplit : toInt32 x
      = x + 4294967296 * (-((x + 2147483648) / 4294967296)) := by
    unfold toInt32
    omega
  have hrange : (4294967296 : Int) % m = 0 := Int.emod_eq_zero_of_dvd hm
  rw [hsplit, Int.add_emod, Int.mul_emod, hrange]
  simp

end BenOS.Lib
