import Mathlib.Data.Int.DivMod
import Mathlib.Algebra.Order.Ring.Int

/-!
Contract: the C type `int`, 32 bits in two's complement, and its bytes in
memory, lowest first.

Owns:
- `INT_MAX`, `INT_MIN`, the range `IsInt`, and `wrap` and `toSize`, the conversions
  to `int` and to `size_t`;
- `toBytes` and `ofBytes`, and their round trip.

Does not own: files, buffers or programs.
-/

namespace LinuxProgramming.Library.CInt

def INT_MAX : Int := 2 ^ 31 - 1

def INT_MIN : Int := -2 ^ 31

/-- `sizeof(int)`. -/
def INT_SIZE : Nat := 4

/-- A value an `int` can have. -/
def IsInt (value : Int) : Prop :=
  INT_MIN ≤ value ∧ value ≤ INT_MAX

instance (value : Int) : Decidable (IsInt value) :=
  inferInstanceAs (Decidable (_ ∧ _))

/-- The `int` with the same lowest 32 bits. -/
def wrap (value : Int) : Int := value.bmod (2 ^ 32)

/-- The `size_t` with the same lowest 64 bits. -/
def toSize (value : Int) : Nat := (value % 2 ^ 64).toNat

theorem wrap_eq {value : Int} (fits : IsInt value) : wrap value = value := by
  obtain ⟨low, high⟩ := fits
  simp only [INT_MIN, INT_MAX] at low high
  rw [wrap, Int.bmod_def]
  omega

theorem wrap_of_nonneg {value : Int} (low : 0 ≤ value) (high : value ≤ INT_MAX) :
    wrap value = value :=
  wrap_eq ⟨Int.le_trans (by decide) low, high⟩

theorem wrap_le {value : Int} (low : 0 ≤ value) : wrap value ≤ value := by
  rw [wrap, Int.bmod_def]
  omega

theorem toSize_of_nonneg {value : Nat} (fits : value < 2 ^ 64) : toSize value = value := by
  rw [toSize]
  omega

theorem isInt_zero : IsInt 0 := ⟨by decide, by decide⟩

theorem isInt_wrap (value : Int) : IsInt (wrap value) := by
  rw [IsInt, INT_MIN, INT_MAX, wrap, Int.bmod_def]
  omega

def toBytes (value : Int) : List UInt8 :=
  let word := (value % 2 ^ 32).toNat
  [UInt8.ofNat word, UInt8.ofNat (word / 2 ^ 8), UInt8.ofNat (word / 2 ^ 16),
    UInt8.ofNat (word / 2 ^ 24)]

def ofBytes (bytes : List UInt8) : Int :=
  wrap (bytes.foldr (fun byte value => byte.toNat + 256 * value) 0 : Nat)

@[simp] theorem length_toBytes (value : Int) : (toBytes value).length = INT_SIZE := rfl

theorem ofBytes_toBytes {value : Int} (fits : IsInt value) : ofBytes (toBytes value) = value := by
  obtain ⟨low, high⟩ := fits
  simp only [INT_MIN, INT_MAX] at low high
  simp only [ofBytes, toBytes, List.foldr_cons, List.foldr_nil, UInt8.toNat_ofNat', wrap,
    Int.bmod_def]
  omega

theorem isInt_ofBytes (bytes : List UInt8) : IsInt (ofBytes bytes) :=
  isInt_wrap _

end LinuxProgramming.Library.CInt
