import Mathlib.Algebra.Order.Ring.Nat

/-!
Contract: a memory of bytes, and unsigned integers stored in it with the lowest
byte first.

Owns:
- reading and writing an integer of any number of bytes at an address;
- what is read back at the same place, and elsewhere.

Does not own: which addresses may be used.
-/

namespace LinuxProgramming.Library

abbrev ByteMemory := Nat → UInt8

namespace ByteMemory

/-- The integer in the `count` bytes from `addr` on. -/
def read (memory : ByteMemory) (addr : Nat) : Nat → Nat
  | 0 => 0
  | count + 1 => (memory addr).toNat + 256 * read memory (addr + 1) count

/-- The lowest `count` bytes of an integer, stored from `addr` on. -/
def write (memory : ByteMemory) (addr count value : Nat) : ByteMemory := fun place =>
  if addr ≤ place ∧ place < addr + count then UInt8.ofNat (value / 256 ^ (place - addr))
  else memory place

variable {memory other : ByteMemory} {addr place count value : Nat}

theorem read_congr (same : ∀ byte, addr ≤ byte → byte < addr + count → other byte = memory byte) :
    read other addr count = read memory addr count := by
  induction count generalizing addr with
  | zero => rfl
  | succ count inductionHypothesis =>
      unfold read
      rw [same addr (Nat.le_refl addr) (by omega)]
      rw [inductionHypothesis fun byte low high => same byte (by omega) (by omega)]

theorem read_lt (memory : ByteMemory) (addr count : Nat) :
    read memory addr count < 256 ^ count := by
  induction count generalizing addr with
  | zero => exact Nat.one_pos
  | succ count inductionHypothesis =>
      have byte := (memory addr).toNat_lt
      have rest := inductionHypothesis (addr + 1)
      unfold read
      rw [Nat.pow_succ]
      omega

/-- The bytes can be told from the integer. -/
theorem read_inj (same : read other addr count = read memory addr count) :
    ∀ byte, addr ≤ byte → byte < addr + count → other byte = memory byte := by
  induction count generalizing addr with
  | zero =>
      intro byte low high
      omega
  | succ count inductionHypothesis =>
      unfold read at same
      have first := (other addr).toNat_lt
      have second := (memory addr).toNat_lt
      intro byte low high
      rcases Nat.eq_or_lt_of_le low with rfl | above
      · apply UInt8.toNat_inj.mp
        omega
      · have rest : read other (addr + 1) count = read memory (addr + 1) count := by omega
        exact inductionHypothesis rest byte above (by omega)

/-- What was written is read back, up to the bytes it has. -/
theorem read_write (memory : ByteMemory) (addr count value : Nat) :
    read (write memory addr count value) addr count = value % 256 ^ count := by
  induction count generalizing memory addr value with
  | zero => exact (Nat.mod_one value).symm
  | succ count inductionHypothesis =>
      have first : write memory addr (count + 1) value addr = UInt8.ofNat value := by
        unfold write
        rw [if_pos ⟨Nat.le_refl addr, by omega⟩, Nat.sub_self, Nat.pow_zero, Nat.div_one]
      have rest : read (write memory addr (count + 1) value) (addr + 1) count =
          read (write memory (addr + 1) count (value / 256)) (addr + 1) count := by
        apply read_congr
        intro byte low high
        unfold write
        rw [if_pos ⟨by omega, by omega⟩, if_pos ⟨low, high⟩, Nat.div_div_eq_div_mul,
          ← Nat.pow_succ', show (byte - (addr + 1)).succ = byte - addr by omega]
      have split : value % 256 ^ (count + 1) = value % 256 + 256 * (value / 256 % 256 ^ count) := by
        rw [Nat.pow_succ', Nat.mod_mul]
      unfold read
      rw [first, rest, inductionHypothesis, UInt8.toNat_ofNat', split]

theorem write_other {place : Nat} (value : Nat) (outside : place < addr ∨ addr + count ≤ place) :
    write memory addr count value place = memory place := by
  unfold write
  rw [if_neg (by omega)]

/-- Elsewhere nothing changes. -/
theorem read_write_other {length : Nat} (value : Nat)
    (apart : place + length ≤ addr ∨ addr + count ≤ place) :
    read (write memory addr count value) place length = read memory place length := by
  apply read_congr
  intro byte low high
  exact write_other value (by omega)

end ByteMemory

end LinuxProgramming.Library
