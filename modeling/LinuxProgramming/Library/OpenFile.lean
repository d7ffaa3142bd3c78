import Mathlib.Data.List.Basic

/-!
Contract: one open regular file, its bytes and its offset.

Owns:
- `read`, `write` and `seek` with their effect on the offset;
- what a write at the start or at the end leaves.

Does not own: descriptors, names, or errors of the system.
-/

namespace LinuxProgramming.Library

structure OpenFile where
  bytes : List UInt8
  offset : Nat
deriving DecidableEq, Repr

namespace OpenFile

/-- `read` delivers up to `count` bytes from the offset on. -/
def read (count : Nat) (file : OpenFile) : List UInt8 × OpenFile :=
  let data := (file.bytes.drop file.offset).take count
  (data, { file with offset := file.offset + data.length })

/-- `write` overwrites from the offset on; a gap before the offset is filled with
zeros. -/
def write (data : List UInt8) (file : OpenFile) : OpenFile where
  bytes := file.bytes.take file.offset ++
    List.replicate (file.offset - file.bytes.length) 0 ++ data ++
    file.bytes.drop (file.offset + data.length)
  offset := file.offset + data.length

/-- `lseek(fd, offset, SEEK_SET)`. -/
def seek (offset : Nat) (file : OpenFile) : OpenFile :=
  { file with offset := offset }

theorem write_start (bytes data : List UInt8) :
    (write data ⟨bytes, 0⟩).bytes = data ++ bytes.drop data.length := by
  simp [write]

theorem write_end (bytes data : List UInt8) :
    (write data ⟨bytes, bytes.length⟩).bytes = bytes ++ data := by
  simp [write]

/-- A write that starts behind the first bytes keeps them. -/
theorem take_write {file : OpenFile} {count : Nat} (behind : count ≤ file.offset)
    (inside : count ≤ file.bytes.length) (data : List UInt8) :
    (file.write data).bytes.take count = file.bytes.take count := by
  have taken : count ≤ (file.bytes.take file.offset).length := by
    rw [List.length_take]
    omega
  rw [write, List.append_assoc, List.append_assoc, List.take_append_of_le_length taken,
    List.take_take, Nat.min_eq_left behind]

theorem length_le_write (file : OpenFile) (data : List UInt8) :
    file.bytes.length ≤ (file.write data).bytes.length := by
  simp only [write, List.length_append, List.length_take, List.length_replicate,
    List.length_drop]
  omega

theorem length_data_le_write (file : OpenFile) (data : List UInt8) :
    data.length ≤ (file.write data).bytes.length := by
  simp only [write, List.length_append]
  omega

end OpenFile

end LinuxProgramming.Library
