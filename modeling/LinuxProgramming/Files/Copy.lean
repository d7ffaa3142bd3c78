import LinuxProgramming.Library.CInt
import LinuxProgramming.Library.OpenFile
import Mathlib.Logic.Function.Basic

/-!
Contract: the two copy programs, `mycp` with `read` and `write` and `my_cp` with two
memory mappings.

Owns:
- both programs, on a table of regular files and a disk with so much space;
- `mmap`, which rejects the length 0 and lengths no address space holds;
- for which lengths of the source the two copy the same.

Does not own: pathnames and permissions.
-/

namespace LinuxProgramming.Files.Copy

open LinuxProgramming.Library

def BUFFER_SIZE : Nat := 1024

/-- The user addresses of a process are those below. -/
def TASK_SIZE : Nat := 2 ^ 47

/-- How a program ends; `signalled` is `SIGBUS`. -/
inductive Exit where
  | success
  | failure
  | signalled
deriving DecidableEq, Repr

/-- The bytes of the regular files by name. -/
abbrev Disk := String → Option (List UInt8)

def Disk.store (files : Disk) (name : String) (bytes : List UInt8) : Disk :=
  Function.update files name (some bytes)

/-- A descriptor of the file at an offset. -/
def Disk.opened (files : Disk) (name : String) (offset : Nat) : OpenFile :=
  ⟨(files name).getD [], offset⟩

section Programs

variable (space : Nat)

/-- The loop of `mycp`; a full disk makes a `write` short. -/
def mycpLoop (srcFile desFile : String) : Nat → Nat → Nat → Disk → Option (Exit × Disk)
  | 0, _, _, _ => none
  | fuel + 1, srcOffset, desOffset, files =>
      let buffer := ((files.opened srcFile srcOffset).read BUFFER_SIZE).1
      if 0 < buffer.length then
        let writeNum := min buffer.length (space - desOffset)
        let written := (files.opened desFile desOffset).write (buffer.take writeNum)
        let files := files.store desFile written.bytes
        if writeNum ≠ buffer.length then some (.failure, files)
        else mycpLoop srcFile desFile fuel (srcOffset + buffer.length) written.offset files
      else some (.success, files)

/-- `main` of `mycp`. -/
def mycp (fuel : Nat) (argv : List String) (files : Disk) : Option (Exit × Disk) :=
  match argv with
  | _ :: srcFile :: desFile :: _ =>
      match files srcFile with
      | none => some (.failure, files)
      | some _ => mycpLoop space srcFile desFile fuel 0 0 (files.store desFile [])
  | _ => some (.failure, files)

/-- `size_t` of an `int`. -/
def toSize (value : Int) : Nat := (value % 2 ^ 64).toNat

/-- The bytes of a file that a mapping of `length` bytes shows. -/
def mmap (length : Nat) (bytes : List UInt8) : Option (List UInt8) :=
  if length = 0 ∨ TASK_SIZE < length then none else some (bytes.take length)

/-- `ftruncate`. -/
def ftruncate (length : Int) (bytes : List UInt8) : Option (List UInt8) :=
  if length < 0 then none
  else some (bytes.take length.toNat ++ List.replicate (length.toNat - bytes.length) 0)

/-- Which of the two `munmap` and two `close` at the end succeed. -/
structure Released where
  munmapSrc : Bool
  munmapDst : Bool
  closeSrc : Bool
  closeDst : Bool
deriving DecidableEq, Repr

def Released.exitStatus (released : Released) : Nat :=
  (!released.munmapSrc).toNat + (!released.munmapDst).toNat + (!released.closeSrc).toNat +
    (!released.closeDst).toNat

/-- `main` of `my_cp` once it has the source and, in an `int`, its length. -/
def copyMapped (released : Released) (dstFile : String) (bytes : List UInt8) (srcfileLen : Int)
    (files : Disk) : Exit × Disk :=
  match mmap (toSize srcfileLen) bytes with
  | none => (.failure, files)
  | some srcMmap =>
      match files dstFile with
      | some _ => (.failure, files)
      | none =>
          match ftruncate srcfileLen [] with
          | none => (.failure, files.store dstFile [])
          | some zeros =>
              match mmap (toSize srcfileLen) zeros with
              | none => (.failure, files.store dstFile zeros)
              | some dstMmap =>
                  if space < dstMmap.length then (.signalled, files.store dstFile zeros)
                  else
                    -- `memcpy` writes through the mapping into the file
                    let files := files.store dstFile (srcMmap ++ zeros.drop srcMmap.length)
                    if released.exitStatus ≠ 0 then (.failure, files)
                    else (.success, files)

/-- `main` of `my_cp`. -/
def myCp (released : Released) (argv : List String) (files : Disk) : Exit × Disk :=
  match argv with
  | [_, srcFile, dstFile] =>
      match files srcFile with
      | none => (.failure, files)
      | some bytes => copyMapped space released dstFile bytes (CInt.wrap bytes.length) files
  | _ => (.failure, files)

end Programs

/-! ### What they copy -/

section Copies

variable {space : Nat} {files : Disk} {program srcFile dstFile : String} {bytes : List UInt8}

theorem Disk.store_same (files : Disk) (name : String) (bytes : List UInt8) :
    (files.store name bytes) name = some bytes :=
  Function.update_self _ _ _

theorem Disk.store_other (files : Disk) {name other : String} (differ : other ≠ name)
    (bytes : List UInt8) : (files.store name bytes) other = files other :=
  Function.update_of_ne differ _ _

/-- The loop of `mycp` copies what is left of the source. -/
theorem mycpLoop_copies (differ : srcFile ≠ dstFile) (room : bytes.length ≤ space) :
    ∀ (fuel offset : Nat) (files : Disk), bytes.length - offset < fuel → offset ≤ bytes.length →
      files srcFile = some bytes → files dstFile = some (bytes.take offset) →
      ∃ after, mycpLoop space srcFile dstFile fuel offset offset files = some (.success, after) ∧
        after dstFile = some bytes
  | 0, _, _, enough, _, _, _ => absurd enough (Nat.not_lt_zero _)
  | fuel + 1, offset, files, enough, inside, source, copied => by
      have length : (bytes.take offset).length = offset := by
        rw [List.length_take, Nat.min_eq_left inside]
      unfold mycpLoop
      simp only [Disk.opened, source, copied, Option.getD_some, OpenFile.read]
      generalize buffer_def : (bytes.drop offset).take BUFFER_SIZE = buffer
      have bound : buffer.length = min BUFFER_SIZE (bytes.length - offset) := by
        rw [← buffer_def, List.length_take, List.length_drop]
      by_cases more : 0 < buffer.length
      · rw [if_pos more, Nat.min_eq_left (by omega), List.take_length, if_neg (by simp)]
        have written : (OpenFile.write buffer ⟨bytes.take offset, offset⟩).bytes =
            bytes.take (offset + buffer.length) := by
          have atEnd := OpenFile.write_end (bytes.take offset) buffer
          rw [length] at atEnd
          rw [atEnd, List.take_add, ← buffer_def, List.length_take, ← List.take_eq_take_min]
        rw [written]
        apply mycpLoop_copies differ room fuel (offset + buffer.length)
        · omega
        · omega
        · rw [Disk.store_other _ differ]
          exact source
        · exact Disk.store_same _ _ _
      · have whole : bytes.take offset = bytes := by
          have : BUFFER_SIZE = 1024 := rfl
          exact List.take_of_length_le (by omega)
        rw [if_neg more]
        exact ⟨files, rfl, copied.trans (congrArg some whole)⟩

theorem mycp_copies (source : files srcFile = some bytes) (absent : files dstFile = none)
    (room : bytes.length ≤ space) {fuel : Nat} (enough : bytes.length < fuel) :
    ∃ after, mycp space fuel [program, srcFile, dstFile] files = some (.success, after) ∧
      after dstFile = some bytes := by
  have differ : srcFile ≠ dstFile := by
    rintro rfl
    cases source.symm.trans absent
  simp only [mycp, source]
  apply mycpLoop_copies differ room fuel 0 _ enough (Nat.zero_le _)
  · rw [Disk.store_other _ differ]
    exact source
  · exact Disk.store_same _ _ _

theorem toSize_eq {length : Nat} (fits : length ≤ TASK_SIZE) : toSize length = length := by
  have small : length < 2 ^ 64 := Nat.lt_of_le_of_lt fits (by decide)
  unfold toSize
  omega

/-- A positive length that an address space holds: the program copies that many bytes. -/
theorem copyMapped_copies (absent : files dstFile = none) {length : Nat} (positive : 0 < length)
    (fits : length ≤ TASK_SIZE) (inside : length ≤ bytes.length) (room : bytes.length ≤ space)
    {released : Released} (clean : released.exitStatus = 0) :
    copyMapped space released dstFile bytes length files =
      (.success, files.store dstFile (bytes.take length)) := by
  have size := toSize_eq fits
  have mapped : ∀ content : List UInt8, mmap length content = some (content.take length) := by
    intro content
    rw [mmap, if_neg (by omega)]
  have zeros : ftruncate length [] = some (List.replicate length 0) := by
    simp [ftruncate]
  unfold copyMapped
  rw [size, mapped, absent]
  simp only
  rw [zeros]
  simp only
  rw [mapped]
  simp only
  rw [List.length_take, List.length_replicate, Nat.min_self, if_neg (by omega), clean,
    if_neg (by simp), List.drop_of_length_le (by simp [inside]), List.append_nil]

/-- No mapping has the length 0, or that of a negative `int`. -/
theorem copyMapped_fails {length : Int} (nonpositive : length ≤ 0) (isInt : CInt.IsInt length)
    (released : Released) :
    copyMapped space released dstFile bytes length files = (.failure, files) := by
  have rejected : mmap (toSize length) bytes = none := by
    obtain ⟨low, _⟩ := isInt
    unfold CInt.INT_MIN at low
    unfold mmap TASK_SIZE toSize
    rw [if_pos (by omega)]
  unfold copyMapped
  rw [rejected]

end Copies

/-- Both programs copy a file to a name that does not exist yet exactly if its length is
positive and an `int`. -/
theorem copies_agree_iff (space fuel : Nat) (files : Disk) (program srcFile dstFile : String)
    (bytes : List UInt8) (source : files srcFile = some bytes) (absent : files dstFile = none)
    (room : bytes.length ≤ space) (enough : bytes.length < fuel) :
    (∃ after, mycp space fuel [program, srcFile, dstFile] files = some (.success, after) ∧
        after dstFile = some bytes) ∧
      (∃ after, myCp space ⟨true, true, true, true⟩ [program, srcFile, dstFile] files =
          (.success, after) ∧ after dstFile = some bytes) ↔
    1 ≤ bytes.length ∧ (bytes.length : Int) ≤ CInt.INT_MAX := by
  have mapped : myCp space ⟨true, true, true, true⟩ [program, srcFile, dstFile] files =
      copyMapped space ⟨true, true, true, true⟩ dstFile bytes (CInt.wrap bytes.length) files := by
    unfold myCp
    simp only
    rw [source]
  have bound : CInt.INT_MAX = 2147483647 := by decide
  have address : TASK_SIZE = 140737488355328 := by decide
  rw [and_iff_right (mycp_copies source absent room enough), mapped]
  constructor
  · rintro ⟨after, ran, copied⟩
    have isInt := CInt.isInt_wrap bytes.length
    have below := CInt.wrap_le (Int.natCast_nonneg bytes.length)
    generalize CInt.wrap bytes.length = length at ran isInt below
    by_cases positive : 0 < length
    · obtain ⟨count, rfl⟩ := Int.eq_ofNat_of_zero_le (Int.le_of_lt positive)
      have high := isInt.2
      rw [copyMapped_copies absent (by omega) (by omega) (by omega) room rfl] at ran
      cases ran
      have whole : (bytes.take count).length = bytes.length := by
        rw [Disk.store_same] at copied
        rw [Option.some.inj copied]
      rw [List.length_take] at whole
      omega
    · rw [copyMapped_fails (Int.not_lt.mp positive) isInt] at ran
      cases ran
  · rintro ⟨positive, fits⟩
    rw [CInt.wrap_of_nonneg (Int.natCast_nonneg _) fits,
      copyMapped_copies absent positive (by omega) (Nat.le_refl _) room rfl]
    refine ⟨_, rfl, ?_⟩
    rw [Disk.store_same, List.take_length]

/-- A table with one file. -/
def oneFile (name : String) (bytes : List UInt8) : Disk :=
  Disk.store (fun _ => none) name bytes

theorem copies_agree_two :
    (∃ after, mycp 4096 3 ["cp", "a", "b"] (oneFile "a" [1, 2]) = some (.success, after) ∧
        after "b" = some [1, 2]) ∧
      (∃ after, myCp 4096 ⟨true, true, true, true⟩ ["cp", "a", "b"] (oneFile "a" [1, 2]) =
          (.success, after) ∧ after "b" = some [1, 2]) ↔
    1 ≤ [1, 2].length ∧ (([1, 2].length : Nat) : Int) ≤ CInt.INT_MAX :=
  copies_agree_iff 4096 3 (oneFile "a" [1, 2]) "cp" "a" "b" [1, 2] (by decide) (by decide)
    (by decide) (by decide)

/-- An empty file: `mycp` copies it, and `my_cp` fails to map it. -/
theorem empty_not_mapped :
    (∃ after, mycp 4096 1 ["cp", "a", "b"] (oneFile "a" []) = some (.success, after) ∧
        after "b" = some []) ∧
      (myCp 4096 ⟨true, true, true, true⟩ ["cp", "a", "b"] (oneFile "a" [])).1 = .failure := by
  refine ⟨⟨_, rfl, ?_⟩, ?_⟩
  · decide
  · decide

end LinuxProgramming.Files.Copy
