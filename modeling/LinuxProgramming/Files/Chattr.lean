import Mathlib.Data.Bool.Basic
import Mathlib.Order.RelClasses
import LinuxProgramming.Library.Accumulation

/-!
Contract: `main` of `my_chattr`.

Owns:
- the check of the arguments, the letters of the attributes, and the loop over the files with
  every failure of the calls it makes;
- the flags of all files after a run, and exactly when each file got what was asked for.

Does not own: the usage text, and what a file system makes of flags it does not have.
-/

namespace LinuxProgramming.Files.Chattr

open LinuxProgramming.Library.Accumulation

universe u

/-- What `FS_IOC_GETFLAGS` and `FS_IOC_SETFLAGS` read and write. -/
abbrev Flags := BitVec 32

def FS_SECRM_FL : Flags := 0x00000001

def FS_UNRM_FL : Flags := 0x00000002

def FS_COMPR_FL : Flags := 0x00000004

def FS_SYNC_FL : Flags := 0x00000008

def FS_IMMUTABLE_FL : Flags := 0x00000010

def FS_APPEND_FL : Flags := 0x00000020

def FS_NODUMP_FL : Flags := 0x00000040

def FS_NOATIME_FL : Flags := 0x00000080

def FS_JOURNAL_DATA_FL : Flags := 0x00004000

def FS_NOTAIL_FL : Flags := 0x00008000

def FS_DIRSYNC_FL : Flags := 0x00010000

def FS_TOPDIR_FL : Flags := 0x00020000

/-- `'+'`. -/
def plus : UInt8 := 43

/-- `'-'`. -/
def minus : UInt8 := 45

/-- `'='`. -/
def equals : UInt8 := 61

/-- `"--help"`. -/
def help : List UInt8 := [45, 45, 104, 101, 108, 112]

/-- The `switch` over a letter. -/
def flagOf : UInt8 → Option Flags
  | 97 => some FS_APPEND_FL
  | 99 => some FS_COMPR_FL
  | 68 => some FS_DIRSYNC_FL
  | 105 => some FS_IMMUTABLE_FL
  | 106 => some FS_JOURNAL_DATA_FL
  | 65 => some FS_NOATIME_FL
  | 100 => some FS_NODUMP_FL
  | 116 => some FS_NOTAIL_FL
  | 115 => some FS_SECRM_FL
  | 83 => some FS_SYNC_FL
  | 84 => some FS_TOPDIR_FL
  | 117 => some FS_UNRM_FL
  | _ => none

/-- The loop over the letters; `none` if there is one without a meaning. -/
def attributes : List UInt8 → Flags → Option Flags
  | [], attr => some attr
  | letter :: rest, attr => (flagOf letter).bind fun flag => attributes rest (attr ||| flag)

/-- What a name leads to, and which of the calls for it succeed. -/
structure Calls (κ : Type u) where
  open_ : Option κ
  getflags : Bool
  setflags : Bool
  close : Bool

/-- How the program ends. -/
inductive Exit where
  | returned
  /-- `usage_error()`. -/
  | usage
  /-- `exit(EXIT_FAILURE)`, with the name of a file between two texts. -/
  | failure (front : String) (name : List UInt8) (back : String)
  /-- It reads behind the end of an empty first argument. -/
  | outside
deriving DecidableEq, Repr

/-- The end of a run, and the flags of all files. -/
structure Ended (κ : Type u) where
  exit : Exit
  flags : κ → Flags

variable {κ : Type u} [DecidableEq κ]

/-- The loop over the files, from the `i`-th argument on. -/
def changeFiles (op : UInt8) (calls : Nat → Calls κ) :
    List (List UInt8) → Nat → Flags → (κ → Flags) → Ended κ
  | [], _, _, flags => ⟨.returned, flags⟩
  | name :: rest, i, attr, flags =>
      match (calls i).open_ with
      | none => ⟨.failure "ERROR: Fail to open " name ".\n", flags⟩
      | some file =>
          if (op = plus ∨ op = minus) ∧ (calls i).getflags = false then
            ⟨.failure "ERROR: fail to get flags from file " name ".\n", flags⟩
          else
            let old_attr := flags file
            let attr :=
              if op = plus ∨ op = minus then
                if op = plus then old_attr ||| attr else old_attr &&& ~~~attr
              else attr
            if (calls i).setflags = false then
              ⟨.failure "ERROR: fail to set flags to file " name ".\n", flags⟩
            else
              let flags := Function.update flags file attr
              if (calls i).close = false then
                ⟨.failure "ERROR: fail to close file " name ".\n", flags⟩
              else changeFiles op calls rest (i + 1) attr flags

/-- `main`. `strchr` also finds the terminator of its first argument. -/
def main (argv : List (List UInt8)) (calls : Nat → Calls κ) (flags : κ → Flags) : Ended κ :=
  match argv with
  | _ :: argument :: name :: rest =>
      match argument with
      | [] => ⟨.outside, flags⟩
      | op :: letters =>
          if op ∉ [plus, minus, equals] ∨ argument = help then ⟨.usage, flags⟩
          else
            match attributes letters 0 with
            | none => ⟨.usage, flags⟩
            | some attr => changeFiles op calls (name :: rest) 2 attr flags
  | _ => ⟨.usage, flags⟩

/-! ### The arguments -/

inductive Operator where
  | add
  | remove
  | set
deriving DecidableEq, Repr

def Operator.symbol : Operator → UInt8
  | .add => plus
  | .remove => minus
  | .set => equals

/-- A letter with a meaning. -/
abbrev Letter := { letter : UInt8 // (flagOf letter).isSome }

def Letter.flag (letter : Letter) : Flags := (flagOf letter).get letter.property

/-- The flags that the letters name. -/
def mask (letters : List Letter) : Flags :=
  letters.foldl (fun attr letter => attr ||| letter.flag) 0

/-- All calls for these files succeed. -/
def succeeding (files : List κ) (i : Nat) : Calls κ :=
  ⟨files[i - 2]?, true, true, true⟩

/-- A run with these arguments in which all calls succeed. -/
def run (program : List UInt8) (operator : Operator) (letters : List Letter)
    (arguments : List (List UInt8 × κ)) (flags : κ → Flags) : Ended κ :=
  main (program :: (operator.symbol :: letters.map Subtype.val) :: arguments.map Prod.fst)
    (succeeding (arguments.map Prod.snd)) flags

/-- The flags of a file with those of the letters added, removed or put in their place. -/
def Operator.apply (operator : Operator) (old named : Flags) : Flags :=
  match operator with
  | .add => old ||| named
  | .remove => old &&& ~~~named
  | .set => named

theorem attributes_letters (letters : List Letter) (attr : Flags) :
    attributes (letters.map Subtype.val) attr =
      some (letters.foldl (fun attr letter => attr ||| letter.flag) attr) := by
  induction letters generalizing attr with
  | nil => rfl
  | cons letter rest inductionHypothesis =>
      have named : flagOf letter = some letter.flag := (Option.some_get letter.property).symm
      rw [List.map_cons, attributes, named, Option.bind_some, inductionHypothesis, List.foldl_cons]

/-- The second letter of `--help` has no meaning. -/
theorem ne_help (op : UInt8) (letters : List Letter) :
    op :: letters.map Subtype.val ≠ help := by
  intro same
  cases letters with
  | nil => cases same
  | cons letter rest =>
      have dash : letter.val = 45 := (List.cons.inj (List.cons.inj same).2).1
      have meaning := letter.property
      rw [dash] at meaning
      cases meaning

/-! ### The loop -/

/-- One file: what was computed for the one in front of it takes the place of the letters. -/
theorem changeFiles_cons (operator : Operator) {calls : Nat → Calls κ} {i : Nat} {file : κ}
    (succeeds : calls i = ⟨some file, true, true, true⟩) (name : List UInt8)
    (rest : List (List UInt8)) (attr : Flags) (flags : κ → Flags) :
    changeFiles operator.symbol calls (name :: rest) i attr flags =
      changeFiles operator.symbol calls rest (i + 1) (operator.apply (flags file) attr)
        (Function.update flags file (operator.apply (flags file) attr)) := by
  rw [changeFiles, succeeds]
  cases operator with
  | add => rfl
  | remove => rfl
  | set => rfl

theorem changeFiles_eq (operator : Operator) {calls : Nat → Calls κ}
    (arguments : List (List UInt8 × κ)) {i : Nat}
    (succeed : ∀ j argument, arguments[j]? = some argument →
      calls (i + j) = ⟨some argument.2, true, true, true⟩) (attr : Flags) (flags : κ → Flags) :
    changeFiles operator.symbol calls (arguments.map Prod.fst) i attr flags =
      ⟨.returned, accumulate operator.apply (arguments.map Prod.snd) attr flags⟩ := by
  induction arguments generalizing i attr flags with
  | nil => rfl
  | cons argument rest inductionHypothesis =>
      have here : calls i = ⟨some argument.2, true, true, true⟩ := succeed 0 argument rfl
      rw [List.map_cons, List.map_cons, changeFiles_cons operator here,
        inductionHypothesis fun j other found => ?_]
      · rfl
      · rw [Nat.add_right_comm]
        exact succeed (j + 1) other found

theorem symbol_mem (operator : Operator) : operator.symbol ∈ [plus, minus, equals] := by
  cases operator with
  | add => decide
  | remove => decide
  | set => decide

/-- With at least one file, a run stores what is carried on from the letters. -/
theorem run_cons (program : List UInt8) (operator : Operator) (letters : List Letter)
    (argument : List UInt8 × κ) (rest : List (List UInt8 × κ)) (flags : κ → Flags) :
    run program operator letters (argument :: rest) flags =
      ⟨.returned, accumulate operator.apply ((argument :: rest).map Prod.snd) (mask letters)
        flags⟩ := by
  have accepted : ¬(operator.symbol ∉ [plus, minus, equals] ∨
      operator.symbol :: letters.map Subtype.val = help) :=
    not_or.mpr ⟨not_not.mpr (symbol_mem operator), ne_help operator.symbol letters⟩
  have succeed : ∀ j other, (argument :: rest)[j]? = some other →
      succeeding ((argument :: rest).map Prod.snd) (2 + j) = ⟨some other.2, true, true, true⟩ := by
    intro j other found
    rw [succeeding, Nat.add_sub_cancel_left, List.getElem?_map, found, Option.map_some]
  rw [run, List.map_cons, main, if_neg accepted, attributes_letters]
  exact changeFiles_eq operator (argument :: rest) succeed (mask letters) flags

theorem run_flags (program : List UInt8) (operator : Operator) (letters : List Letter)
    (arguments : List (List UInt8 × κ)) (flags : κ → Flags) :
    (run program operator letters arguments flags).flags =
      accumulate operator.apply (arguments.map Prod.snd) (mask letters) flags := by
  cases arguments with
  | nil => rfl
  | cons argument rest => rw [run_cons]

/-! ### One flag -/

/-- What becomes of one flag. -/
def Operator.bit (operator : Operator) (old named : Bool) : Bool :=
  match operator with
  | .add => old || named
  | .remove => without old named
  | .set => named

theorem getLsbD_apply (operator : Operator) (i : Nat) (old named : Flags) :
    (operator.apply old named).getLsbD i = operator.bit (old.getLsbD i) (named.getLsbD i) := by
  cases operator with
  | add => exact BitVec.getLsbD_or
  | remove =>
      change (old &&& ~~~named).getLsbD i = (old.getLsbD i && !named.getLsbD i)
      rw [BitVec.getLsbD_and, BitVec.getLsbD_not]
      cases bit : old.getLsbD i with
      | false => rfl
      | true => rw [decide_eq_true (BitVec.lt_of_getLsbD bit), Bool.true_and]
  | set => rfl

/-- When one flag comes out right at each file. Only for `-` the first file matters: what it
had of the named flags is not seen by the others. -/
def BitCompatible (operator : Operator) (files : List κ) (store : κ → Bool) (named : Bool) :
    Prop :=
  match operator with
  | .add =>
      files.IsChain fun before file => store before = true → store file = false → named = true
  | .remove =>
      (files.IsChain fun before file => store before = true → store file = true → named = true) ∧
        ∀ file ∈ files, files.head? ≠ some file → store file = true → named = false
  | .set => True

/-- One flag comes out right at each file. -/
def BitRight (operator : Operator) (files : List κ) (store : κ → Bool) (named : Bool) : Prop :=
  ∀ file ∈ files,
    accumulate operator.bit files named store file = operator.bit (store file) named

section Bits

variable {files : List κ} {store : κ → Bool}

/-- A flag that is not named is carried on by a file that has it. -/
theorem add_unnamed_iff :
    BitRight .add files store false ↔ BitCompatible .add files store false := by
  have up : ∀ stored carried : Bool, stored ≤ (stored || carried) := by decide
  have carries : ∀ before file : κ, (store file || store before) = store file ↔
      (store before = true → store file = false → false = true) := by
    intro before file
    cases store before <;> cases store file <;> decide
  have keeps := accumulate_keeps_iff (· ≤ ·) up files false store
  rw [List.isChain_cons, List.isChain_map, List.IsChain.iff carries] at keeps
  simp only [BitRight, Operator.bit, Bool.or_false]
  exact keeps.trans (and_iff_right fun stored _ => Bool.or_false stored)

theorem remove_unnamed_iff :
    BitRight .remove files store false ↔ BitCompatible .remove files store false := by
  have down : ∀ stored carried : Bool, stored ≥ without stored carried := by decide
  have carries : ∀ before file : κ, without (store file) (store before) = store file ↔
      (store before = true → store file = true → false = true) := by
    intro before file
    cases store before <;> cases store file <;> decide
  have keeps := accumulate_keeps_iff (· ≥ ·) down files false store
  rw [List.isChain_cons, List.isChain_map, List.IsChain.iff carries] at keeps
  have same : ∀ stored, without stored false = stored := Bool.and_true
  simp only [BitRight, Operator.bit, same]
  refine keeps.trans ?_
  constructor
  · exact fun kept => ⟨kept.2, fun file _ _ _ => rfl⟩
  · exact fun compatible => ⟨fun stored _ => same stored, compatible.1⟩

theorem add_named : BitRight .add files store true := by
  intro file member
  exact (accumulate_absorbed member Bool.or_true store).trans (Bool.or_true (store file)).symm

omit [DecidableEq κ] in
/-- The files behind the first one, for a flag that is named. -/
theorem remove_named_iff {first : κ} {rest : List κ} :
    BitCompatible .remove (first :: rest) store true ↔
      ∀ file ∈ rest, file ≠ first → store file = false := by
  constructor
  · intro compatible file member different
    cases stored : store file with
    | false => rfl
    | true =>
        refine absurd (compatible.2 file (List.mem_cons_of_mem first member) ?_ stored)
          Bool.false_ne_true.symm
        exact fun head => different (Option.some.inj head).symm
  · intro nothing
    refine ⟨List.isChain_iff_getElem.mpr fun _ _ _ _ => rfl, fun file member head stored => ?_⟩
    have different : file ≠ first := fun same => head (congrArg some same.symm)
    have later := (List.mem_cons.mp member).resolve_left different
    rw [nothing file later different] at stored
    cases stored

/-- If the files are compatible, one flag comes out right. -/
theorem BitCompatible.right {operator : Operator} {named : Bool}
    (compatible : BitCompatible operator files store named) :
    BitRight operator files store named := by
  cases operator with
  | set => exact fun file member => accumulate_absorbed member (fun _ => rfl) store
  | add =>
      cases named with
      | false => exact add_unnamed_iff.mpr compatible
      | true => exact add_named
  | remove =>
      cases named with
      | false => exact remove_unnamed_iff.mpr compatible
      | true =>
          intro file member
          have cleared : Operator.bit .remove (store file) true = false :=
            Bool.and_false (store file)
          rw [cleared]
          cases files with
          | nil => exact absurd member List.not_mem_nil
          | cons first rest =>
              exact accumulate_without_clears (remove_named_iff.mp compatible) file member

/-- If no file is named twice in a row, only compatible files come out right. -/
theorem BitRight.compatible {operator : Operator} {named : Bool}
    (right : BitRight operator files store named)
    (apart : operator = .remove → files.IsChain (· ≠ ·)) :
    BitCompatible operator files store named := by
  cases operator with
  | set => trivial
  | add =>
      cases named with
      | false => exact add_unnamed_iff.mp right
      | true => exact List.isChain_iff_getElem.mpr fun _ _ _ _ => rfl
  | remove =>
      cases named with
      | false => exact remove_unnamed_iff.mp right
      | true =>
          cases files with
          | nil => exact ⟨.nil, fun file member => absurd member List.not_mem_nil⟩
          | cons first rest =>
              refine remove_named_iff.mpr ((accumulate_without_clears_iff (apart rfl)).mp ?_)
              intro file member
              exact (right file member).trans (Bool.and_false (store file))

end Bits

/-! ### All flags -/

theorem flags_eq_iff {flags flags' : Flags} :
    flags = flags' ↔ ∀ i, flags.getLsbD i = flags'.getLsbD i :=
  ⟨fun same _ => same ▸ rfl, fun same => BitVec.eq_of_getLsbD_eq fun i _ => same i⟩

/-- Each flag comes out right. -/
def Compatible (operator : Operator) (files : List κ) (flags : κ → Flags) (named : Flags) :
    Prop :=
  ∀ i, BitCompatible operator files (fun file => (flags file).getLsbD i) (named.getLsbD i)

/-- Each file has its own old flags with the named ones added, removed or put in their place,
and no other file is changed. -/
structure Law (operator : Operator) (named : Flags) (files : List κ) (before after : κ → Flags) :
    Prop where
  listed : ∀ file ∈ files, after file = operator.apply (before file) named
  other : ∀ file, file ∉ files → after file = before file

theorem law_iff (operator : Operator) (named : Flags) (files : List κ) (flags : κ → Flags) :
    Law operator named files flags (accumulate operator.apply files named flags) ↔
      ∀ i, BitRight operator files (fun file => (flags file).getLsbD i) (named.getLsbD i) := by
  have image : ∀ i file, (accumulate operator.apply files named flags file).getLsbD i =
      accumulate operator.bit files (named.getLsbD i) (fun file => (flags file).getLsbD i) file :=
    fun i file =>
      accumulate_map (BitVec.getLsbD · i) (getLsbD_apply operator i) files named flags file
  constructor
  · intro law i file member
    rw [← image, law.listed file member, getLsbD_apply]
  · intro right
    refine ⟨fun file member => flags_eq_iff.mpr fun i => ?_, fun file absent => ?_⟩
    · rw [image, right i file member, getLsbD_apply]
    · exact accumulate_other absent named flags

/-- A run is right if the files are compatible; and if no file is named twice in a row, for `-`
at least, only then. -/
theorem run_law (program : List UInt8) (operator : Operator) (letters : List Letter)
    (arguments : List (List UInt8 × κ)) (flags : κ → Flags) :
    let files := arguments.map Prod.snd
    let after := (run program operator letters arguments flags).flags
    (Compatible operator files flags (mask letters) →
      Law operator (mask letters) files flags after) ∧
    ((operator = .remove → files.IsChain (· ≠ ·)) →
      Law operator (mask letters) files flags after →
        Compatible operator files flags (mask letters)) := by
  dsimp only
  rw [run_flags, law_iff]
  constructor
  · exact fun compatible i => (compatible i).right
  · exact fun apart right i => (right i).compatible apart

/-- `+i` for two files, of which the first can only be appended to: the second one gets this
flag as well. -/
theorem run_append :
    let flags : Bool → Flags := fun second => if second then 0 else FS_APPEND_FL
    let after := (run [] .add [⟨105, by decide⟩] [([97], false), ([98], true)] flags).flags
    after true = FS_IMMUTABLE_FL ||| FS_APPEND_FL ∧
      after true ≠ Operator.apply .add (flags true) FS_IMMUTABLE_FL := by
  decide

end LinuxProgramming.Files.Chattr
