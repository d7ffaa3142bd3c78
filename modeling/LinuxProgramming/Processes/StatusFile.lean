import LinuxProgramming.Library.Atoi
import LinuxProgramming.Library.CInt
import LinuxProgramming.Library.Lines
import LinuxProgramming.Library.Strtok
import LinuxProgramming.Processes.Pstree

/-!
Contract: the status files of `/proc` as `my_pstree` and `user_process` read them.

Owns:
- the loops of `generate_pid_tree` and `print_file_message`, from the bytes of a file;
- what the two take from a file that has each of their keys once, in any order.

Does not own: the scan of `/proc`, or the tree. `malloc` does not fail.
-/

namespace LinuxProgramming.Processes.StatusFile

open LinuxProgramming.Library
open Lines

def BUFFER_SIZE : Nat := 1024

def NAME_MAX : Nat := 255

def colon : UInt8 := 58

def tab : UInt8 := 9

def newline : UInt8 := 10

/-- `"Name"`. -/
def nameKey : List UInt8 := [78, 97, 109, 101]

/-- `"Pid"`. -/
def pidKey : List UInt8 := [80, 105, 100]

/-- `"PPid"`. -/
def ppidKey : List UInt8 := [80, 80, 105, 100]

/-- `"Uid"`. -/
def uidKey : List UInt8 := [85, 105, 100]

/-! ### What the two programs share -/

/-- The string in `buffer` without the newline at its end; `none` if it is empty, where
`buffer[strlen(buffer) - 1]` lies before the buffer. -/
def stripNewline (buffer : List UInt8) : Option (List UInt8) :=
  let string := buffer.takeWhile (· ≠ 0)
  if string = [] then none
  else some (if string.getLast? = some newline then string.dropLast else string)

/-- `while ((value = strtok(NULL, "\t")) != NULL && *value == '\0');` -/
def nextValue (saved : List UInt8) : Option (List UInt8) :=
  if (strtok [tab] saved).1 = some [] then nextValue (strtok [tab] saved).2
  else (strtok [tab] saved).1
termination_by saved.length
decreasing_by exact length_strtok_lt (by simp_all)

/-- `strtol(value, NULL, 10)`, of a string with its terminator. -/
def strtol (value : List UInt8) : Option Int := Atoi.strtol? (value ++ [0])

/-- The branch of the name; `none` if `strcpy` writes past the end of `program_name`. -/
def readName (program_name saved : List UInt8) : Option (List UInt8) :=
  match nextValue saved with
  | none => some program_name
  | some value => if value.length < NAME_MAX then some value else none

/-- The branch of a number that is kept in an `int`. -/
def readInt (number : Int) (saved : List UInt8) : Option Int :=
  match nextValue saved with
  | none => some number
  | some value => (strtol value).map CInt.wrap

/-! ### `generate_pid_tree` -/

/-- The locals that the loop sets, which are not initialised. -/
structure Locals where
  program_name : List UInt8
  pid : Int
  ppid : Int
deriving DecidableEq, Repr

/-- The body of the loop of `generate_pid_tree`. -/
def generateLine (locals : Locals) (buffer : List UInt8) : Option Locals :=
  (stripNewline buffer).bind fun line =>
    let (name, saved) := strtok [colon] line
    if name = some nameKey then
      (readName locals.program_name saved).map fun value => { locals with program_name := value }
    else if name = some pidKey then
      (readInt locals.pid saved).map fun value => { locals with pid := value }
    else if name = some ppidKey then
      (readInt locals.ppid saved).map fun value => { locals with ppid := value }
    else some locals

/-- `generate_pid_tree` on a file with these bytes. -/
def generatePidTree (locals : Locals) (file : List UInt8) (heads : PpidList) : Option PpidList :=
  ((fgetsAll newline BUFFER_SIZE file).foldlM generateLine locals).map fun locals =>
    insertRecord ⟨locals.program_name, locals.pid, locals.ppid⟩ heads

/-! ### `print_file_message` -/

/-- The locals that the loop sets; `local_uid` is only used where it is set. -/
structure PrintLocals where
  program_name : List UInt8
  program_pid : Int
deriving DecidableEq, Repr

/-- `uid_t` of a `long`. -/
def toUid (value : Int) : Nat := (value % 2 ^ 32).toNat

/-- The body of the loop of `print_file_message`; the inner `none` is its `return`. -/
def printLine (user_id : Nat) (locals : PrintLocals) (buffer : List UInt8) :
    Option (Option PrintLocals) :=
  (stripNewline buffer).bind fun line =>
    let (name, saved) := strtok [colon] line
    if name = some uidKey then
      match nextValue saved with
      | none => some (some locals)
      | some value => (strtol value).map fun local_uid =>
          if toUid local_uid ≠ user_id then none else some locals
    else if name = some nameKey then
      (readName locals.program_name saved).map fun value =>
        some { locals with program_name := value }
    else if name = some pidKey then
      (readInt locals.program_pid saved).map fun value =>
        some { locals with program_pid := value }
    else some (some locals)

def printLoop (user_id : Nat) : PrintLocals → List (List UInt8) → Option (Option PrintLocals)
  | locals, [] => some (some locals)
  | locals, buffer :: rest =>
      match printLine user_id locals buffer with
      | none => none
      | some none => some none
      | some (some locals) => printLoop user_id locals rest

/-- `print_file_message`: the name and the number of each `"%-50s\t:%ld\n"`. -/
def printFileMessage (locals : PrintLocals) (file : List UInt8) (user_id : Nat) :
    Option (List (List UInt8 × Int)) :=
  (printLoop user_id locals (fgetsAll newline BUFFER_SIZE file)).map fun ended =>
    match ended with
    | none => []
    | some locals => [(locals.program_name, locals.program_pid)]

/-! ### Status files -/

/-- A line without the newline that ends it. -/
def content (line : List UInt8) : List UInt8 :=
  if line.getLast? = some newline then line.dropLast else line

/-- The lines of a file. -/
def contents (file : List UInt8) : List (List UInt8) := (lines newline file).map content

/-- What stands before the first colon of a line. -/
def keyOf (line : List UInt8) : List UInt8 := line.takeWhile (· ≠ colon)

/-- The lines with a key. -/
def linesOf (key file : List UInt8) : List (List UInt8) :=
  (contents file).filter fun line => keyOf line = key

/-- Key, colon, tab and value. -/
def lineOf (key value : List UInt8) : List UInt8 := key ++ colon :: tab :: value

/-- A text with one line for each key, in any order, and others with other keys. -/
structure IsStatus (file name : List UInt8) (pid ppid : Int) (uid : Nat) : Prop where
  isText : 0 ∉ file
  short : ∀ line ∈ contents file, line.length < BUFFER_SIZE - 1
  keyed : ∀ line ∈ contents file, keyOf line ≠ []
  nameLine : linesOf nameKey file = [lineOf nameKey name]
  isName : name ≠ [] ∧ tab ∉ name ∧ name.length ≤ NAME_MAX - 1
  pidLine : ∃ digits, linesOf pidKey file = [lineOf pidKey digits] ∧ Atoi.IsNumeral digits pid
  isPid : CInt.IsInt pid
  ppidLine : ∃ digits, linesOf ppidKey file = [lineOf ppidKey digits] ∧ Atoi.IsNumeral digits ppid
  isPpid : CInt.IsInt ppid
  uidLine : ∃ digits others, linesOf uidKey file = [lineOf uidKey (digits ++ others)] ∧
    Atoi.IsNumeral digits uid ∧ ∀ c ∈ others.head?, c = tab
  isUid : uid < 2 ^ 32

/-! ### One line -/

theorem stripNewline_eq {line : List UInt8} (isText : 0 ∉ line) (some_ : content line ≠ []) :
    stripNewline line = some (content line) := by
  have whole : line.takeWhile (· ≠ 0) = line := by
    refine List.takeWhile_eq_self_iff.mpr fun c member => ?_
    have : c ≠ 0 := fun zero => isText (zero ▸ member)
    simpa using this
  have nonempty : line ≠ [] := by
    rintro rfl
    exact some_ rfl
  rw [stripNewline, whole]
  exact if_neg nonempty

/-- The first token of a line is its key. -/
theorem strtok_keyOf {line : List UInt8} (keyed : keyOf line ≠ []) :
    ∃ saved, strtok [colon] line = (some (keyOf line), saved) := by
  have free : ∀ c ∈ keyOf line, c ∉ [colon] := by
    intro c member
    have := List.mem_takeWhile_imp member
    simpa using this
  have split : keyOf line ++ line.dropWhile (· ≠ colon) = line := List.takeWhile_append_dropWhile
  cases rest : line.dropWhile (· ≠ colon) with
  | nil =>
      have whole := strtok_token free keyed
      rw [rest, List.append_nil] at split
      nth_rewrite 1 [split] at whole
      exact ⟨[], whole⟩
  | cons c saved =>
      have isColon : c = colon := by
        have head := List.head?_dropWhile_not (fun c => decide (c ≠ colon)) line
        rw [rest, List.head?_cons] at head
        simpa using head
      have cut := strtok_append free keyed (List.mem_singleton_self colon) saved
      rw [← isColon, ← rest, split, isColon] at cut
      exact ⟨saved, cut⟩

theorem strtok_lineOf {key : List UInt8} (free : colon ∉ key) (nonempty : key ≠ [])
    (value : List UInt8) : strtok [colon] (lineOf key value) = (some key, tab :: value) := by
  refine strtok_append (fun c member isColon => ?_) nonempty (List.mem_singleton_self colon) _
  rw [List.mem_singleton.mp isColon] at member
  exact free member

theorem nextValue_eq (saved : List UInt8) : nextValue saved = (strtok [tab] saved).1 := by
  rw [nextValue, if_neg (strtok_ne_nil _ _)]

/-- The value goes up to the next tab. -/
theorem nextValue_tab {value others : List UInt8} (nonempty : value ≠ []) (free : tab ∉ value)
    (ends : ∀ c ∈ others.head?, c = tab) :
    nextValue (tab :: (value ++ others)) = some value := by
  have isFree : ∀ c ∈ value, c ∉ [tab] := by
    intro c member isTab
    rw [List.mem_singleton.mp isTab] at member
    exact free member
  rw [nextValue_eq, strtok_cons_of_mem (List.mem_singleton_self tab)]
  cases others with
  | nil => rw [List.append_nil, strtok_token isFree nonempty]
  | cons c rest =>
      have isTab : c = tab := ends c rfl
      rw [isTab, strtok_append isFree nonempty (List.mem_singleton_self tab)]

theorem strtol_numeral {digits : List UInt8} {value : Int}
    (numeral : Atoi.IsNumeral digits value) (low : Atoi.LONG_MIN ≤ value)
    (high : value ≤ Atoi.LONG_MAX) : strtol digits = some value :=
  Atoi.strtol?_numeral numeral low high (by decide) []

theorem numeral_tab {digits : List UInt8} {value : Int} (numeral : Atoi.IsNumeral digits value) :
    tab ∉ digits :=
  numeral.notMem (by decide) (by decide)

theorem readInt_numeral {digits : List UInt8} {value : Int}
    (numeral : Atoi.IsNumeral digits value) (isInt : CInt.IsInt value) (number : Int) :
    readInt number (tab :: digits) = some value := by
  have next : nextValue (tab :: (digits ++ [])) = some digits :=
    nextValue_tab numeral.ne_nil (numeral_tab numeral) (by simp)
  rw [List.append_nil] at next
  rw [readInt, next]
  simp only
  rw [strtol_numeral numeral (Int.le_trans (by decide) isInt.1)
    (Int.le_trans isInt.2 (by decide)), Option.map_some, CInt.wrap_eq isInt]

theorem readName_name {name : List UInt8} (nonempty : name ≠ []) (free : tab ∉ name)
    (fits : name.length ≤ NAME_MAX - 1) (program_name : List UInt8) :
    readName program_name (tab :: name) = some name := by
  have next : nextValue (tab :: (name ++ [])) = some name :=
    nextValue_tab nonempty free (by simp)
  rw [List.append_nil] at next
  have room : name.length < NAME_MAX := Nat.lt_of_le_of_lt fits (by decide)
  rw [readName, next]
  exact if_pos room

section Status

variable {file name : List UInt8} {pid ppid : Int} {uid : Nat}

theorem mem_line_of_linesOf {key line only : List UInt8} (once : linesOf key file = [only])
    (member : line ∈ contents file) (isKey : keyOf line = key) : line = only := by
  have found : line ∈ linesOf key file := List.mem_filter.mpr ⟨member, by simpa using isKey⟩
  rw [once] at found
  exact List.mem_singleton.mp found

/-- The only line with a key is cut behind that key. -/
theorem strtok_content {key value line : List UInt8} (once : linesOf key file = [lineOf key value])
    (isContent : content line ∈ contents file) (isKey : keyOf (content line) = key)
    (free : colon ∉ key) (nonempty : key ≠ []) :
    strtok [colon] (content line) = (some key, tab :: value) := by
  rw [mem_line_of_linesOf once isContent isKey, strtok_lineOf free nonempty]

theorem IsStatus.cutName (status : IsStatus file name pid ppid uid) {line : List UInt8}
    (isContent : content line ∈ contents file) (isName : keyOf (content line) = nameKey) :
    ∃ saved, strtok [colon] (content line) = (some nameKey, saved) ∧
      ∀ program_name, readName program_name saved = some name := by
  obtain ⟨nonempty, free, fits⟩ := status.isName
  exact ⟨tab :: name, strtok_content status.nameLine isContent isName (by decide) (by decide),
    readName_name nonempty free fits⟩

theorem IsStatus.cutPid (status : IsStatus file name pid ppid uid) {line : List UInt8}
    (isContent : content line ∈ contents file) (isPid : keyOf (content line) = pidKey) :
    ∃ saved, strtok [colon] (content line) = (some pidKey, saved) ∧
      ∀ number, readInt number saved = some pid := by
  obtain ⟨digits, once, numeral⟩ := status.pidLine
  exact ⟨tab :: digits, strtok_content once isContent isPid (by decide) (by decide),
    readInt_numeral numeral status.isPid⟩

theorem IsStatus.cutPpid (status : IsStatus file name pid ppid uid) {line : List UInt8}
    (isContent : content line ∈ contents file) (isPpid : keyOf (content line) = ppidKey) :
    ∃ saved, strtok [colon] (content line) = (some ppidKey, saved) ∧
      ∀ number, readInt number saved = some ppid := by
  obtain ⟨digits, once, numeral⟩ := status.ppidLine
  exact ⟨tab :: digits, strtok_content once isContent isPpid (by decide) (by decide),
    readInt_numeral numeral status.isPpid⟩

/-- The value of the line of the user goes up to the next tab. -/
theorem IsStatus.cutUid (status : IsStatus file name pid ppid uid) {line : List UInt8}
    (isContent : content line ∈ contents file) (isUid : keyOf (content line) = uidKey) :
    ∃ saved digits, strtok [colon] (content line) = (some uidKey, saved) ∧
      nextValue saved = some digits ∧ strtol digits = some (uid : Int) ∧ toUid uid = uid := by
  obtain ⟨digits, others, once, numeral, ends⟩ := status.uidLine
  have small := status.isUid
  refine ⟨tab :: (digits ++ others), digits,
    strtok_content once isContent isUid (by decide) (by decide),
    nextValue_tab numeral.ne_nil (numeral_tab numeral) ends, ?_, ?_⟩
  · apply strtol_numeral numeral
    · exact Int.le_trans (by decide) (Int.natCast_nonneg uid)
    · rw [Atoi.LONG_MAX]
      omega
  · rw [toUid]
    omega

theorem IsStatus.stripNewline_eq (status : IsStatus file name pid ppid uid) {line : List UInt8}
    (member : line ∈ lines newline file) : stripNewline line = some (content line) := by
  apply StatusFile.stripNewline_eq
  · intro zero
    have inside : 0 ∈ (lines newline file).flatten := List.mem_flatten.mpr ⟨line, member, zero⟩
    rw [lines_flatten] at inside
    exact status.isText inside
  · intro empty
    have keyed := status.keyed _ (List.mem_map_of_mem member)
    rw [empty] at keyed
    exact keyed rfl

/-- What lines with these keys leave in the locals: each value in the place of its key. -/
def Locals.stored (name : List UInt8) (pid ppid : Int) (keys : List (List UInt8))
    (locals : Locals) : Locals where
  program_name := if nameKey ∈ keys then name else locals.program_name
  pid := if pidKey ∈ keys then pid else locals.pid
  ppid := if ppidKey ∈ keys then ppid else locals.ppid

theorem Locals.stored_cons (name : List UInt8) (pid ppid : Int) (key : List UInt8)
    (keys : List (List UInt8)) (locals : Locals) :
    (locals.stored name pid ppid [key]).stored name pid ppid keys =
      locals.stored name pid ppid (key :: keys) := by
  simp only [stored, List.mem_cons, List.not_mem_nil, or_false]
  congr 1 <;> split_ifs <;> simp_all

def PrintLocals.stored (name : List UInt8) (pid : Int) (keys : List (List UInt8))
    (locals : PrintLocals) : PrintLocals where
  program_name := if nameKey ∈ keys then name else locals.program_name
  program_pid := if pidKey ∈ keys then pid else locals.program_pid

theorem PrintLocals.stored_cons (name : List UInt8) (pid : Int) (key : List UInt8)
    (keys : List (List UInt8)) (locals : PrintLocals) :
    (locals.stored name pid [key]).stored name pid keys = locals.stored name pid (key :: keys) := by
  simp only [stored, List.mem_cons, List.not_mem_nil, or_false]
  congr 1 <;> split_ifs <;> simp_all

theorem generateLine_eq (status : IsStatus file name pid ppid uid) {line : List UInt8}
    (member : line ∈ lines newline file) (locals : Locals) :
    generateLine locals line = some (locals.stored name pid ppid [keyOf (content line)]) := by
  have isContent : content line ∈ contents file := List.mem_map_of_mem member
  rw [generateLine, status.stripNewline_eq member, Option.bind_some]
  by_cases isName : keyOf (content line) = nameKey
  · obtain ⟨saved, cut, read⟩ := status.cutName isContent isName
    rw [cut, isName]
    simp only [if_true]
    rw [read]
    rfl
  by_cases isPid : keyOf (content line) = pidKey
  · obtain ⟨saved, cut, read⟩ := status.cutPid isContent isPid
    rw [cut, isPid]
    simp only [if_true]
    rw [if_neg (by decide), read]
    rfl
  by_cases isPpid : keyOf (content line) = ppidKey
  · obtain ⟨saved, cut, read⟩ := status.cutPpid isContent isPpid
    rw [cut, isPpid]
    simp only [if_true]
    rw [if_neg (by decide), if_neg (by decide), read]
    rfl
  · obtain ⟨saved, cut⟩ := strtok_keyOf (status.keyed _ isContent)
    rw [cut]
    simp [Locals.stored, isName, isPid, isPpid, Ne.symm isName, Ne.symm isPid, Ne.symm isPpid]

theorem printLine_eq (status : IsStatus file name pid ppid uid) {line : List UInt8}
    (member : line ∈ lines newline file) (user_id : Nat) (locals : PrintLocals) :
    printLine user_id locals line = some
      (if keyOf (content line) = uidKey ∧ uid ≠ user_id then none
        else some (locals.stored name pid [keyOf (content line)])) := by
  have isContent : content line ∈ contents file := List.mem_map_of_mem member
  rw [printLine, status.stripNewline_eq member, Option.bind_some]
  by_cases isUid : keyOf (content line) = uidKey
  · obtain ⟨saved, digits, cut, next, number, same⟩ := status.cutUid isContent isUid
    rw [cut, isUid]
    simp only [if_true, true_and]
    rw [next]
    simp only
    rw [number, Option.map_some, same]
    rfl
  by_cases isName : keyOf (content line) = nameKey
  · obtain ⟨saved, cut, read⟩ := status.cutName isContent isName
    rw [cut, isName]
    simp only [if_true]
    rw [if_neg (by decide), read]
    rfl
  by_cases isPid : keyOf (content line) = pidKey
  · obtain ⟨saved, cut, read⟩ := status.cutPid isContent isPid
    rw [cut, isPid]
    simp only [if_true]
    rw [if_neg (by decide), if_neg (by decide), read]
    rfl
  · obtain ⟨saved, cut⟩ := strtok_keyOf (status.keyed _ isContent)
    rw [cut]
    simp [PrintLocals.stored, isUid, isName, isPid, Ne.symm isName, Ne.symm isPid]

/-! ### All lines -/

/-- The keys of lines. -/
def keysOf (read : List (List UInt8)) : List (List UInt8) := read.map fun line => keyOf (content line)

/-- The induction is on the lines still to be read, with whatever locals. -/
theorem generateLines_eq (status : IsStatus file name pid ppid uid) {read : List (List UInt8)}
    (inside : ∀ line ∈ read, line ∈ lines newline file) (locals : Locals) :
    read.foldlM generateLine locals = some (locals.stored name pid ppid (keysOf read)) := by
  induction read generalizing locals with
  | nil => rfl
  | cons line rest inductionHypothesis =>
      obtain ⟨member, later⟩ := List.forall_mem_cons.mp inside
      rw [List.foldlM_cons, generateLine_eq status member]
      exact (inductionHypothesis later _).trans (congrArg some (Locals.stored_cons ..))

theorem printLoop_eq (status : IsStatus file name pid ppid uid) {read : List (List UInt8)}
    (inside : ∀ line ∈ read, line ∈ lines newline file) (user_id : Nat) (locals : PrintLocals) :
    printLoop user_id locals read = some
      (if uidKey ∈ keysOf read ∧ uid ≠ user_id then none
        else some (locals.stored name pid (keysOf read))) := by
  induction read generalizing locals with
  | nil => simp [printLoop, keysOf, PrintLocals.stored]
  | cons line rest inductionHypothesis =>
      obtain ⟨member, later⟩ := List.forall_mem_cons.mp inside
      rw [printLoop, printLine_eq status member]
      by_cases returns : keyOf (content line) = uidKey ∧ uid ≠ user_id
      · have among : uidKey ∈ keysOf (line :: rest) := returns.1 ▸ List.mem_cons_self
        rw [if_pos returns, if_pos ⟨among, returns.2⟩]
      · rw [if_neg returns]
        simp only
        rw [inductionHypothesis later, PrintLocals.stored_cons]
        have same : uidKey ∈ keysOf (line :: rest) ∧ uid ≠ user_id ↔
            uidKey ∈ keysOf rest ∧ uid ≠ user_id := by
          simp only [keysOf, List.map_cons, List.mem_cons, or_and_right]
          exact or_iff_right fun here => returns (here.imp_left Eq.symm)
        simp only [same]
        rfl

theorem mem_keysOf {key only : List UInt8} (once : linesOf key file = [only]) :
    key ∈ keysOf (lines newline file) := by
  have found : only ∈ linesOf key file := once ▸ List.mem_singleton_self only
  obtain ⟨member, isKey⟩ := List.mem_filter.mp found
  obtain ⟨line, isLine, rfl⟩ := List.mem_map.mp member
  exact List.mem_map.mpr ⟨line, isLine, by simpa using isKey⟩

theorem length_le_content (line : List UInt8) : line.length ≤ (content line).length + 1 := by
  rw [content]
  split
  · rw [List.length_dropLast]
    omega
  · exact Nat.le_succ _

theorem IsStatus.fgetsAll (status : IsStatus file name pid ppid uid) :
    fgetsAll newline BUFFER_SIZE file = lines newline file := by
  refine fgetsAll_eq_lines file fun line member => ?_
  have short := status.short _ (List.mem_map_of_mem member)
  have longer := length_le_content line
  simp only [BUFFER_SIZE] at short ⊢
  omega

end Status

/-- From a status file with one line for each key, `generate_pid_tree` records its name
and pid under its ppid, and `print_file_message` prints the two for the user of its first
uid, and nothing for others; whatever the locals hold at first. -/
theorem statusFile_read {file name : List UInt8} {pid ppid : Int} {uid : Nat}
    (status : IsStatus file name pid ppid uid) (locals : Locals) (heads : PpidList)
    (printLocals : PrintLocals) (user_id : Nat) :
    generatePidTree locals file heads = some (insertRecord ⟨name, pid, ppid⟩ heads) ∧
      printFileMessage printLocals file user_id =
        some (if uid = user_id then [(name, pid)] else []) := by
  obtain ⟨_, pidOnce, -⟩ := status.pidLine
  obtain ⟨_, ppidOnce, -⟩ := status.ppidLine
  obtain ⟨_, _, uidOnce, -⟩ := status.uidLine
  have hasName := mem_keysOf status.nameLine
  have hasPid := mem_keysOf pidOnce
  constructor
  · rw [generatePidTree, status.fgetsAll, generateLines_eq status fun _ member => member]
    simp only [Locals.stored, hasName, hasPid, mem_keysOf ppidOnce, if_true]
    rfl
  · rw [printFileMessage, status.fgetsAll, printLoop_eq status fun _ member => member]
    simp only [PrintLocals.stored, hasName, hasPid, mem_keysOf uidOnce, if_true, true_and]
    by_cases same : uid = user_id
    · simp [same]
    · simp [same]

/-- `"Name:\ta: b"`, `"TracerPid:\t0"`, `"Uid:\t7\t8"`, `"PPid:\t1"` and `"Pid:\t23"`. -/
def sampleStatus : List UInt8 :=
  lineOf nameKey [97, 58, 32, 98] ++ newline ::
    (lineOf ([84, 114, 97, 99, 101, 114] ++ pidKey) [48] ++ newline ::
      (lineOf uidKey [55, 9, 56] ++ newline ::
        (lineOf ppidKey [49] ++ newline :: lineOf pidKey [50, 51])))

theorem isStatus_sample : IsStatus sampleStatus [97, 58, 32, 98] 23 1 7 where
  isText := by decide
  short := by decide
  keyed := by decide
  nameLine := by decide
  isName := by decide
  pidLine := ⟨[50, 51], by decide, [50, 51], by decide, List.all_eq_true.mp rfl,
    .inl ⟨rfl, by decide⟩⟩
  isPid := by decide
  ppidLine := ⟨[49], by decide, [49], by decide, List.all_eq_true.mp rfl,
    .inl ⟨rfl, by decide⟩⟩
  isPpid := by decide
  uidLine := ⟨[55], [9, 56], by decide,
    ⟨[55], by decide, List.all_eq_true.mp rfl, .inl ⟨rfl, by decide⟩⟩,
    fun _ member => (Option.some.inj member).symm⟩
  isUid := by decide

theorem statusFile_read_sample :
    generatePidTree ⟨[], 0, 0⟩ sampleStatus [] =
        some (insertRecord ⟨[97, 58, 32, 98], 23, 1⟩ []) ∧
      printFileMessage ⟨[], 0⟩ sampleStatus 7 =
        some (if 7 = 7 then [([97, 58, 32, 98], 23)] else []) :=
  statusFile_read isStatus_sample ⟨[], 0, 0⟩ [] ⟨[], 0⟩ 7

end LinuxProgramming.Processes.StatusFile
