import LinuxProgramming.Library.CBuffer

/-!
Contract: `traverse_proc_pid`, which looks for the processes that have a file open.

Owns:
- the traversal of `/proc` and of the `fd` directory of each process, with the arrays in which
  the pathnames and the target of a link are put together;
- the pathnames of the files that `print_name_pid` is called for;
- exactly when the traversal does what it is meant to.

Does not own: `print_name_pid`, and the messages.
-/

namespace LinuxProgramming.Processes.SpecialFile

open LinuxProgramming.Library

def nul : UInt8 := 0

def PATH_MAX : Nat := 4096

def NAME_MAX : Nat := 255

/-- `"/proc"`. -/
def procDirectory : List UInt8 := [47, 112, 114, 111, 99]

/-- `"/proc/"`. -/
def procSlash : List UInt8 := [47, 112, 114, 111, 99, 47]

/-- `"/fd/"`. -/
def slashFd : List UInt8 := [47, 102, 100, 47]

/-- `"/status"`. -/
def slashStatus : List UInt8 := [47, 115, 116, 97, 116, 117, 115]

/-- The `d_name` of a directory entry. -/
structure Name where
  bytes : List UInt8
  terminated : nul ∉ bytes
  fits : bytes.length ≤ NAME_MAX
deriving DecidableEq, Repr

/-- The target of a link in `/proc`, for which the kernel has a page. -/
structure Target where
  bytes : List UInt8
  terminated : nul ∉ bytes
  fits : bytes.length < PATH_MAX
deriving DecidableEq, Repr

/-- What the calls find; `none` where they fail. -/
structure Snapshot where
  opendir : List UInt8 → Option (List Name)
  readlink : List UInt8 → Option Target
  fopen : List UInt8 → Bool

/-- Why the traversal does not come to its end. -/
inductive Stop where
  /-- `exit(EXIT_FAILURE)`. -/
  | exit
  /-- `readdir` of a null pointer. -/
  | nullStream
  /-- A store outside of an array. -/
  | outside
deriving DecidableEq, Repr

/-! ### Arrays of bytes -/

structure Chars (size : Nat) where
  bytes : List UInt8
  length_eq : bytes.length = size

namespace Chars

variable {size : Nat}

def write (chars : Chars size) (index : Nat) (symbols : List UInt8) : Except Stop (Chars size) :=
  match written : CBuffer.write? chars.bytes index symbols with
  | some bytes => .ok ⟨bytes, (CBuffer.of_write? written).2.trans chars.length_eq⟩
  | none => .error .outside

/-- `chars[index] = byte`. -/
def store (chars : Chars size) (index : Int) (byte : UInt8) : Except Stop (Chars size) :=
  if 0 ≤ index then chars.write index.toNat [byte] else .error .outside

/-- `strcpy(chars + index, text)`. -/
def strcpy (chars : Chars size) (index : Nat) (text : List UInt8) : Except Stop (Chars size) :=
  chars.write index (text ++ [nul])

def string (chars : Chars size) : List UInt8 := CBuffer.string nul chars.bytes

end Chars

/-! ### The traversal -/

/-- The arrays of `traverse_proc_pid`. -/
structure Buffers where
  proc_file_name : Chars 270
  proc_fd_name : Chars PATH_MAX
  proc_fd_softlink_name : Chars PATH_MAX
  softlink_target_name : Chars PATH_MAX

/-- The name starts with a digit. -/
def Name.isNumber (name : Name) : Bool :=
  48 ≤ name.bytes.headD nul && name.bytes.headD nul ≤ 57

/-- A pathname from three parts, copied one behind the other. -/
def assemble {size : Nat} (chars : Chars size) (front : List UInt8) (name : Name)
    (back : List UInt8) : Except Stop (Chars size) := do
  let chars ← chars.strcpy 0 front
  let chars ← chars.strcpy front.length name.bytes
  chars.strcpy (front.length + name.bytes.length) back

/-- `readlink(pathname, softlink_target_name, PATH_MAX - 1)`: the bytes put into the array and
their number, or -1. -/
def readlink (snapshot : Snapshot) (pathname : List UInt8) (chars : Chars PATH_MAX) :
    Except Stop (Chars PATH_MAX × Int) :=
  match snapshot.readlink pathname with
  | none => .ok (chars, -1)
  | some target => do
      let copied := target.bytes.take (PATH_MAX - 1)
      let chars ← chars.write 0 copied
      return (chars, copied.length)

/-- The loop over the links of a process, with the pathname for which it calls
`print_name_pid`. -/
def readLinks (snapshot : Snapshot) (filename : List UInt8) (pid : Name) (proc_fd_length : Nat) :
    List Name → Buffers → Except Stop (Buffers × List (List UInt8))
  | [], buffers => .ok (buffers, [])
  | link :: rest, buffers =>
      if link.isNumber then do
        let softlink ← buffers.proc_fd_softlink_name.strcpy proc_fd_length link.bytes
        let (target, numbytes) ←
          readlink snapshot softlink.string buffers.softlink_target_name
        let target ← target.store numbytes nul
        let buffers :=
          { buffers with proc_fd_softlink_name := softlink, softlink_target_name := target }
        if target.string = filename then
          let file ← assemble buffers.proc_file_name procSlash pid slashStatus
          return ({ buffers with proc_file_name := file },
            if snapshot.fopen file.string then [file.string] else [])
        else readLinks snapshot filename pid proc_fd_length rest buffers
      else readLinks snapshot filename pid proc_fd_length rest buffers

/-- One entry of `/proc`. That its `fd` directory does not open is reported, and then the
stream is read all the same. -/
def visit (snapshot : Snapshot) (filename : List UInt8) (entry : Name) (buffers : Buffers) :
    Except Stop (Buffers × List (List UInt8)) :=
  if entry.isNumber then do
    let fd ← assemble buffers.proc_fd_name procSlash entry slashFd
    let softlink ← buffers.proc_fd_softlink_name.strcpy 0 fd.string
    let buffers := { buffers with proc_fd_name := fd, proc_fd_softlink_name := softlink }
    match snapshot.opendir fd.string with
    | none => .error .nullStream
    | some links => readLinks snapshot filename entry fd.string.length links buffers
  else .ok (buffers, [])

def visitAll (snapshot : Snapshot) (filename : List UInt8) :
    List Name → Buffers → Except Stop (Buffers × List (List UInt8))
  | [], buffers => .ok (buffers, [])
  | entry :: rest, buffers => do
      let (buffers, printed) ← visit snapshot filename entry buffers
      let (buffers, more) ← visitAll snapshot filename rest buffers
      return (buffers, printed ++ more)

/-- `traverse_proc_pid`, from whatever is in its arrays: the pathnames of the files for which
it calls `print_name_pid`. -/
def traverseProcPid (snapshot : Snapshot) (filename : List UInt8) (buffers : Buffers) :
    Except Stop (List (List UInt8)) :=
  match snapshot.opendir procDirectory with
  | none => .error .exit
  | some entries => do
      let (_, printed) ← visitAll snapshot filename entries buffers
      return printed

/-! ### The pathnames -/

def fdPath (pid : Name) : List UInt8 := procSlash ++ pid.bytes ++ slashFd

def linkPath (pid link : Name) : List UInt8 := fdPath pid ++ link.bytes

def statusPath (pid : Name) : List UInt8 := procSlash ++ pid.bytes ++ slashStatus

theorem length_fdPath (pid : Name) : (fdPath pid).length = pid.bytes.length + 10 := by
  simp only [fdPath, procSlash, slashFd, List.length_append, List.length_cons, List.length_nil]
  omega

theorem nul_not_mem_fdPath (pid : Name) : nul ∉ fdPath pid := by
  simp [fdPath, procSlash, slashFd, nul, show 0 ∉ pid.bytes from pid.terminated]

theorem nul_not_mem_linkPath (pid link : Name) : nul ∉ linkPath pid link := by
  rw [linkPath, List.mem_append, not_or]
  exact ⟨nul_not_mem_fdPath pid, link.terminated⟩

theorem nul_not_mem_statusPath (pid : Name) : nul ∉ statusPath pid := by
  simp [statusPath, procSlash, slashStatus, nul, show 0 ∉ pid.bytes from pid.terminated]

namespace Chars

variable {size : Nat} {chars : Chars size}

/-- A write behind what is known of an array keeps it. -/
theorem exists_write {kept : List UInt8} (starts : kept <+: chars.bytes) (symbols : List UInt8)
    (fits : kept.length + symbols.length ≤ size) :
    ∃ chars', chars.write kept.length symbols = .ok chars' ∧ kept ++ symbols <+: chars'.bytes := by
  obtain ⟨bytes, written, starts', -⟩ :=
    CBuffer.exists_write? starts symbols (chars.length_eq.symm ▸ fits)
  unfold write
  split
  case h_1 bytes' written' =>
    obtain rfl : bytes = bytes' := Option.some.inj (written.symm.trans written')
    exact ⟨_, rfl, starts'⟩
  case h_2 failed =>
    rw [written] at failed
    cases failed

theorem exists_strcpy {kept : List UInt8} (starts : kept <+: chars.bytes) (text : List UInt8)
    (fits : kept.length + text.length < size) :
    ∃ chars', chars.strcpy kept.length text = .ok chars' ∧
      kept ++ text ++ [nul] <+: chars'.bytes := by
  rw [List.append_assoc]
  refine exists_write starts (text ++ [nul]) ?_
  rw [List.length_append, List.length_singleton]
  exact fits

theorem string_eq {text : List UInt8} (free : nul ∉ text)
    (starts : text ++ [nul] <+: chars.bytes) : chars.string = text :=
  CBuffer.string_eq free starts

end Chars

theorem exists_assemble {size : Nat} (chars : Chars size) (front : List UInt8) (name : Name)
    (back : List UInt8) (fits : front.length + name.bytes.length + back.length < size) :
    ∃ chars', assemble chars front name back = .ok chars' ∧
      front ++ name.bytes ++ back ++ [nul] <+: chars'.bytes := by
  have nothing : [] <+: chars.bytes := List.nil_prefix
  obtain ⟨first, wroteFront, starts⟩ := chars.exists_strcpy nothing front (by simp; omega)
  obtain ⟨second, wroteName, starts'⟩ :=
    Chars.exists_strcpy ((List.prefix_append front [nul]).trans starts) name.bytes (by omega)
  obtain ⟨third, wroteBack, starts''⟩ :=
    Chars.exists_strcpy ((List.prefix_append (front ++ name.bytes) [nul]).trans starts') back
      (by rw [List.length_append]; exact fits)
  refine ⟨third, ?_, starts''⟩
  rw [List.length_append] at wroteBack
  rw [List.length_nil] at wroteFront
  rw [assemble, wroteFront]
  change (first.strcpy front.length name.bytes).bind _ = _
  rw [wroteName]
  exact wroteBack

theorem exists_fdPath (chars : Chars PATH_MAX) (pid : Name) :
    ∃ chars', assemble chars procSlash pid slashFd = .ok chars' ∧
      chars'.string = fdPath pid := by
  have short := pid.fits
  obtain ⟨chars', assembled, starts⟩ := exists_assemble chars procSlash pid slashFd
    (by simp only [procSlash, slashFd, List.length_cons, List.length_nil, PATH_MAX]
        unfold NAME_MAX at short
        omega)
  exact ⟨chars', assembled, Chars.string_eq (nul_not_mem_fdPath pid) starts⟩

theorem exists_statusPath (chars : Chars 270) (pid : Name) :
    ∃ chars', assemble chars procSlash pid slashStatus = .ok chars' ∧
      chars'.string = statusPath pid := by
  have short := pid.fits
  obtain ⟨chars', assembled, starts⟩ := exists_assemble chars procSlash pid slashStatus
    (by simp only [procSlash, slashStatus, List.length_cons, List.length_nil]
        unfold NAME_MAX at short
        omega)
  exact ⟨chars', assembled, Chars.string_eq (nul_not_mem_statusPath pid) starts⟩

theorem exists_linkPath {chars : Chars PATH_MAX} (pid link : Name)
    (starts : fdPath pid <+: chars.bytes) :
    ∃ chars', chars.strcpy (fdPath pid).length link.bytes = .ok chars' ∧
      fdPath pid <+: chars'.bytes ∧ chars'.string = linkPath pid link := by
  have shortPid := pid.fits
  have shortLink := link.fits
  obtain ⟨chars', copied, starts'⟩ := Chars.exists_strcpy starts link.bytes
    (by rw [length_fdPath]
        unfold NAME_MAX at shortPid shortLink
        unfold PATH_MAX
        omega)
  refine ⟨chars', copied, ?_, Chars.string_eq (nul_not_mem_linkPath pid link) starts'⟩
  exact ((List.prefix_append _ _).trans (List.prefix_append _ _)).trans starts'

theorem readlink_some {snapshot : Snapshot} {pathname : List UInt8} {target : Target}
    (read : snapshot.readlink pathname = some target) (chars : Chars PATH_MAX) :
    ∃ copied chars', readlink snapshot pathname chars = .ok (copied, target.bytes.length) ∧
      copied.store target.bytes.length nul = .ok chars' ∧ chars'.string = target.bytes := by
  have fits := target.fits
  have whole : target.bytes.take (PATH_MAX - 1) = target.bytes :=
    List.take_of_length_le (Nat.le_sub_one_of_lt fits)
  obtain ⟨copied, wrote, starts⟩ := chars.exists_write List.nil_prefix target.bytes
    (by simpa using Nat.le_of_lt fits)
  obtain ⟨chars', stored, starts'⟩ := Chars.exists_write starts [nul] fits
  refine ⟨copied, chars', ?_, ?_, Chars.string_eq target.terminated starts'⟩
  · rw [readlink, read]
    dsimp only
    rw [whole]
    exact congrArg (Except.bind · _) wrote
  · rw [Chars.store, if_pos (Int.natCast_nonneg _)]
    exact stored

/-! ### One process -/

/-- What is known of a run that is right exactly in some cases. -/
inductive Outcome (right : Prop) (printed : List (List UInt8)) :
    Except Stop (Buffers × List (List UInt8)) → Prop
  | ok (holds : right) (buffers : Buffers) : Outcome right printed (.ok (buffers, printed))
  | fault (fails : ¬right) (stop : Stop) (crashed : stop ≠ .exit) :
      Outcome right printed (.error stop)

theorem Outcome.congr {right right' : Prop} {printed printed' : List (List UInt8)}
    {run : Except Stop (Buffers × List (List UInt8))} (outcome : Outcome right printed run)
    (same : right ↔ right') (equal : printed = printed') : Outcome right' printed' run := by
  obtain rfl : right = right' := propext same
  exact equal ▸ outcome

/-- The target of a link, where it can be read. -/
def target? (snapshot : Snapshot) (pid link : Name) : Option (List UInt8) :=
  (snapshot.readlink (linkPath pid link)).map Target.bytes

/-- No link in front of the first one to the file has vanished. -/
def Readable (snapshot : Snapshot) (filename : List UInt8) (pid : Name) (links : List Name) :
    Prop :=
  ∀ link ∈ (links.filter Name.isNumber).takeWhile fun link =>
    target? snapshot pid link ≠ some filename, target? snapshot pid link ≠ none

/-- One of the links is to the file. -/
def holdsAmong (snapshot : Snapshot) (filename : List UInt8) (pid : Name) (links : List Name) :
    Bool :=
  (links.filter Name.isNumber).any fun link => target? snapshot pid link = some filename

/-- The calls of `print_name_pid` for a process that has the file open, or has not. -/
def printedFor (snapshot : Snapshot) (pid : Name) (holds : Bool) : List (List UInt8) :=
  if holds && snapshot.fopen (statusPath pid) then [statusPath pid] else []

section Links

variable {snapshot : Snapshot} {filename : List UInt8} {pid : Name}

/-- A link to another file is passed. -/
theorem readable_cons {link : Name} {target : List UInt8} (number : link.isNumber)
    (points : target? snapshot pid link = some target) (differs : target ≠ filename)
    (rest : List Name) :
    Readable snapshot filename pid (link :: rest) ↔ Readable snapshot filename pid rest := by
  have passed : target? snapshot pid link ≠ some filename :=
    points ▸ fun same => differs (Option.some.inj same)
  rw [Readable, Readable, List.filter_cons_of_pos number,
    List.takeWhile_cons, if_pos (decide_eq_true passed), List.forall_mem_cons]
  exact and_iff_right (points ▸ Option.some_ne_none target)

/-- A link that has vanished: its length is -1. -/
theorem readLinks_vanished {link : Name} (number : link.isNumber) {buffers : Buffers}
    (starts : fdPath pid <+: buffers.proc_fd_softlink_name.bytes)
    (vanished : snapshot.readlink (linkPath pid link) = none) (rest : List Name) :
    readLinks snapshot filename pid (fdPath pid).length (link :: rest) buffers =
      .error .outside := by
  obtain ⟨softlink, copied, -, path⟩ := exists_linkPath pid link starts
  rw [readLinks, if_pos number, copied]
  change (readlink snapshot softlink.string _).bind _ = _
  rw [path, readlink, vanished]
  rfl

/-- A link that can be read: the file is found, or the loop goes on. The directory stays in
front of the pathname. -/
theorem readLinks_read {link : Name} (number : link.isNumber) {buffers : Buffers}
    (starts : fdPath pid <+: buffers.proc_fd_softlink_name.bytes) {target : Target}
    (read : snapshot.readlink (linkPath pid link) = some target) (rest : List Name) :
    ∃ buffers' : Buffers, fdPath pid <+: buffers'.proc_fd_softlink_name.bytes ∧
      readLinks snapshot filename pid (fdPath pid).length (link :: rest) buffers =
        if target.bytes = filename then .ok (buffers', printedFor snapshot pid true)
        else readLinks snapshot filename pid (fdPath pid).length rest buffers' := by
  obtain ⟨softlink, copied, starts', path⟩ := exists_linkPath pid link starts
  obtain ⟨array, array', readTo, ended, string⟩ := readlink_some read buffers.softlink_target_name
  rw [readLinks, if_pos number, copied]
  change ∃ buffers' : Buffers, _ ∧ (readlink snapshot softlink.string _).bind _ = _
  rw [path, readTo]
  change ∃ buffers' : Buffers, _ ∧ (array.store target.bytes.length nul).bind _ = _
  rw [ended]
  change ∃ buffers' : Buffers, _ ∧ (if array'.string = filename then _ else _) = _
  rw [string]
  split
  case isTrue found =>
    obtain ⟨file, assembled, status⟩ := exists_statusPath buffers.proc_file_name pid
    refine ⟨⟨file, buffers.proc_fd_name, softlink, array'⟩, starts', ?_⟩
    rw [assembled, printedFor, Bool.true_and, ← status]
    rfl
  case isFalse differs =>
    exact ⟨{ buffers with proc_fd_softlink_name := softlink, softlink_target_name := array' },
      starts', rfl⟩

/-- The induction is on the links. -/
theorem readLinks_outcome (links : List Name) {buffers : Buffers}
    (starts : fdPath pid <+: buffers.proc_fd_softlink_name.bytes) :
    Outcome (Readable snapshot filename pid links)
      (printedFor snapshot pid (holdsAmong snapshot filename pid links))
      (readLinks snapshot filename pid (fdPath pid).length links buffers) := by
  induction links generalizing buffers with
  | nil => exact .ok (fun link member => absurd member List.not_mem_nil) buffers
  | cons link rest inductionHypothesis =>
      by_cases number : link.isNumber
      · cases read : snapshot.readlink (linkPath pid link) with
        | none =>
            have vanished : target? snapshot pid link = none := by
              rw [target?, read, Option.map_none]
            rw [readLinks_vanished number starts read]
            refine .fault (fun readable => readable link ?_ vanished) .outside Stop.noConfusion
            rw [List.filter_cons_of_pos number, List.takeWhile_cons, vanished]
            exact List.mem_cons_self
        | some target =>
            have points : target? snapshot pid link = some target.bytes := by
              rw [target?, read, Option.map_some]
            obtain ⟨buffers', starts', turn⟩ := readLinks_read number starts read rest
            rw [turn]
            split
            case isTrue same =>
              have here : target? snapshot pid link = some filename := same ▸ points
              refine Outcome.congr (.ok trivial _) (iff_of_true trivial ?_) ?_
              · intro other member
                rw [List.filter_cons_of_pos number,
                  List.takeWhile_cons_of_neg (by simpa using here)] at member
                exact absurd member List.not_mem_nil
              · rw [holdsAmong, List.filter_cons_of_pos number, List.any_cons, here,
                  decide_eq_true rfl, Bool.true_or]
            case isFalse differs =>
              refine (inductionHypothesis starts').congr
                (readable_cons number points differs rest).symm ?_
              rw [holdsAmong, holdsAmong, List.filter_cons_of_pos number, List.any_cons, points,
                decide_eq_false fun same => differs (Option.some.inj same), Bool.false_or]
      · rw [readLinks, if_neg number]
        refine (inductionHypothesis starts).congr ?_ ?_
        · rw [Readable, Readable, List.filter_cons_of_neg number]
        · rw [holdsAmong, holdsAmong, List.filter_cons_of_neg number]

/-- The process can be looked at without a fault. -/
def Undisturbed (snapshot : Snapshot) (filename : List UInt8) (pid : Name) : Prop :=
  ∃ links, snapshot.opendir (fdPath pid) = some links ∧ Readable snapshot filename pid links

/-- The process has a link to the file. -/
def holds (snapshot : Snapshot) (filename : List UInt8) (pid : Name) : Bool :=
  (snapshot.opendir (fdPath pid)).any (holdsAmong snapshot filename pid)

variable (snapshot filename)

/-- A process is entered with the pathname of its directory in front of the links. -/
theorem visit_enters {entry : Name} (number : entry.isNumber) (buffers : Buffers) :
    ∃ buffers' : Buffers, fdPath entry <+: buffers'.proc_fd_softlink_name.bytes ∧
      visit snapshot filename entry buffers =
        (snapshot.opendir (fdPath entry)).elim (.error .nullStream) fun links =>
          readLinks snapshot filename entry (fdPath entry).length links buffers' := by
  have short := entry.fits
  have room : ([] : List UInt8).length + (fdPath entry).length < PATH_MAX := by
    rw [length_fdPath, List.length_nil]
    unfold NAME_MAX at short
    unfold PATH_MAX
    omega
  obtain ⟨fd, assembled, path⟩ := exists_fdPath buffers.proc_fd_name entry
  obtain ⟨softlink, copied, starts⟩ := Chars.exists_strcpy List.nil_prefix (fdPath entry) room
  rw [List.length_nil] at copied
  refine ⟨{ buffers with proc_fd_name := fd, proc_fd_softlink_name := softlink },
    (List.prefix_append _ _).trans starts, ?_⟩
  rw [visit, if_pos number, assembled]
  change (buffers.proc_fd_softlink_name.strcpy 0 fd.string).bind _ = _
  rw [path, copied]
  cases opened : snapshot.opendir (fdPath entry) with
  | none => rfl
  | some links => rfl

theorem visit_outcome (entry : Name) (buffers : Buffers) :
    Outcome (entry.isNumber → Undisturbed snapshot filename entry)
      (printedFor snapshot entry (entry.isNumber && holds snapshot filename entry))
      (visit snapshot filename entry buffers) := by
  by_cases number : entry.isNumber
  · obtain ⟨buffers', starts, enters⟩ := visit_enters snapshot filename number buffers
    rw [enters, holds, number, Bool.true_and]
    cases opened : snapshot.opendir (fdPath entry) with
    | none =>
        refine .fault (fun undisturbed => ?_) .nullStream Stop.noConfusion
        obtain ⟨links, found, -⟩ := undisturbed rfl
        rw [opened] at found
        cases found
    | some links =>
        refine (readLinks_outcome links starts).congr ?_ rfl
        constructor
        · exact fun readable _ => ⟨links, opened, readable⟩
        · intro undisturbed
          obtain ⟨found, opened', readable⟩ := undisturbed rfl
          rw [opened] at opened'
          exact Option.some.inj opened' ▸ readable
  · rw [visit, if_neg number, eq_false_of_ne_true number, Bool.false_and]
    exact Outcome.congr (.ok trivial buffers)
      (iff_of_true trivial fun contra => absurd contra Bool.false_ne_true) rfl

/-! ### All processes -/

/-- The processes for which `print_name_pid` is to be called. -/
def holders (snapshot : Snapshot) (filename : List UInt8) (entries : List Name) : List Name :=
  entries.filter fun entry =>
    entry.isNumber && holds snapshot filename entry && snapshot.fopen (statusPath entry)

theorem map_holders_cons (entry : Name) (rest : List Name) :
    (holders snapshot filename (entry :: rest)).map statusPath =
      printedFor snapshot entry (entry.isNumber && holds snapshot filename entry) ++
        (holders snapshot filename rest).map statusPath := by
  rw [holders, List.filter_cons, printedFor]
  split
  · rfl
  · rfl

/-- The induction is on the entries of `/proc`. -/
theorem visitAll_outcome (entries : List Name) (buffers : Buffers) :
    Outcome (∀ entry ∈ entries, entry.isNumber → Undisturbed snapshot filename entry)
      ((holders snapshot filename entries).map statusPath)
      (visitAll snapshot filename entries buffers) := by
  induction entries generalizing buffers with
  | nil => exact .ok (fun entry member => absurd member List.not_mem_nil) buffers
  | cons entry rest inductionHypothesis =>
      have first := visit_outcome snapshot filename entry buffers
      unfold visitAll
      generalize visit snapshot filename entry buffers = run at first
      cases first with
      | fault fails stop crashed =>
          exact .fault (fun all => fails (all entry List.mem_cons_self)) stop crashed
      | ok undisturbed buffers' =>
          have later := inductionHypothesis buffers'
          change Outcome _ _ ((visitAll snapshot filename rest buffers').bind _)
          generalize visitAll snapshot filename rest buffers' = run at later
          cases later with
          | fault fails stop crashed =>
              refine .fault (fun all => fails fun other member => ?_) stop crashed
              exact all other (List.mem_cons_of_mem entry member)
          | ok all buffers'' =>
              refine Outcome.congr (.ok trivial buffers'') (iff_of_true trivial ?_) ?_
              · exact List.forall_mem_cons.mpr ⟨undisturbed, all⟩
              · exact (map_holders_cons snapshot filename entry rest).symm

end Links

/-- What the traversal has to do: if `/proc` opens, it comes to its end and has called
`print_name_pid` once for each process that has the file open and whose status opens. -/
inductive Law (snapshot : Snapshot) (filename : List UInt8) :
    Except Stop (List (List UInt8)) → Prop
  | exit (closed : snapshot.opendir procDirectory = none) : Law snapshot filename (.error .exit)
  | done {entries : List Name} (opened : snapshot.opendir procDirectory = some entries) :
      Law snapshot filename (.ok ((holders snapshot filename entries).map statusPath))

/-- The traversal is right exactly if the `fd` directory of every process opens, and no link in
front of the first one to the file has vanished. -/
theorem traverseProcPid_law_iff (snapshot : Snapshot) (filename : List UInt8)
    (buffers : Buffers) :
    Law snapshot filename (traverseProcPid snapshot filename buffers) ↔
      ∀ entries, snapshot.opendir procDirectory = some entries →
        ∀ entry ∈ entries, entry.isNumber → Undisturbed snapshot filename entry := by
  unfold traverseProcPid
  cases opened : snapshot.opendir procDirectory with
  | none =>
      exact iff_of_true (.exit opened) fun entries found =>
        absurd found.symm (Option.some_ne_none entries)
  | some entries =>
      have outcome := visitAll_outcome snapshot filename entries buffers
      change Law snapshot filename ((visitAll snapshot filename entries buffers).bind _) ↔ _
      generalize visitAll snapshot filename entries buffers = run at outcome
      cases outcome with
      | ok all buffers' =>
          refine iff_of_true (.done opened) fun entries' found => ?_
          exact Option.some.inj found ▸ all
      | fault fails stop crashed =>
          refine iff_of_false (fun law => ?_) fun all => fails (all entries rfl)
          generalize equal : (Except.error stop).bind _ = result at law
          cases law with
          | exit => exact crashed (Except.error.inj equal)
          | done => cases equal

/-! ### A process whose directory does not open -/

/-- The traversal reads a null stream, whatever is behind the process. -/
theorem traverseProcPid_crashes {snapshot : Snapshot} (filename : List UInt8) (entry : Name)
    (rest : List Name) (number : entry.isNumber)
    (opened : snapshot.opendir procDirectory = some (entry :: rest))
    (closed : snapshot.opendir (fdPath entry) = none) (buffers : Buffers) :
    traverseProcPid snapshot filename buffers = .error .nullStream := by
  obtain ⟨_, -, enters⟩ := visit_enters snapshot filename number buffers
  rw [traverseProcPid, opened]
  change ((visit snapshot filename entry buffers).bind _).bind _ = _
  rw [enters, closed]
  rfl

/-- `"1"`. -/
def one : Name := ⟨[49], by decide, by decide⟩

/-- The only process is one of somebody else, whose links are not to be read. -/
def closedProcess : Snapshot where
  opendir pathname := if pathname = procDirectory then some [one] else none
  readlink _ := none
  fopen _ := true

def zeros (size : Nat) : Chars size := ⟨List.replicate size 0, List.length_replicate⟩

theorem traverseProcPid_closedProcess :
    let run := traverseProcPid closedProcess [] ⟨zeros _, zeros _, zeros _, zeros _⟩
    run = .error .nullStream ∧ ¬Law closedProcess [] run := by
  dsimp only
  rw [traverseProcPid_crashes [] one [] (by decide) (by decide) (by decide)]
  refine ⟨rfl, fun law => ?_⟩
  generalize equal : Except.error Stop.nullStream = result at law
  cases law with
  | exit => exact Stop.noConfusion (Except.error.inj equal)
  | done => cases equal

end LinuxProgramming.Processes.SpecialFile
