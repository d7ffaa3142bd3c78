import LinuxProgramming.Files.Kernel
import LinuxProgramming.Library.CInt
import LinuxProgramming.Library.PathParts

/-!
Contract: `my_dirname_mt` and `my_basename_mt`.

Owns:
- both functions on the bytes of their argument and a buffer of fixed size;
- where their backward scans end;
- for which strings they return what POSIX asks for.

Does not own: the thread-specific buffers, whose creation is taken to succeed.
-/

namespace LinuxProgramming.Files

open LinuxProgramming.Library

/-- `FILENAME_MAX`, the size of the buffer of `my_basename_mt`. -/
def FILENAME_MAX : Nat := 4096

/-! ### The functions -/

/-- `while (ptr > pathname && *ptr == '/' && *(ptr - 1) == '/') ptr--;`. Here and below,
`none` is an access outside the string or the buffer. -/
def skipSlashes (memory : List UInt8) : Nat → Option Nat
  | 0 => some 0
  | ptr + 1 =>
      match memory[ptr + 1]?, memory[ptr]? with
      | some c, some d => if c = slash ∧ d = slash then skipSlashes memory ptr else some (ptr + 1)
      | _, _ => none

/-- `while (*ptr != '/' && ptr != pathname) ptr--;`. -/
def searchSlash (memory : List UInt8) : Nat → Option Nat
  | 0 => memory[0]?.map fun _ => 0
  | ptr + 1 =>
      match memory[ptr + 1]? with
      | some c => if c ≠ slash then searchSlash memory ptr else some (ptr + 1)
      | none => none

/-- Both scans, from the last byte on: the slash before the last component, or the first
byte. The length is kept in an `int`. -/
def boundary (pathname : CString) : Option Nat :=
  let memory := pathname ++ [0]
  let strlength := CInt.wrap pathname.length
  if strlength < 1 then none
  else
    match skipSlashes memory (strlength - 1).toNat with
    | none => none
    | some ptr =>
        match memory[ptr]? with
        | none => none
        | some c => searchSlash memory (if c = slash ∧ ptr ≠ 0 then ptr - 1 else ptr)

/-- The copying loop of `my_dirname_mt`, at the offset `tmp_ptr` of the string, with the
rest of its memory and what stands in `buf`. -/
def copyDirname (ptr : Nat) : Nat → List UInt8 → CString → Option CString
  | _, [], _ => none
  | tmp_ptr, c :: rest, buf =>
      if c = slash ∧ rest.head? = some slash then copyDirname ptr (tmp_ptr + 1) rest buf
      else if buf.length < PATH_MAX then
        if tmp_ptr = ptr then some buf else copyDirname ptr (tmp_ptr + 1) rest (buf ++ [c])
      else none

/-- `my_dirname_mt`; a `pathname` of `none` is a null pointer. -/
def myDirnameMt : Option CString → Option CString
  | none => some dot
  | some pathname =>
      if pathname.length = 0 then some dot
      else if pathname = [slash] then some [slash]
      else
        match boundary pathname with
        | none => none
        | some ptr =>
            match (pathname ++ [0])[ptr]? with
            | none => none
            | some c =>
                if c ≠ slash then some dot else copyDirname ptr 0 (pathname ++ [0]) []

/-- The copying loop of `my_basename_mt`. -/
def copyBasename : List UInt8 → CString → Option CString
  | [], _ => none
  | c :: rest, buf =>
      if buf.length < FILENAME_MAX then
        if c ≠ slash ∧ c ≠ 0 then copyBasename rest (buf ++ [c]) else some buf
      else none

/-- `my_basename_mt`. -/
def myBasenameMt : Option CString → Option CString
  | none => some dot
  | some pathname =>
      if pathname.length = 0 then some dot
      else if pathname = [slash] then some [slash]
      else
        match boundary pathname with
        | none => none
        | some ptr =>
            let ptr := if ptr ≠ 0 then ptr + 1 else ptr
            copyBasename ((pathname ++ [0]).drop ptr) []

/-! ### The backward scans -/

/-- A string that is not made of slashes, cut before and behind its last component. -/
structure Cut (pathname before part : CString) (slashes : Nat) : Prop where
  joined : pathname = before ++ part ++ List.replicate slashes slash
  some_ : part ≠ []
  free : slash ∉ part
  ends : before = [] ∨ ∃ rest, before = rest ++ [slash]

theorem exists_cut {pathname : CString} (some_ : PathParts.core slash pathname ≠ []) :
    ∃ slashes, Cut pathname (PathParts.before slash pathname) (PathParts.lastPart slash pathname)
      slashes := by
  obtain ⟨slashes, whole⟩ : ∃ count, pathname =
      PathParts.core slash pathname ++ List.replicate count slash :=
    PathParts.eq_core_append pathname
  refine ⟨slashes, ?_, PathParts.lastPart_ne_nil some_,
    PathParts.separator_notMem_lastPart pathname, ?_⟩
  · rw [← PathParts.core_eq_append]
    exact whole
  · by_cases none_ : PathParts.before slash pathname = []
    · exact .inl none_
    · exact .inr (PathParts.before_eq_concat none_)

section Scans

variable {memory : List UInt8} {low high : Nat}

theorem skipSlashes_run (ordered : low ≤ high)
    (slashes : ∀ index, low ≤ index → index ≤ high → memory[index]? = some slash) :
    skipSlashes memory high = skipSlashes memory low := by
  induction high with
  | zero => rw [Nat.le_zero.mp ordered]
  | succ high inductionHypothesis =>
      obtain below | rfl := Nat.le_or_eq_of_le_succ ordered
      · rw [skipSlashes, slashes (high + 1) (by omega) (Nat.le_refl _),
          slashes high below (Nat.le_succ _)]
        exact inductionHypothesis below fun index above inside =>
          slashes index above (Nat.le_succ_of_le inside)
      · rfl

/-- The scan stops at a byte that is not one of two slashes. -/
theorem skipSlashes_stop {c d : UInt8} (here : memory[low + 1]? = some c)
    (previous : memory[low]? = some d) (apart : c ≠ slash ∨ d ≠ slash) :
    skipSlashes memory (low + 1) = some (low + 1) := by
  rw [skipSlashes, here, previous]
  exact if_neg fun both => apart.elim (· both.1) (· both.2)

theorem searchSlash_run (ordered : low ≤ high)
    (others : ∀ index, low < index → index ≤ high → ∃ c, memory[index]? = some c ∧ c ≠ slash) :
    searchSlash memory high = searchSlash memory low := by
  induction high with
  | zero => rw [Nat.le_zero.mp ordered]
  | succ high inductionHypothesis =>
      obtain below | rfl := Nat.le_or_eq_of_le_succ ordered
      · obtain ⟨c, here, other⟩ := others (high + 1) (by omega) (Nat.le_refl _)
        rw [searchSlash, here]
        exact (if_pos other).trans (inductionHypothesis below fun index above inside =>
          others index above (Nat.le_succ_of_le inside))
      · rfl

theorem searchSlash_stop (here : memory[low]? = some slash) :
    searchSlash memory low = some low := by
  cases low with
  | zero => rw [searchSlash, here]; rfl
  | succ low =>
      rw [searchSlash, here]
      exact if_neg fun other => other rfl

end Scans

namespace Cut

variable {pathname before part : CString} {slashes : Nat}

theorem length (cut : Cut pathname before part slashes) :
    pathname.length = before.length + part.length + slashes := by
  rw [cut.joined, List.length_append, List.length_append, List.length_replicate]

/-- The bytes of the last component. -/
theorem getElem?_part (cut : Cut pathname before part slashes) {index : Nat}
    (low : before.length ≤ index) (high : index < before.length + part.length) :
    ∃ c, (pathname ++ [0])[index]? = some c ∧ c ≠ slash := by
  have inPart : index - before.length < part.length := by omega
  refine ⟨part[index - before.length], ?_, fun isSlash =>
    cut.free (isSlash ▸ List.getElem_mem inPart)⟩
  rw [cut.joined, List.append_assoc, List.append_assoc, List.getElem?_append_right low,
    List.getElem?_append_left inPart, List.getElem?_eq_getElem inPart]

/-- The slashes behind it. -/
theorem getElem?_slashes (cut : Cut pathname before part slashes) {index : Nat}
    (low : before.length + part.length ≤ index)
    (high : index < before.length + part.length + slashes) :
    (pathname ++ [0])[index]? = some slash := by
  have behind : (before ++ part).length ≤ index := by
    rw [List.length_append]
    exact low
  rw [cut.joined, List.append_assoc, List.getElem?_append_right behind,
    List.getElem?_append_left (by rw [List.length_append, List.length_replicate]; omega),
    List.getElem?_replicate_of_lt (by rw [List.length_append]; omega)]

/-- The scans end at the slash before the last component, or at the start. -/
theorem boundary (cut : Cut pathname before part slashes)
    (fits : (pathname.length : Int) ≤ CInt.INT_MAX) :
    boundary pathname = some (before.length - 1) := by
  have partSome := List.length_pos_of_ne_nil cut.some_
  have length := cut.length
  have strlength : CInt.wrap pathname.length = pathname.length :=
    CInt.wrap_of_nonneg (Int.natCast_nonneg _) fits
  obtain ⟨last, isLast⟩ : ∃ last, last + 1 = before.length + part.length :=
    ⟨before.length + part.length - 1, by omega⟩
  obtain ⟨c, lastByte, other⟩ : ∃ c, (pathname ++ [0])[last]? = some c ∧ c ≠ slash :=
    cut.getElem?_part (by omega) (by omega)
  -- The two scans: to the last byte of the component, and on to the slash before it.
  have skipped : ∃ ptr d, skipSlashes (pathname ++ [0]) (pathname.length - 1) = some ptr ∧
      (pathname ++ [0])[ptr]? = some d ∧ (if d = slash ∧ ptr ≠ 0 then ptr - 1 else ptr) = last := by
    cases slashes with
    | zero =>
        refine ⟨last, c, ?_, lastByte, if_neg fun both => other both.1⟩
        rw [show pathname.length - 1 = last by omega]
        cases last with
        | zero => rfl
        | succ previous =>
            have inside : previous < (pathname ++ [0]).length := by
              rw [List.length_append]
              omega
            exact skipSlashes_stop lastByte (List.getElem?_eq_getElem inside) (.inl other)
    | succ more =>
        refine ⟨last + 1, slash, ?_, cut.getElem?_slashes (by omega) (by omega),
          if_pos ⟨rfl, Nat.succ_ne_zero _⟩⟩
        have run : skipSlashes (pathname ++ [0]) (pathname.length - 1) =
            skipSlashes (pathname ++ [0]) (last + 1) :=
          skipSlashes_run (by omega) fun index low high =>
            cut.getElem?_slashes (by omega) (by omega)
        rw [run]
        exact skipSlashes_stop (cut.getElem?_slashes (by omega) (by omega)) lastByte (.inr other)
  have searched : searchSlash (pathname ++ [0]) last = some (before.length - 1) := by
    have run : searchSlash (pathname ++ [0]) last =
        searchSlash (pathname ++ [0]) (before.length - 1) :=
      searchSlash_run (by omega) fun index low high => cut.getElem?_part (by omega) (by omega)
    rw [run]
    obtain rfl | ⟨rest, rfl⟩ := cut.ends
    · have inside : 0 < (pathname ++ [0]).length := by
        rw [List.length_append]
        omega
      rw [List.length_nil, searchSlash, List.getElem?_eq_getElem inside]
      rfl
    · refine searchSlash_stop ?_
      rw [cut.joined]
      simp [List.append_assoc]
  obtain ⟨ptr, d, skip, byte, next⟩ := skipped
  have start : (CInt.wrap pathname.length - 1).toNat = pathname.length - 1 := by
    rw [strlength]
    omega
  simp only [Files.boundary, start, skip, byte, next, searched]
  rw [if_neg (by rw [strlength]; omega)]

end Cut

/-- What follows the last component: a slash or the terminator. -/
theorem exists_behind (slashes : Nat) :
    ∃ c rest, List.replicate slashes slash ++ [(0 : UInt8)] = c :: rest ∧ (c = slash ∨ c = 0) := by
  cases slashes with
  | zero => exact ⟨0, [], rfl, .inr rfl⟩
  | succ more => exact ⟨slash, _, rfl, .inl rfl⟩

/-- In a string of slashes both scans end at the start. -/
theorem boundary_slashes {count : Nat} (fits : (count : Int) + 1 ≤ CInt.INT_MAX) :
    boundary (List.replicate (count + 1) slash) = some 0 := by
  have bytes (index : Nat) (inside : index < count + 1) :
      (List.replicate (count + 1) slash ++ [0])[index]? = some slash := by
    rw [List.getElem?_append_left (by rwa [List.length_replicate]),
      List.getElem?_replicate_of_lt inside]
  have strlength : CInt.wrap ((count + 1 : Nat) : Int) = (count + 1 : Nat) :=
    CInt.wrap_of_nonneg (Int.natCast_nonneg _) (by omega)
  have skip : skipSlashes (List.replicate (count + 1) slash ++ [0]) count = some 0 :=
    (skipSlashes_run (Nat.zero_le count) fun index _ high => bytes index (by omega)).trans rfl
  have start : (((count + 1 : Nat) : Int) - 1).toNat = count := by omega
  have first := bytes 0 (Nat.succ_pos count)
  simp only [boundary, List.length_replicate, strlength, start, skip, first]
  rw [if_neg (by omega), if_neg (by simp)]
  exact searchSlash_stop first

/-! ### The copying loops -/

/-- Room for one byte and for what follows it. -/
theorem room_succ {β : Type} (used more limit : Nat) (result : Option β) :
    (if used < limit then if used + 1 + more < limit then result else none else none) =
      if used + (more + 1) < limit then result else none := by
  by_cases fits : used + (more + 1) < limit
  · rw [if_pos fits, if_pos (by omega), if_pos (by omega)]
  · rw [if_neg fits]
    split
    · exact if_neg (by omega)
    · rfl

/-- A component and the byte that ends it are copied if they fit. -/
theorem copyBasename_part {part : CString} (free : slash ∉ part) (noTerminator : (0 : UInt8) ∉ part)
    {c : UInt8} (ends : c = slash ∨ c = 0) (rest : List UInt8) (buf : CString) :
    copyBasename (part ++ c :: rest) buf =
      if buf.length + part.length < FILENAME_MAX then some (buf ++ part) else none := by
  induction part generalizing buf with
  | nil =>
      have stops : ¬ (c ≠ slash ∧ c ≠ 0) := fun both => ends.elim both.1 both.2
      rw [List.nil_append, copyBasename, if_neg stops, List.append_nil]
      rfl
  | cons first part inductionHypothesis =>
      have goesOn : first ≠ slash ∧ first ≠ 0 :=
        ⟨fun same => free (same ▸ List.mem_cons_self),
          fun same => noTerminator (same ▸ List.mem_cons_self)⟩
      rw [List.cons_append, copyBasename, if_pos goesOn,
        inductionHypothesis (fun member => free (List.mem_cons_of_mem _ member))
          (fun member => noTerminator (List.mem_cons_of_mem _ member))]
      simp only [List.length_append, List.length_cons, List.length_nil, List.append_assoc,
        List.singleton_append, Nat.zero_add]
      by_cases fits : buf.length + (part.length + 1) < FILENAME_MAX
      · rw [if_pos (by omega), if_pos (by omega), if_pos fits]
      · rw [if_neg fits]
        split
        · rw [if_neg (by omega)]
        · rfl

/-- What stands before the last slash is copied with its runs of slashes collapsed, and
without the last run. -/
theorem copyDirname_front {front : CString} {ptr tmp_ptr : Nat}
    (distance : tmp_ptr + front.length = ptr)
    {c : UInt8} (other : c ≠ slash) (rest : List UInt8) (buf : CString) :
    copyDirname ptr tmp_ptr (front ++ slash :: c :: rest) buf =
      if buf.length + (PathParts.collapse slash (front ++ [slash])).dropLast.length < PATH_MAX then
        some (buf ++ (PathParts.collapse slash (front ++ [slash])).dropLast)
      else none := by
  induction front generalizing tmp_ptr buf with
  | nil =>
      have alone : ¬ (slash = slash ∧ (c :: rest).head? = some slash) := by simpa using other
      have here : tmp_ptr = ptr := distance
      rw [List.nil_append, copyDirname, if_neg alone, if_pos here]
      simp [PathParts.collapse]
  | cons first front inductionHypothesis =>
      have next : (front ++ slash :: c :: rest).head? = (front ++ [slash]).head? := by
        cases front <;> rfl
      have nonempty : front ++ [slash] ≠ [] := by simp
      have later : tmp_ptr + 1 + front.length = ptr := by
        rw [List.length_cons] at distance
        omega
      rw [List.cons_append, copyDirname, next, inductionHypothesis later]
      by_cases run : first = slash ∧ (front ++ [slash]).head? = some slash
      · rw [if_pos run, List.cons_append, run.1, PathParts.collapse_cons_separator run.2]
      · have notLast : tmp_ptr ≠ ptr := by
          rw [List.length_cons] at distance
          omega
        have some_ : PathParts.collapse slash (front ++ [slash]) ≠ [] :=
          PathParts.collapse_ne_nil nonempty
        rw [if_neg run, if_neg notLast, inductionHypothesis later, List.cons_append,
          PathParts.collapse_cons nonempty run, List.dropLast_cons_of_ne_nil some_]
        simp only [List.length_append, List.length_cons, List.length_nil, List.append_assoc,
          List.singleton_append, Nat.zero_add]
        exact room_succ _ _ _ _

/-- In a string of slashes the loop runs past the end of the string. -/
theorem copyDirname_slashes {count tmp_ptr : Nat} (apart : 0 < tmp_ptr + count) (buf : CString) :
    copyDirname 0 tmp_ptr (List.replicate (count + 1) slash ++ [0]) buf = none := by
  induction count generalizing tmp_ptr with
  | zero =>
      have different : tmp_ptr ≠ 0 := by omega
      have last : ¬ (slash = slash ∧ [(0 : UInt8)].head? = some slash) := by decide
      have terminator : ¬ ((0 : UInt8) = slash ∧ ([] : List UInt8).head? = some slash) := by
        decide
      rw [List.replicate_one, List.singleton_append, copyDirname, if_neg last,
        if_neg different, copyDirname, if_neg terminator, if_neg (Nat.succ_ne_zero _)]
      split
      · split <;> rfl
      · rfl
  | succ count inductionHypothesis =>
      rw [List.replicate_succ, List.cons_append, copyDirname, if_pos ⟨rfl, rfl⟩]
      exact inductionHypothesis (by omega)

/-! ### What the functions return -/

/-- The string has a last component that fits into the buffer, and what stands before it
is not just one slash. -/
structure BasenameServed (pathname : CString) : Prop where
  length : (pathname.length : Int) ≤ CInt.INT_MAX
  notSlashes : PathParts.core slash pathname ≠ []
  notTopmost : PathParts.before slash pathname ≠ [slash]
  fits : (PathParts.lastPart slash pathname).length < FILENAME_MAX

/-- The string has a last component, before which stands nothing or something besides
slashes, and what is returned fits into the buffer. -/
structure DirnameServed (pathname : CString) : Prop where
  length : (pathname.length : Int) ≤ CInt.INT_MAX
  notSlashes : PathParts.core slash pathname ≠ []
  notTopmost : PathParts.before slash pathname = [] ∨ PathParts.directory slash pathname ≠ []
  fits : (PathParts.collapse slash (PathParts.directory slash pathname)).length < PATH_MAX

theorem exists_two_slashes {pathname : CString} (some_ : pathname ≠ [])
    (notRoot : pathname ≠ [slash]) (slashes : PathParts.core slash pathname = []) :
    ∃ count, pathname = List.replicate (count + 1 + 1) slash := by
  have row := PathParts.core_eq_nil.mp slashes
  match isLength : pathname.length with
  | 0 => exact absurd (List.length_eq_zero_iff.mp isLength) some_
  | 1 =>
      rw [isLength] at row
      exact absurd row notRoot
  | count + 2 =>
      rw [isLength] at row
      exact ⟨count, row⟩

/-- A string with a last component is neither empty nor a single slash. -/
theorem not_special_of_part {pathname : CString} (part : PathParts.core slash pathname ≠ []) :
    pathname.length ≠ 0 ∧ pathname ≠ [slash] := by
  constructor
  · intro empty
    exact part (by rw [List.length_eq_zero_iff.mp empty]; rfl)
  · intro root
    exact part (by rw [root]; rfl)

section Results

variable {pathname : CString} (length : (pathname.length : Int) ≤ CInt.INT_MAX)

include length

/-- A string of at least two slashes. -/
theorem myBasenameMt_slashes (some_ : pathname ≠ []) (notRoot : pathname ≠ [slash])
    (slashes : PathParts.core slash pathname = []) : myBasenameMt (some pathname) = some [] := by
  obtain ⟨count, rfl⟩ := exists_two_slashes some_ notRoot slashes
  have fits : ((count + 1 : Nat) : Int) + 1 ≤ CInt.INT_MAX := by simpa using length
  rw [myBasenameMt, if_neg (by simp), if_neg notRoot, boundary_slashes fits]
  rfl

theorem myDirnameMt_slashes (some_ : pathname ≠ []) (notRoot : pathname ≠ [slash])
    (slashes : PathParts.core slash pathname = []) : myDirnameMt (some pathname) = none := by
  obtain ⟨count, rfl⟩ := exists_two_slashes some_ notRoot slashes
  have fits : ((count + 1 : Nat) : Int) + 1 ≤ CInt.INT_MAX := by simpa using length
  have copied : copyDirname 0 0 (List.replicate (count + 1 + 1) slash ++ [0]) [] = none :=
    copyDirname_slashes (by omega) []
  rw [myDirnameMt, if_neg (by simp), if_neg notRoot, boundary_slashes fits]
  exact copied

/-- A string with a last component. -/
theorem myBasenameMt_part (noTerminator : (0 : UInt8) ∉ pathname)
    (part : PathParts.core slash pathname ≠ []) :
    myBasenameMt (some pathname) =
      if PathParts.before slash pathname = [slash] then some []
      else if (PathParts.lastPart slash pathname).length < FILENAME_MAX then
        some (PathParts.lastPart slash pathname)
      else none := by
  obtain ⟨slashes, cut⟩ := exists_cut part
  have bound := cut.boundary length
  have joined := cut.joined
  have free := cut.free
  obtain ⟨notEmpty, notRoot⟩ := not_special_of_part part
  have inside : (0 : UInt8) ∉ PathParts.lastPart slash pathname := by
    intro member
    rw [joined] at noTerminator
    exact noTerminator (List.mem_append_left _ (List.mem_append_right _ member))
  obtain ⟨c, rest, behind, ends⟩ := exists_behind slashes
  -- What the copying loop finds when it starts right at the component.
  have copied : copyBasename (PathParts.lastPart slash pathname ++ c :: rest) [] =
      if (PathParts.lastPart slash pathname).length < FILENAME_MAX then
        some (PathParts.lastPart slash pathname) else none := by
    rw [copyBasename_part free inside ends]
    simp
  have memory : pathname ++ [0] =
      PathParts.before slash pathname ++ (PathParts.lastPart slash pathname ++ c :: rest) := by
    conv_lhs => rw [joined]
    rw [List.append_assoc, List.append_assoc, behind]
  rw [myBasenameMt, if_neg notEmpty, if_neg notRoot, bound, memory]
  obtain top | ⟨front, top⟩ := cut.ends
  · rw [top, if_neg (List.cons_ne_nil _ _).symm, ← copied]
    rfl
  · rw [top]
    cases front with
    | nil => rfl
    | cons first others =>
        have several : first :: others ++ [slash] ≠ [slash] := by simp
        have behindFront : (first :: others ++ [slash]).length - 1 ≠ 0 := by simp
        have start : (first :: others ++ [slash]).length - 1 + 1 =
            (first :: others ++ [slash]).length := by simp
        rw [if_neg several, ← copied]
        simp only [if_pos behindFront, start, List.drop_left]

theorem myDirnameMt_part (part : PathParts.core slash pathname ≠ []) :
    myDirnameMt (some pathname) =
      if PathParts.before slash pathname = [] then some dot
      else if (PathParts.collapse slash (PathParts.directory slash pathname)).length < PATH_MAX
        then some (PathParts.collapse slash (PathParts.directory slash pathname))
      else none := by
  obtain ⟨slashes, cut⟩ := exists_cut part
  have bound := cut.boundary length
  have joined := cut.joined
  have partBytes : ∃ c, (pathname ++ [0])[(PathParts.before slash pathname).length]? = some c ∧
      c ≠ slash := cut.getElem?_part (Nat.le_refl _)
    (Nat.lt_add_of_pos_right (List.length_pos_of_ne_nil cut.some_))
  obtain ⟨notEmpty, notRoot⟩ := not_special_of_part part
  rw [myDirnameMt, if_neg notEmpty, if_neg notRoot, bound]
  obtain top | ⟨front, top⟩ := cut.ends
  · obtain ⟨c, byte, other⟩ := partBytes
    rw [top] at byte ⊢
    simp only [List.length_nil] at byte ⊢
    rw [byte]
    simp only [if_pos other, if_true]
  · obtain ⟨first, others, isPart⟩ := List.exists_cons_of_ne_nil cut.some_
    have apart : first ≠ slash := fun same => cut.free (isPart ▸ same ▸ List.mem_cons_self)
    have memory : pathname ++ [0] =
        front ++ slash :: first :: (others ++ List.replicate slashes slash ++ [0]) := by
      conv_lhs => rw [joined, top, isPart]
      simp [List.append_assoc]
    have start : (front ++ [slash]).length - 1 = front.length := by simp
    have byte : (front ++ slash :: first :: (others ++ List.replicate slashes slash ++
        [0]))[front.length]? = some slash := by simp
    have isDirectory : PathParts.directory slash pathname = PathParts.core slash front := by
      rw [PathParts.directory, top, PathParts.core_concat]
    rw [top, start, memory, if_neg (by simp), isDirectory,
      ← PathParts.dropLast_collapse_concat]
    simp only [byte, ne_eq, not_true_eq_false, if_false]
    rw [copyDirname_front (Nat.zero_add _) apart]
    simp

end Results

/-- Whether `my_basename_mt` finds the component. -/
def BasenameFound (pathname : CString) : Prop :=
  pathname = [] ∨ pathname = [slash] ∨ BasenameServed pathname

/-- Whether `my_dirname_mt` finds the directory. -/
def DirnameFound (pathname : CString) : Prop :=
  pathname = [] ∨ pathname = [slash] ∨ DirnameServed pathname

theorem myBasenameMt_iff {pathname : CString} (noTerminator : (0 : UInt8) ∉ pathname)
    (length : (pathname.length : Int) ≤ CInt.INT_MAX) :
    myBasenameMt (some pathname) = some (PathParts.basename slash dot pathname) ↔
      BasenameFound pathname := by
  by_cases empty : pathname = []
  · subst empty
    exact iff_of_true rfl (.inl rfl)
  by_cases root : pathname = [slash]
  · subst root
    exact iff_of_true rfl (.inr (.inl rfl))
  rw [BasenameFound, or_iff_right empty, or_iff_right root, PathParts.basename, if_neg empty]
  by_cases slashes : PathParts.core slash pathname = []
  · rw [myBasenameMt_slashes length empty root slashes, if_pos slashes]
    exact iff_of_false (by simp) fun served => served.notSlashes slashes
  · have part := PathParts.lastPart_ne_nil slashes
    rw [myBasenameMt_part length noTerminator slashes, if_neg slashes]
    constructor
    · intro returned
      by_cases top : PathParts.before slash pathname = [slash]
      · rw [if_pos top, Option.some.injEq] at returned
        exact absurd returned.symm part
      · rw [if_neg top, Option.ite_none_right_eq_some] at returned
        exact ⟨length, slashes, top, returned.1⟩
    · intro served
      rw [if_neg served.notTopmost, if_pos served.fits]

theorem myDirnameMt_iff {pathname : CString}
    (length : (pathname.length : Int) ≤ CInt.INT_MAX) :
    myDirnameMt (some pathname) = some (PathParts.dirname slash dot pathname) ↔
      DirnameFound pathname := by
  by_cases empty : pathname = []
  · subst empty
    exact iff_of_true rfl (.inl rfl)
  by_cases root : pathname = [slash]
  · subst root
    exact iff_of_true rfl (.inr (.inl rfl))
  rw [DirnameFound, or_iff_right empty, or_iff_right root, PathParts.dirname, if_neg empty]
  by_cases slashes : PathParts.core slash pathname = []
  · rw [myDirnameMt_slashes length empty root slashes]
    exact iff_of_false nofun fun served => served.notSlashes slashes
  rw [myDirnameMt_part length slashes, if_neg slashes]
  by_cases none_ : PathParts.before slash pathname = []
  · rw [if_pos none_, if_pos none_]
    refine iff_of_true rfl ⟨length, slashes, .inl none_, ?_⟩
    rw [PathParts.directory, none_]
    decide
  rw [if_neg none_, if_neg none_]
  constructor
  · intro returned
    rw [Option.ite_none_right_eq_some, Option.some.injEq] at returned
    obtain ⟨fits, same⟩ := returned
    refine ⟨length, slashes, .inr fun top => ?_, fits⟩
    rw [if_pos top, top] at same
    cases same
  · intro served
    rw [if_neg (served.notTopmost.resolve_left none_), if_pos served.fits]

/-- `my_basename_mt` returns the POSIX basename if, and for strings whose length is an
`int` only if, the string is empty or a slash, or it has a last component that fits into
the buffer and before which does not stand just one slash. -/
theorem myBasenameMt_correct (pathname : CString) (noTerminator : (0 : UInt8) ∉ pathname) :
    (BasenameFound pathname →
      myBasenameMt (some pathname) = some (PathParts.basename slash dot pathname)) ∧
    ((pathname.length : Int) ≤ CInt.INT_MAX →
      myBasenameMt (some pathname) = some (PathParts.basename slash dot pathname) →
      BasenameFound pathname) := by
  refine ⟨fun found => ?_, fun length => (myBasenameMt_iff noTerminator length).mp⟩
  have length : (pathname.length : Int) ≤ CInt.INT_MAX := by
    obtain rfl | rfl | served := found
    · decide
    · decide
    · exact served.length
  exact (myBasenameMt_iff noTerminator length).mpr found

/-- The string `"a//bc/"`. -/
theorem myBasenameMt_correct_nested :
    myBasenameMt (some [97, 47, 47, 98, 99, 47]) = some [98, 99] :=
  (myBasenameMt_correct [97, 47, 47, 98, 99, 47] (by decide)).1
    (.inr (.inr ⟨by decide, by decide, by decide, by decide⟩))

/-- The basename of `"/a"` comes out empty. -/
theorem myBasenameMt_loses_component :
    myBasenameMt (some [47, 97]) = some [] ∧ PathParts.basename slash dot [47, 97] = [97] := by
  decide

/-- `my_dirname_mt` returns the POSIX dirname if, and for strings whose length is an
`int` only if, the string is empty or a slash, or it has a last component, before which
stands nothing or something besides slashes, and the result fits into the buffer. -/
theorem myDirnameMt_correct (pathname : CString) :
    (DirnameFound pathname →
      myDirnameMt (some pathname) = some (PathParts.dirname slash dot pathname)) ∧
    ((pathname.length : Int) ≤ CInt.INT_MAX →
      myDirnameMt (some pathname) = some (PathParts.dirname slash dot pathname) →
      DirnameFound pathname) := by
  refine ⟨fun found => ?_, fun length => (myDirnameMt_iff length).mp⟩
  have length : (pathname.length : Int) ≤ CInt.INT_MAX := by
    obtain rfl | rfl | served := found
    · decide
    · decide
    · exact served.length
  exact (myDirnameMt_iff length).mpr found

/-- The string `"/a//bc/"`. -/
theorem myDirnameMt_correct_nested :
    myDirnameMt (some [47, 97, 47, 47, 98, 99, 47]) = some [47, 97] :=
  (myDirnameMt_correct [47, 97, 47, 47, 98, 99, 47]).1
    (.inr (.inr ⟨by decide, by decide, by decide, by decide⟩))

/-- The dirname of `"/a"` comes out empty, and `"//"` is read past its end. -/
theorem myDirnameMt_loses_root :
    myDirnameMt (some [47, 97]) = some [] ∧ PathParts.dirname slash dot [47, 97] = [47] ∧
      myDirnameMt (some [47, 47]) = none ∧ PathParts.dirname slash dot [47, 47] = [47] := by
  decide

/-! ### Within the string and the buffer -/

theorem length_directory_le (pathname : CString) :
    (PathParts.directory slash pathname).length ≤ pathname.length := by
  rw [PathParts.directory, PathParts.core, PathParts.before, PathParts.core]
  exact ((List.rdropWhile_prefix _ _).length_le.trans
    (List.rdropWhile_prefix _ _).length_le).trans (List.rdropWhile_prefix _ _).length_le

/-- For strings that fit into the buffer, `my_dirname_mt` stays within the string and the
buffer exactly if the string is not a row of two or more slashes. -/
theorem myDirnameMt_inside_iff (pathname : CString) (short : pathname.length < PATH_MAX) :
    (myDirnameMt (some pathname)).isSome ↔
      ¬ (2 ≤ pathname.length ∧ ∀ c ∈ pathname, c = slash) := by
  have length : (pathname.length : Int) ≤ CInt.INT_MAX := by
    rw [PATH_MAX] at short
    rw [CInt.INT_MAX]
    omega
  by_cases empty : pathname = []
  · subst empty
    exact iff_of_true rfl fun row => absurd row.1 (by decide)
  by_cases root : pathname = [slash]
  · subst root
    exact iff_of_true rfl fun row => absurd row.1 (by decide)
  by_cases slashes : PathParts.core slash pathname = []
  · obtain ⟨count, row⟩ := exists_two_slashes empty root slashes
    rw [myDirnameMt_slashes length empty root slashes]
    refine iff_of_false (by simp) (not_not_intro ⟨?_, ?_⟩)
    · rw [row, List.length_replicate]
      omega
    · intro c member
      rw [row] at member
      exact List.eq_of_mem_replicate member
  · have notRow : ¬ ∀ c ∈ pathname, c = slash := fun all =>
      slashes (PathParts.core_eq_nil.mpr (List.eq_replicate_of_mem all))
    have fits : (PathParts.collapse slash (PathParts.directory slash pathname)).length <
        PATH_MAX :=
      Nat.lt_of_le_of_lt ((PathParts.length_collapse_le _).trans (length_directory_le pathname))
        short
    refine iff_of_true ?_ fun row => notRow row.2
    rw [myDirnameMt_part length slashes, if_pos fits]
    split <;> rfl

/-- The string `"a//"`. -/
theorem myDirnameMt_inside_trailing :
    (myDirnameMt (some [97, 47, 47])).isSome ↔
      ¬ (2 ≤ [97, 47, 47].length ∧ ∀ c ∈ [97, 47, 47], c = slash) :=
  myDirnameMt_inside_iff [97, 47, 47] (by decide)

/-- Two slashes, behind which the copying loop goes on. -/
theorem myDirnameMt_leaves_slashes :
    [slash, slash].length < PATH_MAX ∧ myDirnameMt (some [slash, slash]) = none := by
  decide

end LinuxProgramming.Files
