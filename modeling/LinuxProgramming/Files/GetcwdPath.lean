import LinuxProgramming.Files.Getcwd

/-!
Contract: the string `my_getcwd` builds of the names it has collected.

Owns:
- `absolutePath`, the pathname of a list of components;
- `Builds`, what the string-building loop is for, and the exact condition on the
  components and the size under which it does that.

Does not own: the climb that collects the names.
-/

namespace LinuxProgramming.Files

open LinuxProgramming.Library

/-- Every component behind a slash. -/
def componentText (names : List CString) : CString :=
  names.flatMap fun name => slash :: name

/-- The absolute pathname of a list of components. -/
def absolutePath (names : List CString) : CString :=
  if names = [] then [slash] else componentText names

section Builds

variable {W : Type}

/-- A path is in the buffer with its terminator if it fits there with it, and
otherwise the result is `NULL` with `ERANGE`; nothing is written anywhere else. -/
def Builds (path : CString) (size : Nat) (world : W)
    (outcome : Except Stop (Except Errno (List UInt8) × W)) : Prop :=
  if path.length < size then
    ∃ cwdbuf, outcome = .ok (.ok cwdbuf, world) ∧ path ++ [0] <+: cwdbuf ∧
      cwdbuf.length = size
  else outcome = .ok (.error .erange, world)

/-- What the loop needs of the components from byte `taken` of the path on. A
component must end inside the buffer with its terminator, or so far behind it that
the test finds this out; once the index has left the range of `int`, the path must
be too long, and the size must not exceed an index taken for a `size_t`. -/
def Suits (size total : Nat) : Nat → List CString → Prop
  | _, [] => True
  | taken, name :: rest =>
      let next := taken + (name.length + 1)
      if taken ≤ CInt.INT_MAX then
        size + 2 < next ∨ taken < CInt.INT_MAX ∧ next < size ∧ Suits size total next rest
      else size ≤ total ∧ size + 2 ^ 32 + 2 < 2 ^ 64 + next

variable {size : Nat} {world : W} {cwdbuf : List UInt8} {path name whole : CString}
  {rest : List CString}

theorem not_builds_stopped {reason : Stop} : ¬ Builds path size world (.error reason) := by
  intro builds
  unfold Builds at builds
  split at builds
  · obtain ⟨_, stopped, _⟩ := builds
    cases stopped
  · cases builds

theorem builds_erange_iff :
    Builds path size world (.ok (.error .erange, world)) ↔ size ≤ path.length := by
  rw [Builds]
  split
  · rename_i fits
    refine iff_of_false ?_ (Nat.not_le.mpr fits)
    rintro ⟨_, returned, _⟩
    cases returned
  · rename_i long
    exact iff_of_true rfl (Nat.not_lt.mp long)

theorem builds_ok (held : path ++ [0] <+: cwdbuf) (long : cwdbuf.length = size) :
    Builds path size world (.ok (.ok cwdbuf, world)) := by
  have fits := held.length_le
  rw [List.length_append, List.length_singleton, long] at fits
  rw [Builds, if_pos (Nat.lt_of_succ_le fits)]
  exact ⟨cwdbuf, rfl, held, long⟩

theorem buildPath_refuses {buf_ind : Int}
    (refused : size < CInt.toSize (buf_ind + (name.drop 1).length)) :
    buildPath size (name :: rest) buf_ind cwdbuf world = .ok (.error .erange, world) := by
  rw [buildPath, if_pos refused]
  rfl

/-- No index to write at, or none for the byte behind the slash. -/
theorem buildPath_stops {buf_ind : Int}
    (passes : ¬ size < CInt.toSize (buf_ind + (name.drop 1).length))
    (noIndex : buf_ind < 0 ∨ buf_ind = CInt.INT_MAX) :
    buildPath size (name :: rest) buf_ind cwdbuf world = .error .overflow := by
  rw [buildPath, if_neg passes, if_pos noIndex]
  rfl

variable (world rest) in
/-- A component that the test lets through is written if it ends inside the buffer
with its terminator, and otherwise the run ends with a write behind it. -/
theorem buildPath_writes (held : path <+: cwdbuf) (long : cwdbuf.length = size)
    (inRange : path.length < CInt.INT_MAX)
    (passes : path.length + name.length ≤ size + 1) (notEmpty : name ≠ [])
    (short : name.length ≤ NAME_MAX) :
    (path.length + (name.length + 1) < size →
      ∃ written, path ++ slash :: name ++ [0] <+: written ∧ written.length = size ∧
        buildPath size (name :: rest) path.length cwdbuf world =
          buildPath size rest (CInt.wrap (path.length + (name.length + 1))) written world) ∧
    (size ≤ path.length + (name.length + 1) →
      buildPath size (name :: rest) path.length cwdbuf world = .error .overflow) := by
  have positive := List.length_pos_of_ne_nil notEmpty
  simp only [CInt.INT_MAX] at inRange
  simp only [NAME_MAX] at short
  have tested : ¬ size < CInt.toSize (path.length + ((name.drop 1).length : Int)) := by
    rw [← Int.natCast_add, List.length_drop, CInt.toSize_of_nonneg (by omega)]
    omega
  have indexed : ¬ ((path.length : Int) < 0 ∨ (path.length : Int) = CInt.INT_MAX) := by
    simp only [CInt.INT_MAX]
    omega
  constructor
  · intro inside
    obtain ⟨slashed, copied, heldSlash, slashedLong⟩ :=
      CBuffer.exists_write? held [slash, 0] (by simp only [List.length_cons, List.length_nil]; omega)
    have heldSlash' : path ++ [slash] <+: slashed :=
      (List.prefix_append_right_inj path).mpr ⟨[0], rfl⟩ |>.trans heldSlash
    obtain ⟨written, copied', heldName, writtenLong⟩ :=
      CBuffer.exists_write? heldSlash' (name ++ [0])
        (by simp only [List.length_append, List.length_cons, List.length_nil]; omega)
    refine ⟨written, by simpa using heldName, by omega, ?_⟩
    rw [List.length_append, List.length_singleton] at copied'
    rw [buildPath, if_neg tested, if_neg indexed, Int.toNat_natCast]
    simp only [CBuffer.strcpy?, List.singleton_append, copied, copied']
  · intro outside
    rw [buildPath, if_neg tested, if_neg indexed, Int.toNat_natCast]
    rcases Classical.em (path.length + 2 ≤ cwdbuf.length) with room | full
    · obtain ⟨slashed, copied, _, slashedLong⟩ := CBuffer.exists_write? held [slash, 0] room
      have refused : CBuffer.write? slashed (path.length + 1) (name ++ [0]) = none :=
        if_neg (by simp only [List.length_append, List.length_singleton]; omega)
      simp only [CBuffer.strcpy?, List.singleton_append, copied, refused]
      rfl
    · have refused : CBuffer.write? cwdbuf path.length [slash, 0] = none :=
        if_neg (by simpa using full)
      simp only [CBuffer.strcpy?, List.singleton_append, refused]
      rfl

variable (path) in
/-- A step of the loop. What follows a component that fits is the caller's. -/
theorem buildPath_component (held : path <+: cwdbuf) (long : cwdbuf.length = size)
    (inRange : path.length ≤ CInt.INT_MAX + (NAME_MAX + 1)) (notEmpty : name ≠ [])
    (short : name.length ≤ NAME_MAX) (begins : path ++ slash :: name <+: whole)
    (continues : path.length < CInt.INT_MAX → ∀ written,
      path ++ slash :: name ++ [0] <+: written → written.length = size →
      (Builds whole size world
          (buildPath size rest (CInt.wrap (path.length + (name.length + 1))) written world) ↔
        Suits size whole.length (path.length + (name.length + 1)) rest)) :
    Builds whole size world (buildPath size (name :: rest) (CInt.wrap path.length) cwdbuf world) ↔
      Suits size whole.length path.length (name :: rest) := by
  have positive := List.length_pos_of_ne_nil notEmpty
  have reaches := begins.length_le
  rw [List.length_append, List.length_cons] at reaches
  have limit : CInt.INT_MAX = 2147483647 := rfl
  have longest : NAME_MAX = 255 := rfl
  by_cases kept : (path.length : Int) ≤ CInt.INT_MAX
  · rw [CInt.wrap_of_nonneg (Int.natCast_nonneg _) kept, Suits, if_pos kept]
    by_cases refused : size + 2 < path.length + (name.length + 1)
    · have tested : size < CInt.toSize (path.length + ((name.drop 1).length : Int)) := by
        rw [← Int.natCast_add, List.length_drop, CInt.toSize_of_nonneg (by omega)]
        omega
      rw [buildPath_refuses tested, builds_erange_iff]
      exact iff_of_true (by omega) (.inl refused)
    · rw [or_iff_right refused]
      by_cases last : (path.length : Int) = CInt.INT_MAX
      · have tested : ¬ size < CInt.toSize (path.length + ((name.drop 1).length : Int)) := by
          rw [← Int.natCast_add, List.length_drop, CInt.toSize_of_nonneg (by omega)]
          omega
        rw [buildPath_stops tested (.inr last)]
        exact iff_of_false not_builds_stopped fun suits => by omega
      · have below : (path.length : Int) < CInt.INT_MAX := by omega
        obtain ⟨writes, stops⟩ := buildPath_writes world rest held long below
          (by omega) notEmpty short
        rw [and_iff_right below]
        by_cases inside : path.length + (name.length + 1) < size
        · obtain ⟨written, heldName, writtenLong, next⟩ := writes inside
          rw [next, continues below written heldName writtenLong, and_iff_right inside]
        · rw [stops (by omega)]
          exact iff_of_false not_builds_stopped fun suits => inside suits.1
  · have wrapped : CInt.wrap path.length = path.length - 2 ^ 32 := by
      rw [CInt.wrap, Int.bmod_def]
      omega
    have converted : CInt.toSize (path.length - 2 ^ 32 + ((name.drop 1).length : Int)) =
        2 ^ 64 - 2 ^ 32 + (path.length + (name.length - 1)) := by
      rw [CInt.toSize, List.length_drop]
      omega
    rw [wrapped, Suits, if_neg kept]
    by_cases refused : size < 2 ^ 64 - 2 ^ 32 + (path.length + (name.length - 1))
    · rw [buildPath_refuses (converted ▸ refused), builds_erange_iff, and_iff_left (by omega)]
    · rw [buildPath_stops (converted ▸ refused) (.inl (by omega))]
      exact iff_of_false not_builds_stopped fun suits => by omega

variable (world) in
/-- The components that are left, behind those whose string is in the buffer. The
induction is on the list. -/
theorem buildPath_builds_iff {names : List CString}
    (usable : ∀ name ∈ names, name ≠ [] ∧ name.length ≤ NAME_MAX)
    (held : path ++ [0] <+: cwdbuf) (long : cwdbuf.length = size)
    (inRange : path.length ≤ CInt.INT_MAX + (NAME_MAX + 1)) :
    Builds (path ++ componentText names) size world
        (buildPath size names (CInt.wrap path.length) cwdbuf world) ↔
      Suits size (path ++ componentText names).length path.length names := by
  induction names generalizing path cwdbuf with
  | nil =>
      rw [componentText, List.flatMap_nil, List.append_nil]
      exact iff_of_true (builds_ok held long) trivial
  | cons name rest inductionHypothesis =>
      obtain ⟨⟨notEmpty, short⟩, usable⟩ := List.forall_mem_cons.mp usable
      have regrouped : path ++ componentText (name :: rest) =
          path ++ slash :: name ++ componentText rest := by
        rw [List.append_assoc]
        rfl
      rw [regrouped]
      refine buildPath_component path ((List.prefix_append _ _).trans held) long inRange notEmpty short
        (List.prefix_append _ _) fun below written heldName writtenLong => ?_
      have next := inductionHypothesis usable heldName writtenLong (by
        rw [List.length_append, List.length_cons]
        omega)
      rwa [List.length_append, List.length_cons, Int.natCast_add, Int.natCast_succ] at next

/-- For sizes in the range of `int`: no initial part of the path has as many bytes as
the buffer, or one or two more. -/
theorem suits_iff {names : List CString} {total taken : Nat} (small : size ≤ CInt.INT_MAX)
    (inside : taken < size) :
    Suits size total taken names ↔ ∀ initial, initial <+: names →
      taken + (componentText initial).length < size ∨
        size + 2 < taken + (componentText initial).length := by
  induction names generalizing taken with
  | nil =>
      refine iff_of_true trivial fun initial begins => .inl ?_
      rw [List.prefix_nil.mp begins]
      exact inside
  | cons name rest inductionHypothesis =>
      have split : (∀ initial, initial <+: name :: rest →
            taken + (componentText initial).length < size ∨
              size + 2 < taken + (componentText initial).length) ↔
          ∀ later, later <+: rest →
            taken + (name.length + 1) + (componentText later).length < size ∨
              size + 2 < taken + (name.length + 1) + (componentText later).length := by
        have text (later : List CString) :
            taken + (componentText (name :: later)).length =
              taken + (name.length + 1) + (componentText later).length := by
          simp only [componentText, List.flatMap_cons, List.length_append, List.length_cons]
          omega
        constructor
        · intro every later begins
          rw [← text]
          exact every _ (List.prefix_cons_inj name |>.mpr begins)
        · intro every initial begins
          rcases List.prefix_cons_iff.mp begins with rfl | ⟨later, rfl, later_begins⟩
          · exact .inl inside
          · rw [text]
            exact every later later_begins
      rw [split, Suits, if_pos (by omega)]
      by_cases next : taken + (name.length + 1) < size
      · rw [← inductionHypothesis next, or_iff_right (by omega), and_iff_right (by omega),
          and_iff_right next]
      · by_cases refused : size + 2 < taken + (name.length + 1)
        · exact iff_of_true (.inl refused) fun later _ => .inr (by omega)
        · refine iff_of_false (fun suits => by omega) fun every => ?_
          have whole := every [] List.nil_prefix
          rw [componentText, List.flatMap_nil, List.length_nil] at whole
          omega

end Builds

/-- For every list of components and every size: whatever the caller's buffer holds,
the loop builds exactly this path in it or returns `NULL` with `ERANGE` exactly if
the path does not fit, if and only if there is a component and the components suit
the size. -/
theorem buildPath_correct_iff {W : Type} (world : W) (names : List CString) (size : Nat)
    (usable : ∀ name ∈ names, name ≠ [] ∧ name.length ≤ NAME_MAX) :
    (∀ cwdbuf : List UInt8, cwdbuf.length = size →
      Builds (absolutePath names) size world (buildPath size names 0 cwdbuf world)) ↔
    names ≠ [] ∧ Suits size (absolutePath names).length 0 names := by
  cases names with
  | nil =>
      refine iff_of_false (fun builds => ?_) (fun given => given.1 rfl)
      have unchanged := builds (List.replicate size 0) List.length_replicate
      unfold Builds at unchanged
      split at unchanged
      · obtain ⟨cwdbuf, returned, held, _⟩ := unchanged
        cases returned
        have first := held.subset (List.mem_cons_self (a := slash))
        exact absurd (List.eq_of_mem_replicate first) (by decide)
      · cases unchanged
  | cons name rest =>
      obtain ⟨⟨notEmpty, short⟩, usable⟩ := List.forall_mem_cons.mp usable
      have text : absolutePath (name :: rest) = slash :: name ++ componentText rest := rfl
      rw [and_iff_right (List.cons_ne_nil name rest), text]
      have step (cwdbuf : List UInt8) (long : cwdbuf.length = size) :
          Builds (slash :: name ++ componentText rest) size world
              (buildPath size (name :: rest) (CInt.wrap 0) cwdbuf world) ↔
            Suits size (slash :: name ++ componentText rest).length 0 (name :: rest) :=
        buildPath_component [] List.nil_prefix long (by decide) notEmpty short
          (List.prefix_append _ _) fun _ written heldName writtenLong => by
            have next := buildPath_builds_iff world usable heldName writtenLong (by
              simp only [List.nil_append, List.length_cons]
              have : NAME_MAX = 255 := rfl
              have : CInt.INT_MAX = 2147483647 := rfl
              omega)
            simpa using next
      constructor
      · intro builds
        exact (step (List.replicate size 0) List.length_replicate).mp (builds _ List.length_replicate)
      · intro suits cwdbuf long
        exact (step cwdbuf long).mpr suits

/-- `/a` in a buffer of four bytes. -/
theorem buildPath_correct_four :
    Builds (absolutePath [[97]]) 4 () (buildPath 4 [[97]] 0 [9, 9, 9, 9] ()) := by
  have suits : Suits 4 (absolutePath [[97]]).length 0 [[97]] := by
    rw [suits_iff (by decide) (by decide)]
    intro initial begins
    rcases List.prefix_cons_iff.mp begins with rfl | ⟨later, rfl, nothing⟩
    · exact .inl (by decide)
    · rw [List.prefix_nil.mp nothing]
      exact .inl (by decide)
  exact (buildPath_correct_iff () [[97]] 4 (by decide)).mpr ⟨by decide, suits⟩ _ rfl

/-- `/ab` in a buffer of three bytes: the test compares 1 with 3, and the terminator
is written behind the buffer. -/
theorem buildPath_overflows :
    buildPath 3 [[97, 98]] 0 [9, 9, 9] () = .error .overflow ∧
      ¬ Builds (absolutePath [[97, 98]]) 3 () (buildPath 3 [[97, 98]] 0 [9, 9, 9] ()) := by
  have stopped : buildPath 3 [[97, 98]] 0 [9, 9, 9] () = .error .overflow := rfl
  exact ⟨stopped, stopped ▸ not_builds_stopped⟩

end LinuxProgramming.Files
