import Mathlib.Data.List.Chain
import LinuxProgramming.Library.CInt
import LinuxProgramming.Library.CString

/-!
Contract: `my_unsetenv`.

Owns:
- the function on the array `environ`, slot by slot;
- the entries it leaves there;
- for which names and environments these are the other variables.

Does not own: `my_setenv` and `putenv`.
-/

namespace LinuxProgramming.Environment

open LinuxProgramming.Library

/-- The bytes of a C string before its terminator. -/
abbrev CString := List UInt8

def equalsSign : UInt8 := 61

/-! ### The function -/

/-- `name_len`, an `int`, as the `size_t` that `strncmp` receives. -/
def nameLen (name : CString) : Nat :=
  (CInt.wrap name.length % 2 ^ 64).toNat

/-- The test of the outer loop. -/
def matchesName (name entry : CString) : Bool :=
  CString.strncmp entry name (nameLen name) = 0

/-- The inner loop: the pointers from `tmp` on move down by one slot. `none` is an
access outside the array. -/
def moveDown (slots : List (Option CString)) (tmp : Nat) : Option (List (Option CString)) :=
  match _ : slots[tmp]? with
  | none => none
  | some none => some slots
  | some (some _) =>
      match slots[tmp + 1]? with
      | none => none
      | some next => moveDown (slots.set tmp next) (tmp + 1)
termination_by slots.length - tmp
decreasing_by
  have := (List.getElem?_eq_some_iff.mp ‹slots[tmp]? = some (some _)›).1
  rw [List.length_set]
  omega

theorem length_moveDown {slots moved : List (Option CString)} {tmp : Nat}
    (ran : moveDown slots tmp = some moved) : moved.length = slots.length := by
  fun_induction moveDown slots tmp with
  | case1 => cases ran
  | case2 =>
      cases ran
      rfl
  | case3 => cases ran
  | case4 slots tmp _ _ _ _ inductionHypothesis =>
      rw [inductionHypothesis ran, List.length_set]

/-- The outer loop, from `ep` on. -/
def scan (name : CString) (slots : List (Option CString)) (ep : Nat) :
    Option (List (Option CString)) :=
  match inside : slots[ep]? with
  | none => none
  | some none => some slots
  | some (some entry) =>
      if matchesName name entry then
        match moves : moveDown slots ep with
        | none => none
        | some moved => scan name moved (ep + 1)
      else scan name slots (ep + 1)
termination_by slots.length - ep
decreasing_by
  · have := (List.getElem?_eq_some_iff.mp inside).1
    rw [length_moveDown moves]
    omega
  · have := (List.getElem?_eq_some_iff.mp inside).1
    omega

/-- `my_unsetenv`: what it returns, and `environ` afterwards. -/
def myUnsetenv (name : CString) (environ : Option (List (Option CString))) :
    Option (Int × Option (List (Option CString))) :=
  match environ with
  | none => some (-1, none)
  | some slots => (scan name slots 0).map fun slots => (0, some slots)

/-- The array of an environment. -/
def array (entries : List CString) : List (Option CString) :=
  entries.map some ++ [none]

/-- The entries of an array, up to its first null pointer. -/
def entriesOf : List (Option CString) → List CString
  | some entry :: rest => entry :: entriesOf rest
  | _ => []

/-! ### What it is for -/

/-- `entry` is a definition of `name`: this is its text before the first `=`. -/
def Defines (name entry : CString) : Prop :=
  entry.takeWhile (· ≠ equalsSign) = name

instance (name entry : CString) : Decidable (Defines name entry) :=
  inferInstanceAs (Decidable (_ = _))

/-- The call returns 0 and leaves the entries that do not define `name`. -/
def Unsets (name : CString) (entries : List CString) : Prop :=
  ∃ slots, myUnsetenv name (some (array entries)) = some (0, some slots) ∧
    entriesOf slots = entries.filter fun entry => ¬ Defines name entry

/-- No definition stands directly behind another one, and the entries that do not stand
behind a definition match `name` only if they define it. -/
def Separated (name : CString) : (behindDefinition : Bool) → List CString → Prop
  | _, [] => True
  | true, entry :: rest => ¬ Defines name entry ∧ Separated name false rest
  | false, entry :: rest =>
      (matchesName name entry ↔ Defines name entry) ∧
        Separated name (Defines name entry) rest

instance decidableSeparated (name : CString) :
    ∀ behindDefinition entries, Decidable (Separated name behindDefinition entries)
  | _, [] => isTrue trivial
  | true, _ :: rest =>
      have := decidableSeparated name false rest
      inferInstanceAs (Decidable (_ ∧ _))
  | false, entry :: rest =>
      have := decidableSeparated name (Defines name entry) rest
      inferInstanceAs (Decidable (_ ∧ _))

/-- For a name whose length is an `int`, the test is for a prefix. -/
theorem matchesName_iff {name : CString} (short : (name.length : Int) ≤ CInt.INT_MAX)
    (entry : CString) : matchesName name entry ↔ name <+: entry := by
  have length : nameLen name = name.length := by
    rw [nameLen, CInt.wrap_of_nonneg (by omega) short]
    simp only [CInt.INT_MAX] at short
    omega
  rw [matchesName, length, decide_eq_true_eq]
  exact CString.strncmp_prefix entry name

/-! ### The loops on the array -/

/-- The slots from `before` on: entries, then null pointers. -/
def slotsOf (entries : List CString) (nulls : Nat) : List (Option CString) :=
  entries.map some ++ List.replicate nulls none

theorem array_eq (entries : List CString) : array entries = slotsOf entries 1 := rfl

theorem slotsOf_cons (entry : CString) (rest : List CString) (nulls : Nat) :
    slotsOf (entry :: rest) nulls = some entry :: slotsOf rest nulls := rfl

theorem slotsOf_nil (nulls : Nat) : slotsOf [] nulls = List.replicate nulls none := rfl

theorem entriesOf_slotsOf (entries : List CString) (nulls : Nat) :
    entriesOf (slotsOf entries (nulls + 1)) = entries := by
  induction entries with
  | nil => rfl
  | cons entry rest inductionHypothesis =>
      rw [slotsOf_cons, entriesOf, inductionHypothesis]

theorem moveDown_null (before rest : List (Option CString)) :
    moveDown (before ++ none :: rest) before.length = some (before ++ none :: rest) := by
  have here : (before ++ none :: rest)[before.length]? = some none := by simp
  unfold moveDown
  split
  · simp_all
  · rfl
  · simp_all

theorem moveDown_entry (before rest : List (Option CString)) (entry : CString)
    (next : Option CString) :
    moveDown (before ++ some entry :: next :: rest) before.length =
      moveDown (before ++ next :: next :: rest) (before.length + 1) := by
  have here : (before ++ some entry :: next :: rest)[before.length]? = some (some entry) := by
    simp
  rw [moveDown]
  split
  · simp_all
  · simp_all
  · simp

/-- The entry at `tmp` goes, those behind it move down, and one more null pointer stands at
the end. -/
theorem moveDown_slotsOf (before : List (Option CString)) (entry : CString)
    (rest : List CString) (nulls : Nat) :
    moveDown (before ++ slotsOf (entry :: rest) (nulls + 1)) before.length =
      some (before ++ slotsOf rest (nulls + 2)) := by
  induction rest generalizing before entry with
  | nil =>
      rw [slotsOf_cons, slotsOf_nil, slotsOf_nil, List.replicate_succ, moveDown_entry]
      have moved := moveDown_null (before ++ [none]) (List.replicate nulls none)
      rw [List.length_append, List.append_assoc] at moved
      exact moved
  | cons next rest inductionHypothesis =>
      rw [slotsOf_cons, slotsOf_cons, moveDown_entry]
      have moved := inductionHypothesis (before ++ [some next]) next
      rw [List.length_append, List.append_assoc, List.append_assoc] at moved
      exact moved

/-- The entries that the scan leaves: behind a removed entry, the next one is skipped. -/
def kept (name : CString) : List CString → List CString
  | [] => []
  | [entry] => if matchesName name entry then [] else [entry]
  | entry :: next :: rest =>
      if matchesName name entry then next :: kept name rest else entry :: kept name (next :: rest)

theorem scan_null (name : CString) (before rest : List (Option CString)) :
    scan name (before ++ none :: rest) before.length = some (before ++ none :: rest) := by
  have here : (before ++ none :: rest)[before.length]? = some none := by simp
  unfold scan
  split
  · simp_all
  · rfl
  · simp_all

theorem scan_other (before rest : List (Option CString)) {name entry : CString}
    (other : ¬ matchesName name entry) :
    scan name (before ++ some entry :: rest) before.length =
      scan name (before ++ some entry :: rest) (before.length + 1) := by
  have here : (before ++ some entry :: rest)[before.length]? = some (some entry) := by simp
  rw [scan]
  split
  · simp_all
  · simp_all
  · simp_all

theorem scan_match (before : List (Option CString)) (rest : List CString) (nulls : Nat)
    {name entry : CString} (isMatch : matchesName name entry) :
    scan name (before ++ slotsOf (entry :: rest) (nulls + 1)) before.length =
      scan name (before ++ slotsOf rest (nulls + 2)) (before.length + 1) := by
  have here : (before ++ slotsOf (entry :: rest) (nulls + 1))[before.length]? =
      some (some entry) := by simp [slotsOf_cons]
  have moved := moveDown_slotsOf before entry rest nulls
  rw [scan]
  split
  · simp_all
  · simp_all
  · split
    · split
      · simp_all
      · simp_all
    · simp_all

theorem scan_slotsOf (name : CString) (before : List (Option CString)) (entries : List CString)
    (nulls : Nat) :
    ∃ nulls', scan name (before ++ slotsOf entries (nulls + 1)) before.length =
      some (before ++ slotsOf (kept name entries) (nulls' + 1)) := by
  fun_induction kept name entries generalizing before nulls with
  | case1 => exact ⟨nulls, scan_null name before _⟩
  | case2 entry isMatch =>
      refine ⟨nulls + 1, ?_⟩
      rw [scan_match before [] nulls isMatch]
      have ended := scan_null name (before ++ [none]) (List.replicate nulls none)
      rw [List.length_append, List.append_assoc] at ended
      exact ended
  | case3 entry other =>
      refine ⟨nulls, ?_⟩
      rw [slotsOf_cons, scan_other before _ other]
      have ended := scan_null name (before ++ [some entry]) (List.replicate nulls none)
      rw [List.length_append, List.append_assoc] at ended
      exact ended
  | case4 entry next rest isMatch inductionHypothesis =>
      rw [scan_match before (next :: rest) nulls isMatch]
      obtain ⟨nulls', ran⟩ := inductionHypothesis (before ++ [some next]) (nulls + 1)
      rw [List.length_append, List.append_assoc, List.append_assoc] at ran
      exact ⟨nulls', ran⟩
  | case5 entry next rest other inductionHypothesis =>
      rw [slotsOf_cons, scan_other before _ other]
      obtain ⟨nulls', ran⟩ := inductionHypothesis (before ++ [some entry]) nulls
      rw [List.length_append, List.append_assoc, List.append_assoc] at ran
      exact ⟨nulls', ran⟩

/-- The call never leaves the array, and leaves the entries of `kept`. -/
theorem myUnsetenv_kept (name : CString) (entries : List CString) :
    ∃ slots, myUnsetenv name (some (array entries)) = some (0, some slots) ∧
      entriesOf slots = kept name entries := by
  obtain ⟨nulls, ran⟩ := scan_slotsOf name [] entries 0
  rw [List.nil_append, List.length_nil, List.nil_append] at ran
  refine ⟨_, ?_, entriesOf_slotsOf _ nulls⟩
  rw [myUnsetenv, array_eq, ran]
  rfl

theorem unsets_iff (name : CString) (entries : List CString) :
    Unsets name entries ↔
      kept name entries = entries.filter fun entry => ¬ Defines name entry := by
  obtain ⟨slots, ran, left⟩ := myUnsetenv_kept name entries
  constructor
  · rintro ⟨slots', ran', left'⟩
    rw [ran] at ran'
    cases ran'
    exact left.symm.trans left'
  · intro same
    exact ⟨slots, ran, left.trans same⟩

/-! ### Which entries the scan leaves -/

theorem kept_sublist (name : CString) (entries : List CString) :
    (kept name entries).Sublist entries := by
  fun_induction kept name entries with
  | case1 => exact .slnil
  | case2 entry _ => exact List.nil_sublist _
  | case3 => exact .refl _
  | case4 entry next rest _ inductionHypothesis =>
      exact (inductionHypothesis.cons_cons next).cons entry
  | case5 entry next rest _ inductionHypothesis => exact inductionHypothesis.cons_cons entry

/-- The scan leaves no entry besides the other variables, if all it leaves are such. -/
theorem kept_ne_cons_filter {name entry : CString} (entries : List CString)
    (other : ¬ Defines name entry) :
    kept name entries ≠ entry :: entries.filter fun entry => ¬ Defines name entry := by
  intro same
  have noDefinition : ∀ left ∈ kept name entries, ¬ Defines name left := by
    rw [same]
    intro left member
    rcases List.mem_cons.mp member with rfl | member
    · exact other
    · simpa using (List.mem_filter.mp member).2
  have unchanged : (kept name entries).filter (fun entry => ¬ Defines name entry) =
      kept name entries :=
    List.filter_eq_self.mpr fun left member => decide_eq_true (noDefinition left member)
  have shorter := ((kept_sublist name entries).filter fun entry => ¬ Defines name entry).length_le
  rw [unchanged, same, List.length_cons] at shorter
  omega

theorem kept_eq_filter_iff (name : CString) (entries : List CString) :
    (kept name entries = entries.filter fun entry => ¬ Defines name entry) ↔
      Separated name false entries := by
  fun_induction kept name entries with
  | case1 => simp [Separated]
  | case2 entry isMatch => by_cases defines : Defines name entry <;> simp [Separated, *]
  | case3 entry other => by_cases defines : Defines name entry <;> simp [Separated, *]
  | case4 entry next rest isMatch inductionHypothesis =>
      unfold Separated
      by_cases defines : Defines name entry
      · -- removed as it should be: what matters is the entry behind it
        rw [List.filter_cons_of_neg (by simpa using defines), decide_eq_true defines, Separated]
        by_cases nextDefines : Defines name next
        · have absent : next ∉ rest.filter fun entry => ¬ Defines name entry := by
            simp [nextDefines]
          rw [List.filter_cons_of_neg (by simpa using nextDefines)]
          constructor
          · intro same
            exact absurd (same ▸ List.mem_cons_self) absent
          · intro separated
            exact absurd nextDefines separated.2.1
        · rw [List.filter_cons_of_pos (by simpa using nextDefines), List.cons_eq_cons]
          simp only [true_and, inductionHypothesis, isMatch, defines, nextDefines,
            not_false_eq_true]
      · -- an entry that only matches: one more than the scan leaves would have to stay
        rw [List.filter_cons_of_pos (by simpa using defines)]
        constructor
        · intro same
          obtain ⟨sameEntry, same⟩ := List.cons_eq_cons.mp same
          rw [List.filter_cons_of_pos (by simpa [sameEntry] using defines)] at same
          exact absurd same (kept_ne_cons_filter rest (sameEntry ▸ defines))
        · intro separated
          exact absurd (separated.1.mp isMatch) defines
  | case5 entry next rest other inductionHypothesis =>
      unfold Separated
      by_cases defines : Defines name entry
      · have absent : entry ∉ (next :: rest).filter fun entry => ¬ Defines name entry := by
          simp [defines]
        rw [List.filter_cons_of_neg (by simpa using defines)]
        constructor
        · intro same
          exact absurd (same ▸ List.mem_cons_self) absent
        · intro separated
          exact absurd (separated.1.mpr defines) other
      · rw [List.filter_cons_of_pos (by simpa using defines), List.cons_eq_cons]
        simp only [true_and, inductionHypothesis, other, defines, decide_false,
          Bool.false_eq_true]

/-! ### The call -/

/-- The call leaves exactly the other variables if and only if the definitions are
separated. -/
theorem myUnsetenv_correct (name : CString) (entries : List CString) :
    Unsets name entries ↔ Separated name false entries :=
  (unsets_iff name entries).trans (kept_eq_filter_iff name entries)

/-- Of two definitions in a row the second one stays, and a variable whose name begins
with the given one is removed. -/
theorem myUnsetenv_fails :
    ¬ Unsets [65] [[65, 61, 49], [65, 61, 50]] ∧ ¬ Unsets [65] [[65, 66, 61, 49]] := by
  rw [unsets_iff, unsets_iff]
  decide

end LinuxProgramming.Environment
