import Mathlib.Data.List.Basic

/-!
Contract: `my_getpwnam`, called any number of times in one process.

Owns:
- the position of `getpwent` in the password database, which outlives a call;
- what the calls of a process return, from any position;
- exactly when each of them returns the first entry of its name.

Does not own: an error while the database is read, which is taken for its end, as in the
program.
-/

namespace LinuxProgramming.Processes.Getpwnam

structure Passwd where
  pw_name : List UInt8
  pw_uid : UInt32
deriving DecidableEq, Repr

/-- `getpwent`: the entry at the position. At the end of the database it stays there. -/
def getpwent (database : List Passwd) (position : Nat) : Option Passwd × Nat :=
  match database[position]? with
  | some pwd => (some pwd, position + 1)
  | none => (none, position)

/-- The loop of `my_getpwnam`, for as many turns as it is given. An entry that is returned is
known by its place: two of them may have the same contents. -/
def scan (database : List Passwd) (name : List UInt8) : Nat → Nat → Option Nat × Nat
  | 0, position => (none, position)
  | turns + 1, position =>
      match getpwent database position with
      | (none, position) => (none, position)
      | (some pwd, next) =>
          if pwd.pw_name = name then (some position, next) else scan database name turns next

/-- `my_getpwnam`. No call makes more turns than there are entries, and one for the end. -/
def myGetpwnam (database : List Passwd) (name : List UInt8) (position : Nat) :
    Option Nat × Nat :=
  scan database name (database.length + 1) position

/-- What the calls for these names return, one after the other. -/
def lookups (database : List Passwd) : List (List UInt8) → Nat → List (Option Nat)
  | [], _ => []
  | name :: rest, position =>
      (myGetpwnam database name position).1 ::
        lookups database rest (myGetpwnam database name position).2

/-- The first entry of that name. -/
def first (database : List Passwd) (name : List UInt8) : Option Nat :=
  database.findIdx? fun pwd => pwd.pw_name = name

/-! ### One call -/

/-- There is an entry of that name at the place. -/
def Named (database : List Passwd) (name : List UInt8) (place : Nat) : Prop :=
  (database[place]?).map Passwd.pw_name = some name

theorem Named.lt {database : List Passwd} {name : List UInt8} {place : Nat}
    (named : Named database name place) : place < database.length := by
  obtain ⟨pwd, entry, _⟩ := Option.map_eq_some_iff.mp named
  exact (List.getElem?_eq_some_iff.mp entry).1

/-- How the loop ends: with the first entry of the name from the position on, or at the end
of the database. -/
inductive Ends (database : List Passwd) (name : List UInt8) (position : Nat) :
    Option Nat × Nat → Prop
  | hit (place : Nat) (ahead : position ≤ place) (here : Named database name place)
      (passed : ∀ between, position ≤ between → between < place → ¬Named database name between) :
      Ends database name position (some place, place + 1)
  | miss (last : Nat) (atEnd : database.length ≤ last)
      (passed : ∀ between, position ≤ between → ¬Named database name between) :
      Ends database name position (none, last)

theorem Ends.cons {database : List Passwd} {name : List UInt8} {position : Nat}
    {result : Option Nat × Nat} (other : ¬Named database name position)
    (ends : Ends database name (position + 1) result) : Ends database name position result := by
  have earlier : ∀ between, position ≤ between → Named database name between →
      position + 1 ≤ between := by
    intro between from_ named
    rcases Nat.lt_or_eq_of_le from_ with later | rfl
    · exact later
    · exact absurd named other
  cases ends with
  | hit place ahead here passed =>
      refine .hit place (Nat.le_of_succ_le ahead) here fun between from_ before named => ?_
      exact passed between (earlier between from_ named) before named
  | miss last atEnd passed =>
      refine .miss last atEnd fun between from_ named => ?_
      exact passed between (earlier between from_ named) named

theorem Ends.atEnd {database : List Passwd} (name : List UInt8) {position : Nat}
    (atEnd : database.length ≤ position) : Ends database name position (none, position) := by
  refine .miss position atEnd fun between from_ named => ?_
  exact Nat.not_lt.mpr (Nat.le_trans atEnd from_) named.lt

/-- The induction is on the turns, of which there are enough for the rest of the database. -/
theorem scan_ends (database : List Passwd) (name : List UInt8) {turns position : Nat}
    (enough : database.length < turns + position) :
    Ends database name position (scan database name turns position) := by
  induction turns generalizing position with
  | zero =>
      rw [Nat.zero_add] at enough
      exact .atEnd name (Nat.le_of_lt enough)
  | succ turns inductionHypothesis =>
      rw [scan, getpwent]
      cases entry : database[position]? with
      | none => exact .atEnd name (List.getElem?_eq_none_iff.mp entry)
      | some pwd =>
          dsimp only
          split
          case isTrue same =>
            refine .hit position (Nat.le_refl _) ?_ fun between from_ before => ?_
            · rw [Named, entry, Option.map_some, same]
            · exact absurd from_ (Nat.not_le.mpr before)
          case isFalse differs =>
            refine Ends.cons ?_ (inductionHypothesis (by omega))
            rw [Named, entry, Option.map_some]
            exact fun same => differs (Option.some.inj same)

theorem myGetpwnam_ends (database : List Passwd) (name : List UInt8) (position : Nat) :
    Ends database name position (myGetpwnam database name position) :=
  scan_ends database name (by omega)

/-! ### The first entry -/

theorem first_eq_some {database : List Passwd} {name : List UInt8} {place : Nat}
    (found : first database name = some place) :
    Named database name place ∧ ∀ between < place, ¬Named database name between := by
  rw [first, List.findIdx?_eq_some_iff_getElem] at found
  obtain ⟨inside, here, before⟩ := found
  refine ⟨?_, fun between lower named => before between lower ?_⟩
  · rw [Named, List.getElem?_eq_getElem inside, Option.map_some, of_decide_eq_true here]
  · rw [Named, List.getElem?_eq_getElem (Nat.lt_trans lower inside)] at named
    exact decide_eq_true (Option.some.inj named)

theorem first_ne_none {database : List Passwd} {name : List UInt8} {place : Nat}
    (named : Named database name place) : first database name ≠ none := by
  obtain ⟨pwd, entry, same⟩ := Option.map_eq_some_iff.mp named
  rw [first, Ne, List.findIdx?_eq_none_iff]
  intro absent
  exact of_decide_eq_false (absent pwd (List.mem_of_getElem? entry)) same

/-- The first entry of the name, if there is one, is not behind the position. -/
def Ahead (database : List Passwd) (position : Nat) (name : List UInt8) : Prop :=
  ∀ place, first database name = some place → position ≤ place

/-- A call returns the first entry exactly if the database was not read beyond it. -/
theorem Ends.eq_first_iff {database : List Passwd} {name : List UInt8} {position : Nat}
    {result : Option Nat × Nat} (ends : Ends database name position result) :
    result.1 = first database name ↔ Ahead database position name := by
  cases ends with
  | hit place ahead here passed =>
      constructor
      · intro same other found
        rw [found] at same
        exact Option.some.inj same ▸ ahead
      · intro inFront
        obtain ⟨other, found⟩ := Option.ne_none_iff_exists'.mp (first_ne_none here)
        obtain ⟨named, before⟩ := first_eq_some found
        rw [found]
        rcases Nat.lt_trichotomy other place with lower | same | higher
        · exact absurd named (passed other (inFront other found) lower)
        · exact congrArg some same.symm
        · exact absurd here (before place higher)
  | miss last atEnd passed =>
      constructor
      · intro same other found
        rw [found] at same
        cases same
      · intro inFront
        cases found : first database name with
        | none => rfl
        | some other =>
            exact absurd (first_eq_some found).1 (passed other (inFront other found))

/-- A name that is in the database is looked up behind names that are in front of it there. -/
def Before (database : List Passwd) (name later : List UInt8) : Prop :=
  ∀ place, first database later = some place →
    ∃ before, first database name = some before ∧ before < place

instance (database : List Passwd) (name later : List UInt8) :
    Decidable (Before database name later) :=
  decidable_of_iff
    (((first database later).all fun place =>
      (first database name).any fun before => decide (before < place)) = true) (by
    rw [Before, Option.all_eq_true]
    refine forall_congr' fun place => imp_congr_right fun _ => ?_
    rw [Option.any_eq_true]
    simp only [decide_eq_true_eq])

/-- The position behind a call that returned the first entry of its name. -/
theorem Ends.ahead_iff {database : List Passwd} {name later : List UInt8} {position : Nat}
    {result : Option Nat × Nat} (ends : Ends database name position result)
    (right : result.1 = first database name) :
    Ahead database result.2 later ↔ Before database name later := by
  rw [Before, ← right]
  refine forall_congr' fun place => imp_congr_right fun found => ?_
  cases ends with
  | hit here =>
      constructor
      · exact fun behind => ⟨here, rfl, behind⟩
      · rintro ⟨before, same, lower⟩
        exact Option.some.inj same ▸ lower
  | miss last atEnd =>
      refine iff_of_false ?_ ?_
      · exact fun behind => Nat.not_lt.mpr (Nat.le_trans atEnd behind) (first_eq_some found).1.lt
      · rintro ⟨before, same, _⟩
        cases same

/-! ### Any number of calls -/

theorem Before.ahead {database : List Passwd} {name later : List UInt8} {position : Nat}
    (before : Before database name later) (ahead : Ahead database position name) :
    Ahead database position later := by
  intro place found
  obtain ⟨lower, foundBefore, less⟩ := before place found
  exact Nat.le_of_lt (Nat.lt_of_le_of_lt (ahead lower foundBefore) less)

/-- The induction is on the names. -/
theorem lookups_eq_iff_ahead (database : List Passwd) (names : List (List UInt8))
    (position : Nat) :
    lookups database names position = names.map (first database) ↔
      names.Pairwise (Before database) ∧ ∀ name ∈ names, Ahead database position name := by
  induction names generalizing position with
  | nil => exact iff_of_true rfl ⟨.nil, fun name member => absurd member List.not_mem_nil⟩
  | cons name rest inductionHypothesis =>
      have ends := myGetpwnam_ends database name position
      rw [lookups, List.map_cons, List.cons.injEq, inductionHypothesis, ends.eq_first_iff,
        List.pairwise_cons, List.forall_mem_cons]
      constructor
      · rintro ⟨ahead, ordered, rest_⟩
        have before : ∀ later ∈ rest, Before database name later := fun later member =>
          (ends.ahead_iff (ends.eq_first_iff.mpr ahead)).mp (rest_ later member)
        exact ⟨⟨before, ordered⟩, ahead, fun later member => (before later member).ahead ahead⟩
      · rintro ⟨⟨before, ordered⟩, ahead, -⟩
        refine ⟨ahead, ordered, fun later member => ?_⟩
        exact (ends.ahead_iff (ends.eq_first_iff.mpr ahead)).mpr (before later member)

/-- The calls of a process return the first entries exactly if every name that is in the
database is looked up behind names that are in front of it there. -/
theorem lookups_eq_iff (database : List Passwd) (names : List (List UInt8)) :
    lookups database names 0 = names.map (first database) ↔
      names.Pairwise (Before database) := by
  rw [lookups_eq_iff_ahead]
  exact and_iff_left fun name _ place _ => Nat.zero_le place

/-- The second call for the same name finds nothing. -/
theorem lookups_twice :
    let database : List Passwd := [⟨[114], 0⟩]
    lookups database [[114], [114]] 0 = [some 0, none] ∧
      lookups database [[114], [114]] 0 ≠ [[114], [114]].map (first database) := by
  decide

/-- With the database rewound in front of it, a call returns the first entry. -/
theorem myGetpwnam_rewound (database : List Passwd) (name : List UInt8) :
    (myGetpwnam database name 0).1 = first database name :=
  (myGetpwnam_ends database name 0).eq_first_iff.mpr fun place _ => Nat.zero_le place

end LinuxProgramming.Processes.Getpwnam
