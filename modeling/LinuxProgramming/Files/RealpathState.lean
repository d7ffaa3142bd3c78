import Mathlib.Data.Nat.Init
import LinuxProgramming.Files.Realpath

/-!
Contract: the buffer and the cursor of `my_realpath`.

Owns:
- `pathText`, the text the loop builds for a position;
- `Standing`, the state of the buffer between two components, and `Ready`, the
  states from which the next component is taken rightly;
- what `get_part_path`, a write, a push and the scan of `..` do to them;
- a turn of the loop, for each way in which an iteration ends.

Does not own: any file system.
-/

namespace LinuxProgramming.Files

open LinuxProgramming.Library

/-! ### `get_part_path` -/

namespace PartPath

/-- `*ppnn_end` is the last node. -/
def Ended (list : PartPath) : Prop :=
  list.ppnn_end = if list.nodes = [] then none else some (list.nodes.length - 1)

theorem Ended.linkAfter_eq {list : PartPath} (ended : list.Ended) (next : List CString) :
    list.linkAfter next = list.nodes ++ next := by
  rw [linkAfter, ended]
  cases list.nodes with
  | nil => rfl
  | cons first others =>
      rw [if_neg (List.cons_ne_nil _ _)]
      simp

theorem Ended.link_nodes {list : PartPath} (ended : list.Ended) (name : CString) :
    (list.link name).nodes = list.nodes ++ [name] := ended.linkAfter_eq [name]

theorem link_ended (list : PartPath) (name : CString) : (list.link name).Ended := by
  have notEmpty : (list.link name).nodes ≠ [] := by
    show list.linkAfter [name] ≠ []
    rw [linkAfter]
    split <;> simp
  rw [Ended, if_neg notEmpty]
  rfl

end PartPath

theorem partPathFrom_eq {symbols name : CString} {list : PartPath}
    (fit : ∀ piece ∈ Pathname.piecesFrom slash name symbols, piece.length ≤ NAME_MAX)
    (ended : list.Ended) :
    ∃ list', partPathFrom symbols name list = some list' ∧
      list'.nodes = list.nodes ++ Pathname.piecesFrom slash name symbols ∧ list'.Ended := by
  induction symbols generalizing name list with
  | nil =>
      rw [Pathname.piecesFrom, Pathname.flush] at fit ⊢
      rw [partPathFrom]
      by_cases empty : name = []
      · rw [if_pos empty, if_pos empty, List.append_nil]
        exact ⟨list, rfl, rfl, ended⟩
      · rw [if_neg empty] at fit ⊢
        have fits := fit name (List.mem_singleton_self _)
        rw [if_neg empty, if_neg (Nat.not_lt.mpr fits)]
        exact ⟨_, rfl, ended.link_nodes name, list.link_ended name⟩
  | cons symbol rest inductionHypothesis =>
      rw [partPathFrom]
      rw [Pathname.piecesFrom] at fit ⊢
      by_cases isSlash : symbol = slash
      · rw [if_pos isSlash, Pathname.flush] at fit ⊢
        rw [if_pos isSlash]
        by_cases empty : name = []
        · rw [if_pos empty] at fit ⊢
          rw [if_pos empty]
          exact inductionHypothesis fit ended
        · rw [if_neg empty] at fit ⊢
          have fits := fit name List.mem_cons_self
          rw [if_neg empty, if_neg (Nat.not_lt.mpr fits)]
          obtain ⟨list', parsed, nodes, ended'⟩ := inductionHypothesis
            (fun piece member => fit piece (List.mem_cons_of_mem _ member)) (list.link_ended name)
          refine ⟨list', parsed, ?_, ended'⟩
          rw [nodes, ended.link_nodes, List.append_assoc]
      · rw [if_neg isSlash] at fit ⊢
        rw [if_neg isSlash]
        obtain ⟨piece, member, longer⟩ :=
          Pathname.exists_piece_of_current slash rest (List.concat_ne_nil symbol name)
        have fits : ¬ NAME_MAX < name.length := by
          have whole := fit piece (by simpa using member)
          simp only [List.length_append, List.length_singleton] at longer
          omega
        rw [if_neg fits]
        exact inductionHypothesis fit ended

/-- The list holds the pieces of the pathname, and its end is the last of them. -/
theorem getPartPath_eq {pathname : CString}
    (fit : ∀ piece ∈ Pathname.pieces slash pathname, piece.length ≤ NAME_MAX) :
    ∃ list, getPartPath (some pathname) = some list ∧
      list.nodes = Pathname.pieces slash pathname ∧ list.Ended :=
  partPathFrom_eq fit rfl

/-- The converse: no other pathname has its components in a list. -/
theorem partPathFrom_fits {symbols name : CString} {list list' : PartPath}
    (parsed : partPathFrom symbols name list = some list') :
    ∀ piece ∈ Pathname.piecesFrom slash name symbols, piece.length ≤ NAME_MAX := by
  induction symbols generalizing name list with
  | nil =>
      rw [partPathFrom] at parsed
      intro piece member
      obtain ⟨rfl, notEmpty⟩ := Pathname.mem_flush member
      rw [if_neg notEmpty] at parsed
      split at parsed
      · cases parsed
      case isFalse fits => exact Nat.not_lt.mp fits
  | cons symbol rest inductionHypothesis =>
      rw [partPathFrom] at parsed
      rw [Pathname.piecesFrom]
      by_cases isSlash : symbol = slash
      · rw [if_pos isSlash] at parsed ⊢
        by_cases empty : name = []
        · rw [if_pos empty] at parsed
          rw [Pathname.flush, if_pos empty]
          exact inductionHypothesis parsed
        · rw [if_neg empty] at parsed
          split at parsed
          · cases parsed
          case isFalse fits =>
            intro piece member
            rcases List.mem_append.mp member with here | later
            · exact (Pathname.mem_flush here).1 ▸ Nat.not_lt.mp fits
            · exact inductionHypothesis parsed piece later
      · rw [if_neg isSlash] at parsed ⊢
        split at parsed
        · cases parsed
        · exact inductionHypothesis parsed

/-- Every list of components ends with its last node. -/
theorem getPartPath_ended {pathname : CString} {list : PartPath}
    (parsed : getPartPath (some pathname) = some list) :
    list.nodes = Pathname.pieces slash pathname ∧ list.Ended := by
  obtain ⟨list', parsed', nodes, ended⟩ := getPartPath_eq (partPathFrom_fits parsed)
  rw [parsed] at parsed'
  cases parsed'
  exact ⟨nodes, ended⟩

/-! ### Writes -/

theorem put_bind {W α : Type} {buffer buffer' : List UInt8} {index : Nat} {symbols : List UInt8}
    (isWritten : CBuffer.write? buffer index symbols = some buffer')
    (next : List UInt8 → Prog W α) (world : W) :
    (put buffer index symbols >>= next) world = next buffer' world := by
  apply bind_ok
  rw [put, isWritten]
  rfl

theorem put_bind_overflow {W α : Type} {buffer : List UInt8} {index : Nat} {symbols : List UInt8}
    (refused : CBuffer.write? buffer index symbols = none) (next : List UInt8 → Prog W α)
    (world : W) : (put buffer index symbols >>= next) world = .error .overflow := by
  apply bind_error
  rw [put, refused]
  rfl

/-! ### Turns of the loop -/

section Turns

variable {W S : Type} {kernel : Kernel W S} {world world' : W} {buffer : List UInt8} {lrp_p : Nat}
  {name : CString} {rest : List CString}

theorem resolveComponents_nil (kernel : Kernel W S) (fuel : Nat) (buffer : List UInt8)
    (lrp_p : Nat) : resolveComponents kernel fuel ⟨buffer, lrp_p, []⟩ = pure (.ok buffer) := by
  cases fuel <;> rfl

theorem resolveComponents_next {state : Resolving}
    (ran : resolveComponent kernel buffer lrp_p name rest world = .ok (.next state, world'))
    (fuel : Nat) :
    resolveComponents kernel (fuel + 1) ⟨buffer, lrp_p, name :: rest⟩ world =
      resolveComponents kernel fuel state world' := by
  rw [resolveComponents, bind_ok ran]

theorem resolveComponents_failed {errno : Option Errno}
    (failed : resolveComponent kernel buffer lrp_p name rest world = .ok (.failed errno, world'))
    (fuel : Nat) :
    resolveComponents kernel (fuel + 1) ⟨buffer, lrp_p, name :: rest⟩ world =
      .ok (.error errno, world') := by
  rw [resolveComponents, bind_ok failed]
  rfl

theorem resolveComponents_stopped {reason : Stop}
    (stopped : resolveComponent kernel buffer lrp_p name rest world = .error reason)
    (fuel : Nat) :
    resolveComponents kernel (fuel + 1) ⟨buffer, lrp_p, name :: rest⟩ world = .error reason := by
  rw [resolveComponents, bind_error stopped]

end Turns

/-! ### The text of a position -/

/-- The names of a position, each behind a slash. `lead` is empty, or one slash more:
the text behind which the names have been put. -/
def pathText (lead : CString) (position : Position CString) : CString :=
  lead ++ position.reverse.flatMap fun name => slash :: name

/-- What may stand before the names. -/
def IsLead (lead : CString) : Prop := lead = [] ∨ lead = [slash]

@[simp] theorem pathText_nil (lead : CString) : pathText lead [] = lead := List.append_nil lead

theorem pathText_cons (lead : CString) (name : CString) (parent : Position CString) :
    pathText lead (name :: parent) = pathText lead parent ++ slash :: name := by
  simp [pathText]

theorem pathText_ne_nil {lead : CString} {position : Position CString} (below : position ≠ []) :
    pathText lead position ≠ [] := by
  cases position with
  | nil => exact absurd rfl below
  | cons name parent => simp [pathText_cons]

theorem head_pathText {lead : CString} (isLead : IsLead lead) (position : Position CString)
    (notEmpty : pathText lead position ≠ []) : (pathText lead position).head? = some slash := by
  induction position with
  | nil =>
      rcases isLead with rfl | rfl
      · exact absurd rfl notEmpty
      · rfl
  | cons name parent inductionHypothesis =>
      rw [pathText_cons]
      by_cases empty : pathText lead parent = []
      · rw [empty]
        rfl
      · rw [List.head?_append, inductionHypothesis empty]
        rfl

/-- The pieces of the text are the names. -/
theorem pieces_pathText {lead : CString} (isLead : IsLead lead) {position : Position CString}
    (plain : ∀ name ∈ position, name ≠ [] ∧ slash ∉ name) :
    Pathname.pieces slash (pathText lead position) = position.reverse := by
  induction position with
  | nil => rcases isLead with rfl | rfl <;> rfl
  | cons name parent inductionHypothesis =>
      obtain ⟨notEmpty, noSlash⟩ := plain name List.mem_cons_self
      rw [pathText_cons, Pathname.pieces_append_separator, List.reverse_cons,
        inductionHypothesis fun other member => plain other (List.mem_cons_of_mem _ member),
        Pathname.pieces_of_notMem slash noSlash notEmpty]

theorem canonical_eq (position : Position CString) :
    canonical position = pathText (if position = [] then [slash] else []) position := by
  rw [canonical]
  split
  case isTrue empty => rw [empty, pathText_nil]
  case isFalse => rfl

theorem pathText_noTerminator {lead : CString} (isLead : IsLead lead)
    {position : Position CString} (plain : ∀ name ∈ position, (0 : UInt8) ∉ name) :
    (0 : UInt8) ∉ pathText lead position := by
  induction position with
  | nil => rcases isLead with rfl | rfl <;> decide
  | cons name parent inductionHypothesis =>
      rw [pathText_cons, List.mem_append, List.mem_cons, not_or, not_or]
      exact ⟨inductionHypothesis fun other member => plain other (List.mem_cons_of_mem _ member),
        by decide, plain name List.mem_cons_self⟩

/-! ### The scan of `..` -/

section Scan

variable {buffer : List UInt8} {from_ found : Nat}

theorem scanSlash_le (buffer : List UInt8) (from_ : Nat) : scanSlash buffer from_ ≤ from_ := by
  induction from_ using scanSlash.induct buffer with
  | case1 => exact Nat.le_refl _
  | case2 => exact Nat.le_refl _
  | case3 from_ isSlash => rw [scanSlash, if_pos isSlash]
  | case4 from_ other inductionHypothesis =>
      rw [scanSlash, if_neg other]
      exact Nat.le_succ_of_le inductionHypothesis

theorem scanSlash_eq_one (atLeast : 1 ≤ from_)
    (none_ : ∀ index, 1 < index → index ≤ from_ → buffer[index]? ≠ some slash) :
    scanSlash buffer from_ = 1 := by
  induction from_, atLeast using Nat.le_induction with
  | base => rfl
  | succ last atLeast inductionHypothesis =>
      obtain ⟨before, rfl⟩ := Nat.exists_eq_add_of_le' atLeast
      rw [scanSlash, if_neg (none_ _ (by omega) (Nat.le_refl _))]
      exact inductionHypothesis fun index above below => none_ index above (by omega)

theorem scanSlash_eq (below : 2 ≤ found) (isSlash : buffer[found]? = some slash)
    (reaches : found ≤ from_)
    (last : ∀ index, found < index → index ≤ from_ → buffer[index]? ≠ some slash) :
    scanSlash buffer from_ = found := by
  induction from_, reaches using Nat.le_induction with
  | base =>
      obtain ⟨before, rfl⟩ := Nat.exists_eq_add_of_le' below
      rw [scanSlash, if_pos isSlash]
  | succ index reaches inductionHypothesis =>
      obtain ⟨before, rfl⟩ := Nat.exists_eq_add_of_le' (Nat.le_trans below reaches)
      rw [scanSlash, if_neg (last _ (by omega) (Nat.le_refl _))]
      exact inductionHypothesis fun other above below => last other above (by omega)

end Scan

/-! ### States -/

/-- Between two components: the buffer holds the text of a position, and the cursor
stands behind the text. At first the text is empty, and the buffer holds a slash. -/
structure Standing (buffer : List UInt8) (lrp_p : Nat) (lead : CString)
    (position : Position CString) : Prop where
  size : buffer.length = PATH_MAX
  isLead : IsLead lead
  cursor : lrp_p = (pathText lead position).length
  starts : (if pathText lead position = [] then [slash] else pathText lead position) ++ [0] <+:
    buffer

/-- The next component that is not `.`. -/
def nextComponent (pending : List CString) : Option CString :=
  pending.find? fun name => name ≠ dot

/-- A state from which the next component is taken rightly, although after a link
the text may be empty or cut short. -/
inductive Ready (buffer : List UInt8) (lrp_p : Nat) :
    CString → Position CString → List CString → Prop where
  | standing {lead position pending} : Standing buffer lrp_p lead position →
      Ready buffer lrp_p lead position pending
  /-- The buffer holds the empty string, and a name comes next. -/
  | blank {pending name} : buffer.length = PATH_MAX → [0] <+: buffer → lrp_p = 0 →
      nextComponent pending = some name → name ≠ dotDot → Ready buffer lrp_p [] [] pending
  /-- The text is cut inside its last name (or behind it), and `..` comes next. -/
  | cut {lead last parent pending} : buffer.length = PATH_MAX → IsLead lead → 1 ≤ lrp_p →
      lrp_p ≤ (pathText lead (last :: parent)).length →
      (pathText lead (last :: parent)).take lrp_p ++ [0] <+: buffer →
      ((pathText lead parent).length < lrp_p ∨ parent = []) → slash ∉ last →
      nextComponent pending = some dotDot → Ready buffer lrp_p lead (last :: parent) pending
  /-- Nothing is left, and the last name was that of a file. -/
  | atFile {lead name parent} : buffer.length = PATH_MAX → IsLead lead → lrp_p < PATH_MAX →
      pathText lead (name :: parent) ++ [0] <+: buffer → Ready buffer lrp_p lead (name :: parent) []

section Transitions

variable {buffer : List UInt8} {lrp_p : Nat} {lead : CString} {position : Position CString}
  {rest : List CString}

theorem Standing.text_prefix (standing : Standing buffer lrp_p lead position) :
    pathText lead position <+: buffer := by
  have starts := standing.starts
  split at starts
  case isTrue empty => rw [empty]; exact List.nil_prefix
  case isFalse => exact (List.prefix_append _ _).trans starts

theorem Standing.slash_prefix (standing : Standing buffer lrp_p lead position) :
    [slash] <+: buffer := by
  have starts := standing.starts
  split at starts
  case isTrue => exact (List.prefix_append [slash] [0]).trans starts
  case isFalse notEmpty =>
    have first := head_pathText standing.isLead position notEmpty
    have whole : [slash] <+: pathText lead position := by
      cases text : pathText lead position with
      | nil => exact absurd text notEmpty
      | cons head tail =>
          rw [text] at first
          cases first
          exact ⟨tail, rfl⟩
    exact (whole.trans (List.prefix_append _ _)).trans starts

theorem nextComponent_cons {name : CString} (notDot : name ≠ dot) (rest : List CString) :
    nextComponent (name :: rest) = some name :=
  List.find?_cons_of_pos (decide_eq_true notDot)

/-- `.` changes nothing. -/
theorem Ready.skip (ready : Ready buffer lrp_p lead position (dot :: rest)) :
    Ready buffer lrp_p lead position rest := by
  have same : nextComponent (dot :: rest) = nextComponent rest :=
    List.find?_cons_of_neg (by simp)
  cases ready with
  | standing standing => exact .standing standing
  | blank size starts atStart next named => exact .blank size starts atStart (same ▸ next) named
  | cut size isLead atLeast atMost starts inLast noSlash next =>
      exact .cut size isLead atLeast atMost starts inLast noSlash (same ▸ next)

/-- Before a name, whatever text there is stands before the cursor. -/
theorem Ready.before_name {name : CString} (ready : Ready buffer lrp_p lead position rest)
    (next : nextComponent rest = some name) (notDotDot : name ≠ dotDot) :
    buffer.length = PATH_MAX ∧ IsLead lead ∧ lrp_p = (pathText lead position).length ∧
      pathText lead position <+: buffer := by
  cases ready with
  | standing standing =>
      exact ⟨standing.size, standing.isLead, standing.cursor, standing.text_prefix⟩
  | blank size starts atStart => exact ⟨size, .inl rfl, atStart, List.nil_prefix⟩
  | cut _ _ _ _ _ _ _ isUp =>
      rw [next] at isUp
      exact absurd (Option.some.inj isUp) notDotDot
  | atFile => cases next

/-- A slash and a name, written behind the text. -/
theorem push_name {name : CString} (size : buffer.length = PATH_MAX)
    (starts : pathText lead position <+: buffer)
    (fits : (pathText lead (name :: position)).length < PATH_MAX) :
    ∃ slashed buffer', CBuffer.write? buffer (pathText lead position).length [slash] =
        some slashed ∧
      CBuffer.write? slashed ((pathText lead position).length + 1) (name ++ [0]) = some buffer' ∧
      buffer'.length = PATH_MAX ∧ pathText lead (name :: position) ++ [0] <+: buffer' := by
  rw [pathText_cons, List.length_append, List.length_cons] at fits
  obtain ⟨slashed, isSlashed, starts', size'⟩ :=
    CBuffer.exists_write? starts [slash] (by simp; omega)
  obtain ⟨buffer', isWritten, starts'', size''⟩ :=
    CBuffer.exists_write? starts' (name ++ [0]) (by simp; omega)
  refine ⟨slashed, buffer', isSlashed, ?_, by omega, ?_⟩
  · rw [← isWritten, List.length_append, List.length_singleton]
  · rw [pathText_cons]
    simpa using starts''

theorem standing_of_pushed {name : CString} (size : buffer.length = PATH_MAX)
    (isLead : IsLead lead) (starts : pathText lead (name :: position) ++ [0] <+: buffer) :
    Standing buffer ((pathText lead position).length + 1 + name.length) lead
      (name :: position) where
  size := size
  isLead := isLead
  cursor := by
    rw [pathText_cons, List.length_append, List.length_cons]
    omega
  starts := by
    rw [if_neg (pathText_ne_nil (List.cons_ne_nil _ _))]
    exact starts

/-- A terminator behind the first slash: the root. -/
theorem standing_root (size : buffer.length = PATH_MAX) (starts : [slash] <+: buffer) :
    ∃ buffer', CBuffer.write? buffer 1 [0] = some buffer' ∧ Standing buffer' 1 [slash] [] := by
  obtain ⟨buffer', isWritten, starts', size'⟩ :=
    CBuffer.exists_write? starts [0] (by rw [size]; decide)
  exact ⟨buffer', isWritten, size'.trans size, .inr rfl, rfl, starts'⟩

/-- Behind the text of the parent there is no slash up to the cursor. -/
theorem noSlash_behind {last : CString} {parent : Position CString} (noSlash : slash ∉ last)
    (atMost : lrp_p ≤ (pathText lead (last :: parent)).length)
    (starts : (pathText lead (last :: parent)).take lrp_p ++ [0] <+: buffer) (index : Nat)
    (above : (pathText lead parent).length < index) (below : index ≤ lrp_p) :
    buffer[index]? ≠ some slash := by
  obtain ⟨behind, rfl⟩ := starts
  have taken : ((pathText lead (last :: parent)).take lrp_p).length = lrp_p := by
    rw [List.length_take, Nat.min_eq_left atMost]
  rw [List.getElem?_append_left (by rw [List.length_append, taken]; exact Nat.lt_succ_of_le below)]
  rcases Nat.lt_or_eq_of_le below with inside | rfl
  · rw [List.getElem?_append_left (by omega), List.getElem?_take_of_lt inside, pathText_cons,
      List.getElem?_append_right (Nat.le_of_lt above)]
    obtain ⟨offset, isOffset⟩ : ∃ offset, index - (pathText lead parent).length = offset + 1 :=
      ⟨index - (pathText lead parent).length - 1, by omega⟩
    rw [isOffset, List.getElem?_cons_succ]
    exact fun isSlash => noSlash (List.mem_of_getElem? isSlash)
  · rw [List.getElem?_append_right (Nat.le_of_eq taken), taken, Nat.sub_self]
    decide

/-- `..` after a text that may be cut inside its last name. -/
theorem cut_up {last : CString} {parent : Position CString}
    (plain : ∀ name ∈ last :: parent, name ≠ [] ∧ slash ∉ name)
    (size : buffer.length = PATH_MAX) (isLead : IsLead lead) (atLeast : 1 ≤ lrp_p)
    (atMost : lrp_p ≤ (pathText lead (last :: parent)).length)
    (starts : (pathText lead (last :: parent)).take lrp_p ++ [0] <+: buffer)
    (inLast : (pathText lead parent).length < lrp_p ∨ parent = []) :
    ∃ buffer', CBuffer.write? buffer (scanSlash buffer (max lrp_p 1)) [0] = some buffer' ∧
      Standing buffer' (scanSlash buffer (max lrp_p 1)) (if parent = [] then [slash] else lead)
        parent := by
  have noSlash := (plain last List.mem_cons_self).2
  have behind := noSlash_behind noSlash atMost starts
  rw [Nat.max_eq_left atLeast]
  cases parent with
  | nil =>
      have short : (pathText lead []).length ≤ 1 := by rcases isLead with rfl | rfl <;> decide
      rw [scanSlash_eq_one atLeast fun index above below =>
        behind index (Nat.lt_of_le_of_lt short above) below, if_pos rfl]
      apply standing_root size
      have first : (pathText lead [last]).head? = some slash :=
        head_pathText isLead _ (pathText_ne_nil (List.cons_ne_nil _ _))
      obtain ⟨tail, isCons⟩ : ∃ tail, pathText lead [last] = slash :: tail := by
        cases text : pathText lead [last] with
        | nil => rw [text] at first; cases first
        | cons head tail => rw [text] at first; cases first; exact ⟨tail, rfl⟩
      obtain ⟨before, rfl⟩ := Nat.exists_eq_add_of_le' atLeast
      rw [isCons, List.take_succ_cons] at starts
      exact (List.prefix_append [slash] (tail.take before ++ [0])).trans starts
  | cons name above =>
      have inLast := inLast.resolve_right (List.cons_ne_nil _ _)
      have isPrefix : pathText lead (name :: above) ++ [slash] <+: buffer := by
        refine List.IsPrefix.trans ?_ ((List.prefix_append _ [0]).trans starts)
        rw [pathText_cons _ last, List.take_append, List.take_of_length_le (Nat.le_of_lt inLast)]
        obtain ⟨more, isMore⟩ : ∃ more, lrp_p - (pathText lead (name :: above)).length = more + 1 :=
          ⟨lrp_p - (pathText lead (name :: above)).length - 1, by omega⟩
        rw [isMore, List.take_succ_cons]
        exact ⟨_, List.append_assoc _ _ _⟩
      have isSlash : buffer[(pathText lead (name :: above)).length]? = some slash := by
        obtain ⟨more, rfl⟩ := isPrefix
        rw [List.append_assoc, List.getElem?_append_right (Nat.le_refl _), Nat.sub_self]
        rfl
      have atLeastTwo : 2 ≤ (pathText lead (name :: above)).length := by
        have notEmpty := List.length_pos_iff.mpr (plain name (by simp)).1
        rw [pathText_cons, List.length_append, List.length_cons]
        omega
      rw [scanSlash_eq atLeastTwo isSlash (Nat.le_of_lt inLast) behind,
        if_neg (List.cons_ne_nil _ _)]
      have starts' := (List.prefix_append _ [slash]).trans isPrefix
      obtain ⟨buffer', isWritten, starts'', size'⟩ :=
        CBuffer.exists_write? starts' [0] (by
          have room := isPrefix.length_le
          rwa [List.length_append] at room)
      refine ⟨buffer', isWritten, size'.trans size, isLead, rfl, ?_⟩
      rw [if_neg (pathText_ne_nil (List.cons_ne_nil _ _))]
      exact starts''

/-- `..`: the text of the parent, or the root. -/
theorem Ready.up (plain : ∀ name ∈ position, name ≠ [] ∧ slash ∉ name)
    (ready : Ready buffer lrp_p lead position rest) (next : nextComponent rest = some dotDot) :
    ∃ buffer', CBuffer.write? buffer (scanSlash buffer (max lrp_p 1)) [0] = some buffer' ∧
      Standing buffer' (scanSlash buffer (max lrp_p 1))
        (if position.tail = [] then [slash] else lead) position.tail := by
  cases ready with
  | standing standing =>
      cases position with
      | nil =>
          have short : lrp_p ≤ 1 := by
            rw [standing.cursor, pathText_nil]
            rcases standing.isLead with rfl | rfl <;> decide
          rw [Nat.max_eq_right short]
          exact standing_root standing.size standing.slash_prefix
      | cons last parent =>
          have starts := standing.starts
          rw [if_neg (pathText_ne_nil (List.cons_ne_nil _ _))] at starts
          have long : (pathText lead parent).length < lrp_p := by
            rw [standing.cursor, pathText_cons, List.length_append, List.length_cons]
            omega
          have whole : (pathText lead (last :: parent)).take lrp_p ++ [0] <+: buffer := by
            rw [standing.cursor, List.take_length]
            exact starts
          exact cut_up plain standing.size standing.isLead (Nat.lt_of_le_of_lt (Nat.zero_le _) long)
            (Nat.le_of_eq standing.cursor) whole (.inl long)
  | blank size starts atStart isName named =>
      rw [next] at isName
      exact absurd (Option.some.inj isName).symm named
  | cut size isLead atLeast atMost starts inLast =>
      exact cut_up plain size isLead atLeast atMost starts inLast
  | atFile => cases next

/-- When nothing is left, the buffer holds the text, or a slash for the empty one. -/
theorem Ready.at_end (ready : Ready buffer lrp_p lead position rest)
    (ended : nextComponent rest = none) :
    IsLead lead ∧
      (if pathText lead position = [] then [slash] else pathText lead position) ++ [0] <+:
        buffer := by
  cases ready with
  | standing standing => exact ⟨standing.isLead, standing.starts⟩
  | blank _ _ _ next => rw [ended] at next; cases next
  | cut _ _ _ _ _ _ _ next => rw [ended] at next; cases next
  | atFile _ isLead _ starts =>
      rw [if_neg (pathText_ne_nil (List.cons_ne_nil _ _))]
      exact ⟨isLead, starts⟩

theorem Ready.size (ready : Ready buffer lrp_p lead position rest) : buffer.length = PATH_MAX := by
  cases ready with
  | standing standing => exact standing.size
  | blank size => exact size
  | cut size => exact size
  | atFile size => exact size

/-- The cursor is inside the buffer. -/
theorem Ready.cursor_lt (ready : Ready buffer lrp_p lead position rest) : lrp_p < PATH_MAX := by
  have size := ready.size
  cases ready with
  | standing standing =>
      have room := standing.starts.length_le
      rw [standing.cursor]
      split at room
      case isTrue empty => rw [empty]; decide
      case isFalse =>
        rw [List.length_append, List.length_singleton] at room
        omega
  | blank _ _ atStart => rw [atStart]; decide
  | cut _ _ _ atMost starts =>
      have room := starts.length_le
      rw [List.length_append, List.length_take, Nat.min_eq_left atMost,
        List.length_singleton] at room
      omega
  | atFile _ _ inside => exact inside

end Transitions

end LinuxProgramming.Files
