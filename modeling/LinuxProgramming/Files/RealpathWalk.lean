import LinuxProgramming.Library.TransitionSystem
import LinuxProgramming.Files.RealpathState
import LinuxProgramming.Files.Resolution

/-!
Contract: what `my_realpath` resolves on a tree.

Owns:
- `Place` and `advance`, resolution by one component at a time, and its agreement
  with the resolution of the kernel;
- the condition under which a link is followed rightly;
- the simulation of `advance` by the loop of `my_realpath`.

Does not own: the consequences for trees without links or for links.
-/

namespace LinuxProgramming.Files

open LinuxProgramming.Library

/-! ### Resolution by one component at a time -/

/-- How far a pathname has been resolved: the text the loop builds starts with
`lead`. -/
structure Place where
  lead : CString
  position : Position CString
  pending : List CString
deriving DecidableEq, Repr

/-- Where the target of a link found at `position` starts. -/
def linkOrigin (lead : CString) (position : Position CString) (target : CString) :
    CString × Position CString :=
  if target.head? = some slash then ([], []) else (lead, position)

namespace FileSystem

variable (fs : FileSystem)

/-- The next component. The lead is only there to compare with the buffer of
`my_realpath`; the rest is resolution as the kernel does it. -/
def advance (lead : CString) (position : Position CString) (name : CString)
    (rest : List CString) : Except Errno Place :=
  match fs.tree.at? position with
  | none => .error .enoent
  | some (.leaf _) => .error .enotdir
  | some (.dir _ _) =>
      if name = dot then .ok ⟨lead, position, rest⟩
      else if name = dotDot then
        .ok ⟨if position.tail = [] then [slash] else lead, position.tail, rest⟩
      else
        match fs.tree.at? (name :: position) with
        | none => .error .enoent
        | some found =>
            match targetOf found with
            | none =>
                if rest ≠ [] ∧ ¬ found.IsDir then .error .enotdir
                else .ok ⟨lead, name :: position, rest⟩
            | some target =>
                if Pathname.pieces slash target = [] then .ok ⟨[slash], [], rest⟩
                else
                  let origin := linkOrigin lead position target
                  .ok ⟨if origin.2 = [] then
                      origin.1.take (origin.1.length + 1 - name.length) else origin.1,
                    origin.2, Pathname.pieces slash target ++ rest⟩

/-- Resolution from a place, to its end. -/
inductive Resolves : Place → Except Errno (Position CString) → Prop where
  | arrived (lead position) : Resolves ⟨lead, position, []⟩ (.ok position)
  | failed {lead position name rest errno} : fs.advance lead position name rest = .error errno →
      Resolves ⟨lead, position, name :: rest⟩ (.error errno)
  | onward {lead position name rest place result} :
      fs.advance lead position name rest = .ok place → Resolves place result →
      Resolves ⟨lead, position, name :: rest⟩ result

/-- The places a resolution passes through. -/
def resolution (start : Place) : TransitionSystem Place where
  Init place := place = start
  Step before after := ∃ name rest, before.pending = name :: rest ∧
    fs.advance before.lead before.position name rest = .ok after

/-- What `symlink` makes sure of. -/
structure ValidTargets : Prop where
  notEmpty : ∀ position found target, fs.tree.at? position = some found →
    targetOf found = some target → target ≠ []
  short : ∀ position found target, fs.tree.at? position = some found →
    targetOf found = some target → target.length < PATH_MAX
  noTerminator : ∀ position found target, fs.tree.at? position = some found →
    targetOf found = some target → (0 : UInt8) ∉ target

variable {fs}

section Cases

variable (lead : CString) {position : Position CString} {name : CString} (rest : List CString)
  {info : Inode} {entries : List (CString × Tree)} {found : Tree} {target : CString}
  (located : fs.tree.at? position = some (.dir info entries))

include located

theorem advance_dot : fs.advance lead position dot rest = .ok ⟨lead, position, rest⟩ := by
  rw [advance, located]
  rfl

theorem advance_dotDot : fs.advance lead position dotDot rest =
    .ok ⟨if position.tail = [] then [slash] else lead, position.tail, rest⟩ := by
  rw [advance, located]
  rfl

variable (notDot : name ≠ dot) (notDotDot : name ≠ dotDot)

include notDot notDotDot

theorem advance_missing (missing : fs.tree.at? (name :: position) = none) :
    fs.advance lead position name rest = .error .enoent := by
  rw [advance, located]
  dsimp only
  rw [if_neg notDot, if_neg notDotDot, missing]

variable (foundAt : fs.tree.at? (name :: position) = some found)

include foundAt

theorem advance_plain (plain : targetOf found = none) :
    fs.advance lead position name rest =
      if rest ≠ [] ∧ ¬ found.IsDir then .error .enotdir
      else .ok ⟨lead, name :: position, rest⟩ := by
  rw [advance, located]
  dsimp only
  rw [if_neg notDot, if_neg notDotDot, foundAt]
  dsimp only
  rw [plain]

theorem advance_link (isLink : targetOf found = some target) :
    fs.advance lead position name rest =
      if Pathname.pieces slash target = [] then .ok ⟨[slash], [], rest⟩
      else
        .ok ⟨if (linkOrigin lead position target).2 = [] then
            (linkOrigin lead position target).1.take
              ((linkOrigin lead position target).1.length + 1 - name.length)
          else (linkOrigin lead position target).1,
        (linkOrigin lead position target).2, Pathname.pieces slash target ++ rest⟩ := by
  rw [advance, located]
  dsimp only
  rw [if_neg notDot, if_neg notDotDot, foundAt]
  dsimp only
  rw [isLink]

end Cases

/-- A target without components leads to the root. -/
theorem absolute_of_pieces_eq_nil {target : CString} (notEmpty : target ≠ [])
    (empty : Pathname.pieces slash target = []) : target.head? = some slash := by
  cases target with
  | nil => exact absurd rfl notEmpty
  | cons first rest =>
      rw [Pathname.eq_separator_of_pieces_eq_nil slash empty List.mem_cons_self]
      rfl

section Kernel

variable {expand : Position CString → List CString → Except Errno (Position CString)}

/-- The induction is on the components; `expand` resolves what a link leads to. -/
theorem resolves_of_resolveFrom (targets : fs.ValidTargets)
    (expands : ∀ lead position names result, expand position names = result →
      result ≠ .error .eloop → fs.Resolves ⟨lead, position, names⟩ result)
    (names : List CString) :
    ∀ (lead : CString) (position : Position CString) (result : Except Errno (Position CString)),
      fs.resolveFrom expand true position names = result → result ≠ .error .eloop →
      fs.Resolves ⟨lead, position, names⟩ result := by
  induction names with
  | nil =>
      intro lead position result resolved _
      rw [← resolved]
      exact .arrived lead position
  | cons name rest inductionHypothesis =>
      intro lead position result resolved finite
      rw [resolveFrom] at resolved
      cases located : fs.tree.at? position with
      | none =>
          rw [located] at resolved
          cases resolved
          exact .failed (by rw [advance, located])
      | some tree =>
          cases tree with
          | leaf content =>
              rw [located] at resolved
              cases resolved
              exact .failed (by rw [advance, located])
          | dir info entries =>
              rw [located] at resolved
              dsimp only at resolved
              by_cases isDot : name = dot
              · rw [if_pos isDot] at resolved
                subst isDot
                exact .onward (advance_dot _ _ located) (inductionHypothesis _ _ _ resolved finite)
              rw [if_neg isDot] at resolved
              by_cases isDotDot : name = dotDot
              · rw [if_pos isDotDot] at resolved
                subst isDotDot
                exact .onward (advance_dotDot _ _ located)
                  (inductionHypothesis _ _ _ resolved finite)
              rw [if_neg isDotDot] at resolved
              cases foundAt : fs.tree.at? (name :: position) with
              | none =>
                  rw [foundAt] at resolved
                  cases resolved
                  exact .failed (advance_missing _ _ located isDot isDotDot foundAt)
              | some found =>
                  rw [foundAt] at resolved
                  dsimp only at resolved
                  cases isLink : targetOf found with
                  | none =>
                      rw [isLink] at resolved
                      dsimp only at resolved
                      have here := advance_plain lead rest located isDot
                        isDotDot foundAt isLink
                      by_cases blocked : rest ≠ [] ∧ ¬ found.IsDir
                      · rw [if_pos blocked] at here
                        have isError : result = .error .enotdir := by
                          cases rest with
                          | nil => exact absurd rfl blocked.1
                          | cons next later =>
                              cases found with
                              | leaf content =>
                                  rw [resolveFrom, foundAt] at resolved
                                  exact resolved.symm
                              | dir info entries => exact absurd trivial blocked.2
                        exact isError ▸ .failed here
                      · rw [if_neg blocked] at here
                        exact .onward here (inductionHypothesis _ _ _ resolved finite)
                  | some target =>
                      rw [isLink] at resolved
                      dsimp only at resolved
                      rw [if_neg (fun last => by cases last.2)] at resolved
                      have here := advance_link lead rest located isDot
                        isDotDot foundAt isLink
                      by_cases empty : Pathname.pieces slash target = []
                      · rw [if_pos empty] at here
                        rw [empty, if_pos (absolute_of_pieces_eq_nil
                          (targets.notEmpty _ _ _ foundAt isLink) empty)] at resolved
                        exact .onward here (expands _ _ _ _ resolved finite)
                      · rw [if_neg empty] at here
                        refine .onward here (expands _ _ _ _ ?_ finite)
                        rw [← resolved, linkOrigin]
                        split <;> rfl

/-- Whatever the kernel resolves with some number of links, is resolved one
component at a time. -/
theorem resolves_of_resolve (targets : fs.ValidTargets) (links : Nat) :
    ∀ (lead : CString) (position : Position CString) (names : List CString)
      (result : Except Errno (Position CString)),
      fs.resolve true links position names = result → result ≠ .error .eloop →
      fs.Resolves ⟨lead, position, names⟩ result := by
  induction links with
  | zero =>
      intro lead position names result resolved finite
      refine resolves_of_resolveFrom targets ?_ names lead position result resolved finite
      intro _ _ _ _ isLoop notLoop
      exact absurd isLoop.symm notLoop
  | succ links inductionHypothesis =>
      intro lead position names result resolved finite
      exact resolves_of_resolveFrom targets inductionHypothesis names lead position result
        resolved finite

end Kernel

end FileSystem

/-! ### What the loop needs -/

/-- What a component of a pathname looks like. -/
structure Component (name : CString) : Prop where
  notEmpty : name ≠ []
  noSlash : slash ∉ name
  noTerminator : (0 : UInt8) ∉ name
  fits : name.length ≤ NAME_MAX

/-- A link is followed rightly. The cursor is set back by the length of the link's
name, from one behind the text at which the target starts:

- a target without components resets the cursor instead;
- a name of one byte is set back to the end of the text, unless that is empty;
- at the root the text may become empty if a name comes next, which writes the
  slash again;
- if `..` comes next, it is enough that the cursor ends inside the last name, or
  anywhere behind the first slash below the root. -/
def LinkOk (lead : CString) (position : Position CString) (name target : CString)
    (rest : List CString) : Prop :=
  let origin := linkOrigin lead position target
  let next := nextComponent (Pathname.pieces slash target ++ rest)
  Pathname.pieces slash target = [] ∨
  (name.length = 1 ∧ pathText origin.1 origin.2 ≠ []) ∨
  (origin.2 = [] ∧ name.length = origin.1.length + 1 ∧ ∃ other, next = some other ∧
    other ≠ dotDot) ∨
  (next = some dotDot ∧ ∃ last parent, origin.2 = last :: parent ∧
    (name.length ≤ last.length + 1 ∨
      parent = [] ∧ name.length ≤ (pathText origin.1 origin.2).length))

/-- The next component can be taken: its name fits into the buffer, and if it is a
link, the components of its target fit and it is followed rightly. -/
structure PlaceOk (fs : FileSystem) (place : Place) : Prop where
  fits : ∀ name rest, place.pending = name :: rest → name ≠ dot → name ≠ dotDot →
    (pathText place.lead (name :: place.position)).length < PATH_MAX
  links : ∀ name rest found target, place.pending = name :: rest →
    fs.tree.at? (name :: place.position) = some found → targetOf found = some target →
    (∀ piece ∈ Pathname.pieces slash target, piece.length ≤ NAME_MAX) ∧
      LinkOk place.lead place.position name target rest

/-- The write that ends the rewinding after a link. -/
theorem Ready.of_rewind {buffer : List UInt8} {lead : CString} {position : Position CString}
    {name : CString} {pending : List CString} (size : buffer.length = PATH_MAX)
    (isLead : IsLead lead) (starts : pathText lead position <+: buffer)
    (room : (pathText lead position).length < PATH_MAX)
    (plain : ∀ other ∈ position, other ≠ [] ∧ slash ∉ other) (notEmpty : name ≠ [])
    (rewinds : (name.length = 1 ∧ pathText lead position ≠ []) ∨
      (position = [] ∧ name.length = lead.length + 1 ∧ ∃ other, nextComponent pending =
        some other ∧ other ≠ dotDot) ∨
      (nextComponent pending = some dotDot ∧ ∃ last parent, position = last :: parent ∧
        (name.length ≤ last.length + 1 ∨
          parent = [] ∧ name.length ≤ (pathText lead position).length))) :
    name.length ≤ (pathText lead position).length + 1 ∧
    ∃ buffer', CBuffer.write? buffer ((pathText lead position).length + 1 - name.length) [0] =
        some buffer' ∧
      Ready buffer' ((pathText lead position).length + 1 - name.length)
        (if position = [] then lead.take (lead.length + 1 - name.length) else lead)
        position pending := by
  have positive : 1 ≤ name.length := List.length_pos_iff.mpr notEmpty
  have notLong : name.length ≤ (pathText lead position).length + 1 := by
    rcases rewinds with ⟨one, _⟩ | ⟨rfl, same, _⟩ | ⟨_, last, parent, rfl, short | ⟨_, short⟩⟩
    · omega
    · rw [pathText_nil]
      exact Nat.le_of_eq same
    · rw [pathText_cons, List.length_append, List.length_cons]
      omega
    · omega
  -- what is kept of the text
  have kept : (pathText lead position).take
      ((pathText lead position).length + 1 - name.length) <+: buffer :=
    (List.take_prefix _ _).trans starts
  have keptLength : ((pathText lead position).take
      ((pathText lead position).length + 1 - name.length)).length =
        (pathText lead position).length + 1 - name.length := by
    rw [List.length_take, Nat.min_eq_left (by omega)]
  obtain ⟨buffer', isWritten, starts', size'⟩ :=
    CBuffer.exists_write? kept [0] (by
      rw [keptLength, size]
      simp only [List.length_singleton]
      omega)
  rw [keptLength] at isWritten
  refine ⟨notLong, buffer', isWritten, ?_⟩
  have size'' := size'.trans size
  rcases rewinds with ⟨one, text⟩ | ⟨rfl, same, other, next, named⟩ |
    ⟨next, last, parent, rfl, inside⟩
  · rw [one, Nat.add_sub_cancel] at starts' ⊢
    rw [List.take_length] at starts'
    have sameLead : (if position = [] then lead.take (lead.length + 1 - 1) else lead) = lead := by
      rw [Nat.add_sub_cancel, List.take_length, ite_self]
    rw [sameLead]
    exact .standing ⟨size'', isLead, rfl, by rwa [if_neg text]⟩
  · rw [pathText_nil, same, Nat.sub_self, List.take_zero] at starts' ⊢
    rw [if_pos rfl]
    exact .blank size'' starts' rfl next named
  · rw [if_neg (List.cons_ne_nil _ _)]
    have noSlash := (plain last List.mem_cons_self).2
    have lengths : (pathText lead (last :: parent)).length =
        (pathText lead parent).length + (last.length + 1) := by
      rw [pathText_cons, List.length_append, List.length_cons]
    refine .cut size'' isLead ?_ (by omega) starts' ?_ noSlash next
    · rcases inside with short | ⟨_, short⟩ <;> omega
    · rcases inside with short | ⟨isTop, _⟩
      · exact .inl (by omega)
      · exact .inr isTop

/-! ### Looking up the text -/

section Lookup

variable {fs : FileSystem}

/-- The names of a directory of the tree lead to it. -/
theorem resolveFrom_reverse
    (expand : Position CString → List CString → Except Errno (Position CString)) (follow : Bool)
    {position : Position CString} {info : Inode} {entries : List (CString × Tree)}
    (located : fs.tree.at? position = some (.dir info entries)) (rest : List CString) :
    fs.resolveFrom expand follow [] (position.reverse ++ rest) =
      fs.resolveFrom expand follow position rest := by
  induction position generalizing info entries rest with
  | nil => rfl
  | cons name parent inductionHypothesis =>
      have valid := FileSystem.validName_of_mem located name List.mem_cons_self
      obtain ⟨parentInfo, parentEntries, parentAt⟩ := FileSystem.tail_isDir located
      rw [List.reverse_cons, List.append_assoc, List.singleton_append,
        inductionHypothesis parentAt, FileSystem.resolveFrom]
      rw [List.tail_cons] at parentAt
      rw [parentAt]
      dsimp only
      rw [if_neg valid.notDot, if_neg valid.notDotDot, located]
      rfl

variable {lead : CString} {position : Position CString} {name : CString} {info : Inode}
  {entries : List (CString × Tree)}

theorem getLast_pathText (component : Component name) :
    (pathText lead (name :: position)).getLast? ≠ some slash := by
  rw [pathText_cons, List.getLast?_append, List.getLast?_cons_of_ne_nil component.notEmpty,
    List.getLast?_eq_some_getLast component.notEmpty, Option.some_or]
  intro isSlash
  exact component.noSlash (Option.some.inj isSlash ▸ List.getLast_mem component.notEmpty)

/-- The text of an entry is looked up in the directory. -/
theorem lookup_pathText (isLead : IsLead lead)
    (located : fs.tree.at? position = some (.dir info entries)) (component : Component name)
    (fits : (pathText lead (name :: position)).length < PATH_MAX) (follow : Bool)
    (cwd : Position CString) :
    fs.lookup follow cwd (pathText lead (name :: position)) =
      fs.resolveFrom (fs.resolve follow 39) follow position [name] := by
  have valid := FileSystem.validName_of_mem located
  have notEmpty : pathText lead (name :: position) ≠ [] := pathText_ne_nil (List.cons_ne_nil _ _)
  have pieces : Pathname.pieces slash (pathText lead (name :: position)) =
      position.reverse ++ [name] := by
    rw [← List.reverse_cons]
    apply pieces_pathText isLead
    intro other member
    rcases List.mem_cons.mp member with rfl | above
    · exact ⟨component.notEmpty, component.noSlash⟩
    · exact ⟨(valid other above).notEmpty, (valid other above).noSlash⟩
  have admissible : FileSystem.Admissible (pathText lead (name :: position)) := by
    refine ⟨notEmpty, fits, fun piece member => ?_⟩
    rw [pieces] at member
    rcases List.mem_append.mp member with above | last
    · exact (valid piece (List.mem_reverse.mp above)).fits
    · exact List.mem_singleton.mp last ▸ component.fits
  rw [FileSystem.lookup_eq_resolve follow cwd admissible, FileSystem.origin,
    if_pos (head_pathText isLead _ notEmpty), pieces,
    decide_eq_false (getLast_pathText component), Bool.or_false]
  exact resolveFrom_reverse _ follow located [name]

theorem find_pathText (isLead : IsLead lead)
    (located : fs.tree.at? position = some (.dir info entries)) (component : Component name)
    (notDot : name ≠ dot) (notDotDot : name ≠ dotDot)
    (fits : (pathText lead (name :: position)).length < PATH_MAX) {follow : Bool}
    (cwd : Position CString) {found : Tree} (foundAt : fs.tree.at? (name :: position) = some found)
    (final : follow = true → targetOf found = none) :
    fs.find follow cwd (pathText lead (name :: position)) = .ok (name :: position, found) := by
  refine FileSystem.find_of_lookup ?_ foundAt fun last =>
    absurd last (getLast_pathText component)
  rw [lookup_pathText isLead located component fits, FileSystem.resolveFrom, located]
  dsimp only
  rw [if_neg notDot, if_neg notDotDot, foundAt]
  dsimp only
  cases isLink : targetOf found with
  | none => rfl
  | some target =>
      have stays : follow = false := by
        cases follow with
        | false => rfl
        | true => rw [final rfl] at isLink; cases isLink
      dsimp only
      rw [if_pos ⟨rfl, stays⟩]

theorem find_pathText_missing (isLead : IsLead lead)
    (located : fs.tree.at? position = some (.dir info entries)) (component : Component name)
    (notDot : name ≠ dot) (notDotDot : name ≠ dotDot)
    (fits : (pathText lead (name :: position)).length < PATH_MAX) (follow : Bool)
    (cwd : Position CString) (missing : fs.tree.at? (name :: position) = none) :
    fs.find follow cwd (pathText lead (name :: position)) = .error .enoent := by
  apply FileSystem.find_fails
  rw [lookup_pathText isLead located component fits, FileSystem.resolveFrom, located]
  dsimp only
  rw [if_neg notDot, if_neg notDotDot, missing]

/-- The canonical pathname of a directory leads to it, links or not. -/
theorem find_canonical (located : fs.tree.at? position = some (.dir info entries))
    (fits : (canonical position).length < PATH_MAX) (follow : Bool) (cwd : Position CString) :
    fs.find follow cwd (canonical position) = .ok (position, .dir info entries) := by
  have valid := FileSystem.validName_of_mem located
  have isLead : IsLead (if position = [] then [slash] else []) := by
    split
    · exact .inr rfl
    · exact .inl rfl
  have notEmpty : canonical position ≠ [] := by
    rw [canonical_eq]
    split
    case isTrue empty => simp [empty]
    case isFalse below => exact pathText_ne_nil below
  have pieces : Pathname.pieces slash (canonical position) = position.reverse := by
    rw [canonical_eq]
    exact pieces_pathText isLead fun name member => ⟨(valid name member).notEmpty,
      (valid name member).noSlash⟩
  have first : (canonical position).head? = some slash := by
    rw [canonical_eq] at notEmpty ⊢
    exact head_pathText isLead _ notEmpty
  have admissible : FileSystem.Admissible (canonical position) := by
    refine ⟨notEmpty, fits, fun piece member => ?_⟩
    rw [pieces] at member
    exact (valid piece (List.mem_reverse.mp member)).fits
  refine FileSystem.find_of_lookup ?_ located fun _ => trivial
  rw [FileSystem.lookup_eq_resolve follow cwd admissible, FileSystem.origin, if_pos first, pieces]
  have arrives := resolveFrom_reverse (fs.resolve
    (follow || (canonical position).getLast? = some slash) 39)
    (follow || (canonical position).getLast? = some slash) located []
  rw [List.append_nil] at arrives
  exact arrives

end Lookup

/-! ### One iteration -/

section Iteration

variable {fs : FileSystem} {leftover : Stat} {process : Process} {buffer : List UInt8}
  {lrp_p : Nat} {lead : CString} {position : Position CString} {name : CString}
  {rest : List CString} {info : Inode} {entries : List (CString × Tree)}

/-- The state of the loop after an iteration that arrives at a place. -/
def ArrivesAt (outcome : Except Stop (Progress × Process)) (process : Process) (place : Place) :
    Prop :=
  ∃ buffer lrp_p, outcome = .ok (.next ⟨buffer, lrp_p, place.pending⟩, process) ∧
    Ready buffer lrp_p place.lead place.position place.pending

theorem plain_of_located {found : Tree} (located : fs.tree.at? position = some found) :
    ∀ other ∈ position, other ≠ [] ∧ slash ∉ other := fun other member =>
  let valid := FileSystem.validName_of_mem located other member
  ⟨valid.notEmpty, valid.noSlash⟩

theorem resolveComponent_dotDot (located : fs.tree.at? position = some (.dir info entries))
    (ready : Ready buffer lrp_p lead position (dotDot :: rest)) :
    ArrivesAt (resolveComponent (treeKernel fs leftover) buffer lrp_p dotDot rest process) process
      ⟨if position.tail = [] then [slash] else lead, position.tail, rest⟩ := by
  obtain ⟨buffer', isWritten, standing⟩ :=
    ready.up (plain_of_located located) (nextComponent_cons (by decide) rest)
  refine ⟨buffer', _, ?_, .standing standing⟩
  rw [resolveComponent, if_pos rfl, put_bind isWritten]
  rfl

theorem resolveComponent_dot (ready : Ready buffer lrp_p lead position (dot :: rest)) :
    ArrivesAt (resolveComponent (treeKernel fs leftover) buffer lrp_p dot rest process) process
      ⟨lead, position, rest⟩ :=
  ⟨buffer, lrp_p, rfl, ready.skip⟩

/-- After a link; `buffer` holds the text of the link. -/
theorem followLink_arrives (targets : fs.ValidTargets) {found : Tree} {target : CString}
    (isLead : IsLead lead) (located : fs.tree.at? position = some (.dir info entries))
    (component : Component name) (notDot : name ≠ dot) (notDotDot : name ≠ dotDot)
    (fits : (pathText lead (name :: position)).length < PATH_MAX)
    (foundAt : fs.tree.at? (name :: position) = some found)
    (isLink : targetOf found = some target)
    (targetFits : ∀ piece ∈ Pathname.pieces slash target, piece.length ≤ NAME_MAX)
    (rightly : LinkOk lead position name target rest) (size : buffer.length = PATH_MAX)
    (starts : pathText lead (name :: position) ++ [0] <+: buffer)
    (held : CBuffer.string 0 buffer = pathText lead (name :: position)) {place : Place}
    (advances : fs.advance lead position name rest = .ok place) :
    ArrivesAt (followLink (treeKernel fs leftover) buffer ((pathText lead position).length + 1)
      name rest process) process place := by
  have finds : fs.find false process.cwd (CBuffer.string 0 buffer) =
      .ok (name :: position, found) := by
    rw [held]
    exact find_pathText isLead located component notDot notDotDot fits process.cwd foundAt nofun
  have short := targets.short _ _ _ foundAt isLink
  have whole : target.take PATH_MAX = target := List.take_of_length_le (Nat.le_of_lt short)
  have textStarts : pathText lead (name :: position) <+: buffer :=
    (List.prefix_append _ _).trans starts
  obtain ⟨list, parsed, nodes, ended⟩ := getPartPath_eq targetFits
  rw [followLink, call_bind _ (treeKernel_readlink finds isLink)]
  dsimp only
  rw [whole, if_neg (Nat.not_le.mpr short), parsed]
  dsimp only
  rw [nodes]
  rw [FileSystem.advance_link lead rest located notDot notDotDot foundAt isLink] at advances
  by_cases empty : Pathname.pieces slash target = []
  · rw [if_pos empty] at advances ⊢
    cases advances
    have first : [slash] <+: buffer := by
      refine List.IsPrefix.trans ?_ textStarts
      have isHead := head_pathText isLead _ (pathText_ne_nil (List.cons_ne_nil name position))
      cases text : pathText lead (name :: position) with
      | nil => rw [text] at isHead; cases isHead
      | cons head tail => rw [text] at isHead; cases isHead; exact ⟨tail, rfl⟩
    obtain ⟨buffer', isWritten, standing⟩ := standing_root size first
    exact ⟨buffer', 1, by rw [put_bind isWritten]; rfl, .standing standing⟩
  · rw [if_neg empty] at advances ⊢
    cases advances
    -- the cursor stands one behind the text of the origin
    have origin : IsLead (linkOrigin lead position target).1 ∧
        pathText (linkOrigin lead position target).1 (linkOrigin lead position target).2 <+:
          buffer ∧
        (if target.head? = some slash then 1 else (pathText lead position).length + 1) =
          (pathText (linkOrigin lead position target).1
            (linkOrigin lead position target).2).length + 1 ∧
        (pathText (linkOrigin lead position target).1
          (linkOrigin lead position target).2).length < PATH_MAX ∧
        ∀ other ∈ (linkOrigin lead position target).2, other ≠ [] ∧ slash ∉ other := by
      rw [linkOrigin]
      rw [pathText_cons] at textStarts fits
      split
      · exact ⟨.inl rfl, List.nil_prefix, rfl, by decide, nofun⟩
      · refine ⟨isLead, (List.prefix_append _ _).trans textStarts, rfl, ?_,
          plain_of_located located⟩
        rw [List.length_append] at fits
        exact Nat.lt_of_le_of_lt (Nat.le_add_right _ _) fits
    obtain ⟨isLead', starts', cursor, room, plain⟩ := origin
    obtain ⟨notLong, buffer', isWritten, ready⟩ := Ready.of_rewind size isLead' starts' room plain
      component.notEmpty (rightly.resolve_left empty)
    refine ⟨buffer', _, ?_, ready⟩
    rw [cursor, if_neg (Nat.not_lt.mpr notLong), put_bind isWritten, ended.linkAfter_eq, nodes]
    rfl

theorem resolveComponent_name (targets : fs.ValidTargets)
    (located : fs.tree.at? position = some (.dir info entries)) (component : Component name)
    (notDot : name ≠ dot) (notDotDot : name ≠ dotDot)
    (ready : Ready buffer lrp_p lead position (name :: rest))
    (ok : PlaceOk fs ⟨lead, position, name :: rest⟩) :
    match fs.advance lead position name rest with
    | .error _ => ∃ errno, resolveComponent (treeKernel fs leftover) buffer lrp_p name rest
        process = .ok (.failed errno, process)
    | .ok place => ArrivesAt (resolveComponent (treeKernel fs leftover) buffer lrp_p name rest
        process) process place := by
  obtain ⟨size, isLead, atCursor, starts⟩ :=
    ready.before_name (nextComponent_cons notDot rest) notDotDot
  have fits : (pathText lead (name :: position)).length < PATH_MAX :=
    ok.fits name rest rfl notDot notDotDot
  obtain ⟨slashed, buffer', isSlashed, isWritten, size', starts'⟩ := push_name size starts fits
  have valid := FileSystem.validName_of_mem located
  have held : CBuffer.string 0 buffer' = pathText lead (name :: position) := by
    refine CBuffer.string_eq (pathText_noTerminator isLead fun other member => ?_) starts'
    rcases List.mem_cons.mp member with rfl | above
    · exact component.noTerminator
    · exact (valid other above).noTerminator
  rw [atCursor, resolveComponent, if_neg notDotDot, if_neg notDot, put_bind isSlashed,
    put_bind isWritten, held]
  cases foundAt : fs.tree.at? (name :: position) with
  | none =>
      rw [FileSystem.advance_missing lead rest located notDot notDotDot foundAt,
        call_bind _ (treeKernel_lstat_fails (find_pathText_missing isLead located component notDot
          notDotDot fits false process.cwd foundAt))]
      exact ⟨_, rfl⟩
  | some found =>
      have finds : fs.find false process.cwd (pathText lead (name :: position)) =
          .ok (name :: position, found) :=
        find_pathText isLead located component notDot notDotDot fits process.cwd foundAt nofun
      rw [call_bind _ (treeKernel_lstat finds)]
      dsimp only
      rw [if_neg (by simp)]
      cases found with
      | dir info' entries' =>
          rw [FileSystem.advance_plain lead rest located notDot notDotDot foundAt rfl,
            if_neg (fun blocked => blocked.2 trivial)]
          exact ⟨buffer', _, rfl, .standing (standing_of_pushed size' isLead starts')⟩
      | leaf content =>
          cases isLink : content.target with
          | none =>
              have mode : (statOf (.leaf content)).st_mode = .other := by simp [statOf, isLink]
              rw [FileSystem.advance_plain lead rest located notDot notDotDot foundAt isLink, mode]
              dsimp only
              by_cases more : rest ≠ []
              · rw [if_pos ⟨more, id⟩, if_pos more]
                exact ⟨_, rfl⟩
              · rw [if_neg (fun blocked => more blocked.1), if_neg more]
                cases not_not.mp more
                have room : (pathText lead position).length + 1 < PATH_MAX := by
                  have positive := List.length_pos_iff.mpr component.notEmpty
                  rw [pathText_cons, List.length_append, List.length_cons] at fits
                  omega
                exact ⟨buffer', _, rfl, .atFile size' isLead room starts'⟩
          | some target =>
              have mode : (statOf (.leaf content)).st_mode = .symbolicLink := by
                simp [statOf, isLink]
              rw [mode]
              dsimp only
              obtain ⟨targetFits, rightly⟩ := ok.links name rest _ target rfl foundAt isLink
              have advances : ∃ place, fs.advance lead position name rest = .ok place := by
                rw [FileSystem.advance_link lead rest located notDot notDotDot foundAt isLink]
                split <;> exact ⟨_, rfl⟩
              obtain ⟨place, advances⟩ := advances
              rw [advances]
              exact followLink_arrives targets isLead located component notDot notDotDot fits
                foundAt isLink targetFits rightly size' starts' held advances

variable (leftover process) in
/-- One iteration of the loop is one step of the resolution. -/
theorem resolveComponent_spec (targets : fs.ValidTargets)
    (located : fs.tree.at? position = some (.dir info entries)) (component : Component name)
    (ready : Ready buffer lrp_p lead position (name :: rest))
    (ok : PlaceOk fs ⟨lead, position, name :: rest⟩) :
    match fs.advance lead position name rest with
    | .error _ => ∃ errno, resolveComponent (treeKernel fs leftover) buffer lrp_p name rest
        process = .ok (.failed errno, process)
    | .ok place => ArrivesAt (resolveComponent (treeKernel fs leftover) buffer lrp_p name rest
        process) process place := by
  by_cases isDot : name = dot
  · subst isDot
    rw [FileSystem.advance_dot _ _ located]
    exact resolveComponent_dot ready
  by_cases isDotDot : name = dotDot
  · subst isDotDot
    rw [FileSystem.advance_dotDot _ _ located]
    exact resolveComponent_dotDot located ready
  · exact resolveComponent_name targets located component isDot isDotDot ready ok

end Iteration

/-! ### Runs -/

/-- A place the resolution may pass through: it is in the tree, no link, and a
directory as long as components are left. -/
structure Sound (fs : FileSystem) (place : Place) : Prop where
  located : ∃ found, fs.tree.at? place.position = some found ∧ targetOf found = none ∧
    (place.pending ≠ [] → found.IsDir)
  components : ∀ name ∈ place.pending, Component name

theorem component_of_pieces {text : CString} (terminated : (0 : UInt8) ∉ text)
    (fit : ∀ piece ∈ Pathname.pieces slash text, piece.length ≤ NAME_MAX) :
    ∀ piece ∈ Pathname.pieces slash text, Component piece := by
  intro piece member
  obtain ⟨notEmpty, noSlash⟩ := Pathname.of_mem_pieces slash member
  refine ⟨notEmpty, noSlash, fun inside => ?_, fit piece member⟩
  exact terminated ((Pathname.mem_of_mem_piecesFrom slash member inside).resolve_left nofun)

section Runs

variable {fs : FileSystem} {leftover : Stat} {process : Process}

theorem Sound.dir {lead : CString} {position : Position CString} {name : CString}
    {rest : List CString} (sound : Sound fs ⟨lead, position, name :: rest⟩) :
    ∃ info entries, fs.tree.at? position = some (.dir info entries) := by
  obtain ⟨found, located, _, isDir⟩ := sound.located
  cases found with
  | leaf content => exact absurd (isDir (List.cons_ne_nil _ _)) id
  | dir info entries => exact ⟨info, entries, located⟩

theorem sound_of_dir {lead : CString} {position : Position CString} {pending : List CString}
    (located : ∃ info entries, fs.tree.at? position = some (.dir info entries))
    (components : ∀ name ∈ pending, Component name) : Sound fs ⟨lead, position, pending⟩ := by
  obtain ⟨info, entries, located⟩ := located
  exact ⟨⟨_, located, rfl, fun _ => trivial⟩, components⟩

theorem root_dir (fs : FileSystem) :
    ∃ info entries, fs.tree.at? [] = some (.dir info entries) := by
  have isDir := fs.rootIsDir
  cases tree : fs.tree with
  | leaf content => rw [tree] at isDir; cases isDir
  | dir info entries => exact ⟨info, entries, by rw [FileTree.at?_nil]⟩

/-- The step lemma of resolution. -/
theorem advance_sound (targets : fs.ValidTargets) {lead : CString}
    {position : Position CString} {name : CString} {rest : List CString} {place : Place}
    (sound : Sound fs ⟨lead, position, name :: rest⟩)
    (ok : PlaceOk fs ⟨lead, position, name :: rest⟩)
    (advances : fs.advance lead position name rest = .ok place) : Sound fs place := by
  obtain ⟨info, entries, located⟩ := sound.dir
  have later : ∀ other ∈ rest, Component other :=
    fun other member => sound.components other (List.mem_cons_of_mem _ member)
  by_cases isDot : name = dot
  · subst isDot
    rw [FileSystem.advance_dot _ _ located] at advances
    cases advances
    exact sound_of_dir ⟨info, entries, located⟩ later
  by_cases isDotDot : name = dotDot
  · subst isDotDot
    rw [FileSystem.advance_dotDot _ _ located] at advances
    cases advances
    exact sound_of_dir (FileSystem.tail_isDir located) later
  cases foundAt : fs.tree.at? (name :: position) with
  | none =>
      rw [FileSystem.advance_missing _ _ located isDot isDotDot foundAt] at advances
      cases advances
  | some found =>
      cases isLink : targetOf found with
      | none =>
          rw [FileSystem.advance_plain _ _ located isDot isDotDot foundAt isLink] at advances
          split at advances
          · cases advances
          case isFalse passable =>
            cases advances
            refine ⟨⟨found, foundAt, isLink, fun more => ?_⟩, later⟩
            exact not_not.mp fun notDir => passable ⟨more, notDir⟩
      | some target =>
          rw [FileSystem.advance_link _ _ located isDot isDotDot foundAt isLink] at advances
          have targetFits := (ok.links name rest found target rfl foundAt isLink).1
          have components := component_of_pieces (targets.noTerminator _ _ _ foundAt isLink)
            targetFits
          split at advances
          · cases advances
            exact sound_of_dir (root_dir fs) later
          · cases advances
            refine sound_of_dir ?_ fun other member => ?_
            · rw [linkOrigin]
              split
              · exact root_dir fs
              · exact ⟨info, entries, located⟩
            · exact (List.mem_append.mp member).elim (components other) (later other)

theorem reachable_onward {lead : CString} {position : Position CString} {name : CString}
    {rest : List CString} {place later : Place}
    (advances : fs.advance lead position name rest = .ok place)
    (reachable : (fs.resolution place).Reachable later) :
    (fs.resolution ⟨lead, position, name :: rest⟩).Reachable later := by
  obtain ⟨_, rfl, run⟩ := reachable
  exact ⟨_, rfl, run.head ⟨name, rest, rfl, advances⟩⟩

/-- The string in the buffer is a pathname of the position. -/
def Shows (buffer : List UInt8) (position : Position CString) : Prop :=
  ∃ lead, IsLead lead ∧
    CBuffer.string 0 buffer =
      (if pathText lead position = [] then [slash] else pathText lead position) ∧
    (pathText lead position).length < PATH_MAX

theorem Ready.shows {buffer : List UInt8} {lrp_p : Nat} {lead : CString}
    {position : Position CString} {pending : List CString}
    (ready : Ready buffer lrp_p lead position pending) (ended : nextComponent pending = none)
    {found : Tree} (located : fs.tree.at? position = some found) : Shows buffer position := by
  obtain ⟨isLead, starts⟩ := ready.at_end ended
  have room := starts.length_le
  rw [ready.size, List.length_append, List.length_singleton] at room
  have free : (0 : UInt8) ∉ pathText lead position :=
    pathText_noTerminator isLead fun name member =>
      (FileSystem.validName_of_mem located name member).noTerminator
  refine ⟨lead, isLead, CBuffer.string_eq ?_ starts, ?_⟩
  · split
    · decide
    · exact free
  · split at room
    case isTrue empty => rw [empty]; decide
    case isFalse => omega

/-- The kernel follows the string to the position. -/
theorem Shows.find {buffer : List UInt8} {position : Position CString} {found : Tree}
    (shows : Shows buffer position) (located : fs.tree.at? position = some found)
    (noLink : targetOf found = none) (follow : Bool) (cwd : Position CString) :
    fs.find follow cwd (CBuffer.string 0 buffer) = .ok (position, found) := by
  obtain ⟨lead, isLead, string, room⟩ := shows
  rw [string]
  cases position with
  | nil =>
      have isSlash : (if pathText lead [] = [] then [slash] else pathText lead []) = [slash] := by
        rcases isLead with rfl | rfl <;> rfl
      rw [isSlash]
      cases located
      have admissible : FileSystem.Admissible [slash] := ⟨by decide, by decide, nofun⟩
      refine FileSystem.find_of_lookup ?_ rfl fun _ => fs.rootIsDir
      rw [FileSystem.lookup_eq_resolve follow cwd admissible]
      rfl
  | cons name parent =>
      have valid := FileSystem.validName_of_mem located name List.mem_cons_self
      obtain ⟨info, entries, parentAt⟩ := FileSystem.tail_isDir located
      rw [if_neg (pathText_ne_nil (List.cons_ne_nil _ _))]
      exact find_pathText isLead parentAt
        ⟨valid.notEmpty, valid.noSlash, valid.noTerminator, valid.fits⟩ valid.notDot
        valid.notDotDot room cwd located fun _ => noLink

variable (leftover process) in
/-- The run lemma: from a state that is ready, the loop ends where the resolution
does. The induction is on the resolution. -/
theorem resolveComponents_spec (targets : fs.ValidTargets) {place : Place}
    {result : Except Errno (Position CString)} (resolves : fs.Resolves place result) :
    ∀ {buffer : List UInt8} {lrp_p : Nat}, Sound fs place →
      (∀ later, (fs.resolution place).Reachable later → PlaceOk fs later) →
      Ready buffer lrp_p place.lead place.position place.pending →
      ∃ bound, ∀ fuel, bound ≤ fuel →
        match result with
        | .error _ => ∃ errno, resolveComponents (treeKernel fs leftover) fuel
            ⟨buffer, lrp_p, place.pending⟩ process = .ok (.error errno, process)
        | .ok position => ∃ buffer' found, resolveComponents (treeKernel fs leftover) fuel
            ⟨buffer, lrp_p, place.pending⟩ process = .ok (.ok buffer', process) ∧
              Shows buffer' position ∧ fs.tree.at? position = some found ∧
              targetOf found = none := by
  induction resolves with
  | arrived lead position =>
      intro buffer lrp_p sound _ ready
      obtain ⟨found, located, noLink, _⟩ := sound.located
      refine ⟨0, fun fuel _ => ⟨buffer, found, ?_, ready.shows rfl located, located, noLink⟩⟩
      rw [resolveComponents_nil]
      rfl
  | @failed lead position name rest errno fails =>
      intro buffer lrp_p sound ok ready
      obtain ⟨info, entries, located⟩ := sound.dir
      have stepped := resolveComponent_spec leftover process targets located
        (sound.components name List.mem_cons_self) ready (ok _ (.of_init rfl))
      rw [fails] at stepped
      obtain ⟨errno', stepped⟩ := stepped
      refine ⟨1, fun fuel enough => ⟨errno', ?_⟩⟩
      obtain ⟨fuel, rfl⟩ := Nat.exists_eq_succ_of_ne_zero (Nat.ne_of_gt enough)
      exact resolveComponents_failed stepped fuel
  | @onward lead position name rest place result advances _ inductionHypothesis =>
      intro buffer lrp_p sound ok ready
      obtain ⟨info, entries, located⟩ := sound.dir
      have here := ok _ (.of_init rfl)
      have stepped := resolveComponent_spec leftover process targets located
        (sound.components name List.mem_cons_self) ready here
      rw [advances] at stepped
      obtain ⟨buffer', lrp_p', stepped, ready'⟩ := stepped
      obtain ⟨bound, runs⟩ := inductionHypothesis (advance_sound targets sound here advances)
        (fun later reachable => ok later (reachable_onward advances reachable)) ready'
      refine ⟨bound + 1, fun fuel enough => ?_⟩
      obtain ⟨fuel, rfl⟩ : ∃ less, fuel = less + 1 :=
        Nat.exists_eq_succ_of_ne_zero (by omega)
      rw [resolveComponents_next stepped]
      exact runs fuel (by omega)

end Runs

end LinuxProgramming.Files
