import LinuxProgramming.Files.NftwStop
import LinuxProgramming.Files.Resolution

/-!
Contract: what `my_nftw` visits in a tree without symbolic links.

Owns:
- `listing`, the files of a tree in the order of a walk, without those on other
  devices if `FTW_MOUNT` is set;
- the survey of a tree, and with it the whole walk if the callback always
  returns 0.

Does not own: walks with `FTW_CHDIR`, or calls that fail.
-/

namespace LinuxProgramming.Files

open LinuxProgramming.Library

/-! ### Pathnames that lead to a position -/

namespace FileSystem

variable {fs : FileSystem}

/-- Without links, a pathname leads from the working directory to a position. -/
structure Leads (fs : FileSystem) (cwd : Position CString) (pathname : CString)
    (position : Position CString) : Prop where
  admissible : Admissible pathname
  walked : fs.walk (origin cwd pathname) (Pathname.pieces slash pathname) = .ok position

theorem leads_of_find {follow : Bool} {cwd position : Position CString} {pathname : CString}
    {found : Tree} (noLinks : fs.NoLinks)
    (finds : fs.find follow cwd pathname = .ok (position, found)) :
    fs.Leads cwd pathname position ∧ fs.tree.at? position = some found := by
  obtain ⟨looked, located, _⟩ := lookup_of_find finds
  have admissible := admissible_of_lookup looked
  exact ⟨⟨admissible, by rw [← looked, lookup_eq_walk noLinks follow cwd admissible]⟩, located⟩

section Entry

variable {cwd position : Position CString} {pathname name : CString} {info : Inode}
  {entries : List (CString × Tree)} {found : Tree}

/-- The pathname of an entry leads to the entry. -/
theorem Leads.entry (leads : fs.Leads cwd pathname position)
    (located : fs.tree.at? position = some (.dir info entries)) (valid : ValidName name)
    (foundAt : fs.tree.at? (name :: position) = some found)
    (short : (pathname ++ slash :: name).length < PATH_MAX) :
    fs.Leads cwd (pathname ++ slash :: name) (name :: position) := by
  have pieces : Pathname.pieces slash (pathname ++ slash :: name) =
      Pathname.pieces slash pathname ++ [name] := by
    rw [Pathname.pieces_append_separator,
      Pathname.pieces_of_notMem slash valid.noSlash valid.notEmpty]
  have sameOrigin : origin cwd (pathname ++ slash :: name) = origin cwd pathname := by
    cases pathname with
    | nil => exact absurd rfl leads.admissible.notEmpty
    | cons first rest => rfl
  constructor
  · refine ⟨by simp, short, fun piece member => ?_⟩
    rw [pieces] at member
    rcases List.mem_append.mp member with before | last
    · exact leads.admissible.namesFit piece before
    · rw [List.mem_singleton.mp last]
      exact valid.fits
  · rw [sameOrigin, pieces, walk_append, leads.walked]
    show fs.walk position [name] = _
    rw [walk_cons, step_name located valid.notDot valid.notDotDot foundAt]
    rfl

theorem Leads.find_entry (noLinks : fs.NoLinks) (valid : ValidName name)
    (foundAt : fs.tree.at? (name :: position) = some found)
    (leads : fs.Leads cwd (pathname ++ slash :: name) (name :: position)) (follow : Bool) :
    fs.find follow cwd (pathname ++ slash :: name) = .ok (name :: position, found) := by
  refine find_of_walk noLinks follow cwd leads.admissible leads.walked foundAt fun last => ?_
  rw [List.getLast?_append, List.getLast?_cons_of_ne_nil valid.notEmpty] at last
  rw [List.getLast?_eq_some_getLast valid.notEmpty, Option.some_or] at last
  exact absurd (Option.some.inj last ▸ List.getLast_mem valid.notEmpty) valid.noSlash

end Entry

end FileSystem

/-! ### The listing of a tree -/

/-- The pathname the walk builds for a file below its start. -/
def pathnameOf (dirpath : CString) : Position CString → CString
  | [] => dirpath
  | name :: parent => pathnameOf dirpath parent ++ slash :: name

/-- The callback for a file of the tree. -/
def visitOf (dirpath : CString) (listed : Position CString × Tree) : Visit where
  pathname := pathnameOf dirpath listed.1
  statbuf := statOf listed.2
  typeflag := if listed.2.IsDir then .FTW_D else .FTW_F
  base := scanBase (pathnameOf dirpath listed.1) (pathnameOf dirpath listed.1).length
  level := listed.1.length

/-- A file and everything above it, up to the start, is on the device of the
start. -/
def sameDevice (tree : Tree) : Position CString → Bool
  | [] => true
  | name :: parent =>
      sameDevice tree parent &&
        decide ((tree.at? (name :: parent)).map (fun found => (inodeOf found).st_dev) =
          some (inodeOf tree).st_dev)

def kept (flags : Flags) (tree : Tree) (position : Position CString) : Bool :=
  !flags.FTW_MOUNT || sameDevice tree position

def inOrder (flags : Flags) (base : Position CString) (tree : Tree) :
    List (Position CString × Tree) :=
  if flags.FTW_DEPTH then tree.postorder base else tree.preorder base

/-- The files of a tree in the order of a walk. -/
def listing (flags : Flags) (tree : Tree) : List (Position CString × Tree) :=
  (inOrder flags [] tree).filter fun listed => kept flags tree listed.1

section Listing

variable {flags : Flags} {tree : Tree}

theorem inOrder_perm (flags : Flags) (base : Position CString) (tree : Tree) :
    (inOrder flags base tree).Perm (tree.preorder base) := by
  rw [inOrder]
  split
  · exact FileTree.postorder_perm base tree
  · exact List.Perm.refl _

/-- What is listed is what the tree holds, less what is not kept. -/
theorem mem_listing_iff (unique : tree.UniqueNames) (position : Position CString) (found : Tree) :
    (position, found) ∈ listing flags tree ↔
      tree.at? position = some found ∧ kept flags tree position = true := by
  rw [listing, List.mem_filter, (inOrder_perm flags [] tree).mem_iff,
    FileTree.mem_preorder_iff unique]

/-- No file is listed twice. -/
theorem listing_nodup (unique : tree.UniqueNames) :
    ((listing flags tree).map Prod.fst).Nodup := by
  have whole : ((inOrder flags [] tree).map Prod.fst).Nodup :=
    ((inOrder_perm flags [] tree).map Prod.fst).nodup_iff.mpr (FileTree.preorder_nodup unique [])
  exact whole.sublist (List.filter_sublist.map Prod.fst)

theorem kept_parent {name : CString} {parent : Position CString}
    (child : kept flags tree (name :: parent) = true) : kept flags tree parent = true := by
  simp only [kept, sameDevice, Bool.or_eq_true, Bool.and_eq_true] at child ⊢
  exact child.imp_right And.left

theorem kept_of_below {below base : Position CString}
    (inside : kept flags tree (below ++ base) = true) : kept flags tree base = true := by
  induction below with
  | nil => exact inside
  | cons name parent inductionHypothesis => exact inductionHypothesis (kept_parent inside)

/-- Below a directory that is not kept, nothing is. -/
theorem filter_eq_nil {base : Position CString} {found : Tree}
    (dropped : kept flags tree base = false) :
    (inOrder flags base found).filter (fun listed => kept flags tree listed.1) = [] := by
  rw [List.filter_eq_nil_iff]
  rintro ⟨position, inside⟩ listed
  obtain ⟨below, rfl⟩ :=
    FileTree.below_of_mem_preorder ((inOrder_perm flags base found).mem_iff.mp listed)
  intro isKept
  rw [kept_of_below isKept] at dropped
  cases dropped

end Listing

/-! ### The survey of a tree -/

section Survey

variable {fs : FileSystem} {leftover : Stat} {flags : Flags}

theorem exists_common_bound {α : Type} {items : List α} {holds : α → Nat → Prop}
    (each : ∀ item ∈ items, ∃ bound, ∀ fuel, bound ≤ fuel → holds item fuel) :
    ∃ bound, ∀ fuel, bound ≤ fuel → ∀ item ∈ items, holds item fuel := by
  induction items with
  | nil => exact ⟨0, fun _ _ _ member => nomatch member⟩
  | cons item rest inductionHypothesis =>
      obtain ⟨first, ofFirst⟩ := each item List.mem_cons_self
      obtain ⟨others, ofOthers⟩ :=
        inductionHypothesis fun other member => each other (List.mem_cons_of_mem _ member)
      refine ⟨max first others, fun fuel enough => List.forall_mem_cons.mpr ⟨?_, ?_⟩⟩
      · exact ofFirst fuel (by omega)
      · exact ofOthers fuel (by omega)

theorem statEntry_of_find {process : Process} {pathname : CString}
    {position : Position CString} {found : Tree} (flags : Flags)
    (finds : ∀ follow, fs.find follow process.cwd pathname = .ok (position, found)) :
    statEntry (treeKernel fs leftover) flags pathname process =
      .ok ((none, statOf found), process) := by
  rw [statEntry]
  split
  · rw [call, treeKernel_lstat (finds false)]
  · rw [call, treeKernel_stat (finds true)]

/-- The loop over the entries, if each entry is surveyed without changing the
process. The induction is on what is left of the stream; `rest` are the entries
it still delivers. -/
theorem surveyEntries_tree (noChdir : flags.FTW_CHDIR = false)
    {self : CString → Prog Process Survey} {dirpath : CString} {process : Process}
    (visitsOf : CString × Tree → List Visit) :
    ∀ {stream : List CString} {rest : List (CString × Tree)} {fuel : Nat},
      stream.filter (fun name => name ≠ dot ∧ name ≠ dotDot) = rest.map Prod.fst →
      (∀ entry ∈ rest, (dirpath ++ slash :: entry.1).length < PATH_MAX ∧
        (∃ status, statEntry (treeKernel fs leftover) flags (dirpath ++ slash :: entry.1) process =
          .ok (status, process)) ∧
        self (dirpath ++ slash :: entry.1) process = .ok ((visitsOf entry, 0), process)) →
      stream.length < fuel →
      surveyEntries (treeKernel fs leftover) flags self dirpath fuel stream process =
        .ok ((rest.flatMap visitsOf, some []), process) := by
  intro stream
  induction stream with
  | nil =>
      intro rest fuel delivers each enough
      obtain ⟨fuel, rfl⟩ := Nat.exists_eq_succ_of_ne_zero (Nat.ne_of_gt enough)
      cases rest with
      | nil => rfl
      | cons entry rest => cases delivers
  | cons name stream inductionHypothesis =>
      intro rest fuel delivers each enough
      obtain ⟨fuel, rfl⟩ : ∃ less, fuel = less + 1 :=
        Nat.exists_eq_succ_of_ne_zero (Nat.ne_of_gt (Nat.zero_lt_of_lt enough))
      have enough' : stream.length < fuel := by
        simp only [List.length_cons] at enough
        omega
      have read : (treeKernel fs leftover).readdir (name :: stream) process =
          (.entry name stream, process) := rfl
      rw [surveyEntries, call_bind _ read]
      dsimp only
      by_cases dots : name = dotDot ∨ name = dot
      · rw [if_pos dots]
        have skipped : ¬ decide (name ≠ dot ∧ name ≠ dotDot) = true := by
          rw [decide_eq_true_eq]
          exact fun named => dots.elim named.2 named.1
        rw [List.filter_cons_of_neg (by exact skipped)] at delivers
        exact inductionHypothesis delivers each enough'
      · rw [if_neg dots]
        have named : decide (name ≠ dot ∧ name ≠ dotDot) = true :=
          decide_eq_true ⟨(not_or.mp dots).2, (not_or.mp dots).1⟩
        rw [List.filter_cons_of_pos (by exact named)] at delivers
        cases rest with
        | nil => cases delivers
        | cons entry rest =>
            rw [List.map_cons, List.cons.injEq] at delivers
            obtain ⟨rfl, delivers⟩ := delivers
            obtain ⟨short, ⟨status, stated⟩, surveyed⟩ := each entry List.mem_cons_self
            have fits : ¬ PATH_MAX < dirpath.length + 1 + entry.1.length + 1 := by
              simp only [List.length_append, List.length_cons] at short
              omega
            have stays : enter (treeKernel fs leftover) flags (dirpath ++ slash :: entry.1) status
                process = .ok (.stayed, process) := by
              rw [enter, if_neg (by simp [noChdir])]
              rfl
            have later := inductionHypothesis delivers
              (fun other member => each other (List.mem_cons_of_mem _ member)) enough'
            rw [if_neg fits, bind_ok stated, bind_ok stays, if_neg (by decide), bind_ok surveyed]
            have left : leave (treeKernel fs leftover) .stayed process = .ok (true, process) := rfl
            rw [bind_ok left, if_neg (by decide)]
            dsimp only
            rw [if_neg (by decide), bind_ok later]
            rfl

variable {tree : Tree} {start cwd : Position CString} {dirpath : CString}

/-- What the walk visits in the part of the tree at `base`. -/
def visitsBelow (flags : Flags) (tree : Tree) (dirpath : CString) (base : Position CString)
    (found : Tree) : List Visit :=
  ((inOrder flags base found).filter fun listed => kept flags tree listed.1).map
    (visitOf dirpath)

theorem visitsBelow_dropped {base : Position CString} {found : Tree}
    (dropped : kept flags tree base = false) : visitsBelow flags tree dirpath base found = [] := by
  rw [visitsBelow, filter_eq_nil dropped, List.map_nil]

theorem visitsBelow_leaf {base : Position CString} {content : Leaf}
    (isKept : kept flags tree base = true) :
    visitsBelow flags tree dirpath base (.leaf content) =
      [visitOf dirpath (base, .leaf content)] := by
  have listed : inOrder flags base (.leaf content : Tree) = [(base, .leaf content)] := by
    rw [inOrder]
    split <;> rfl
  rw [visitsBelow, listed, List.filter_cons_of_pos (by exact isKept)]
  rfl

theorem visitsBelow_dir {base : Position CString} {info : Inode} {entries : List (CString × Tree)}
    (isKept : kept flags tree base = true) :
    visitsBelow flags tree dirpath base (.dir info entries) =
      (if flags.FTW_DEPTH then [] else [visitOf dirpath (base, .dir info entries)]) ++
        (entries.flatMap fun entry =>
          visitsBelow flags tree dirpath (entry.1 :: base) entry.2) ++
        (if flags.FTW_DEPTH then [visitOf dirpath (base, .dir info entries)] else []) := by
  have own : [(base, (.dir info entries : Tree))].filter (fun listed => kept flags tree listed.1) =
      [(base, .dir info entries)] := List.filter_cons_of_pos isKept
  unfold visitsBelow inOrder
  cases flags.FTW_DEPTH with
  | false =>
      simp only [Bool.false_eq_true, if_false, FileTree.preorder, FileTree.preorderEntries_eq]
      rw [← List.singleton_append, List.filter_append, own, List.filter_flatMap, List.map_append,
        List.map_flatMap, List.append_nil]
      rfl
  | true =>
      simp only [if_true, FileTree.postorder, FileTree.postorderEntries_eq]
      rw [List.filter_append, own, List.filter_flatMap, List.map_append, List.map_flatMap,
        List.nil_append]
      rfl

theorem survey_of_stat {fuel depth device : Nat} {process : Process} {status : Stat}
    (stated : statEntry (treeKernel fs leftover) flags dirpath process =
      .ok ((none, status), process)) :
    survey (treeKernel fs leftover) flags (fuel + 1) depth device dirpath process =
      if flags.FTW_MOUNT = true ∧
          (if depth = 0 then status.inode.st_dev else device) ≠ status.inode.st_dev then
        .ok (([], 0), process)
      else if status.st_mode = .directory then
        surveyDirectory (treeKernel fs leftover) flags
          (survey (treeKernel fs leftover) flags fuel (depth + 1)
            (if depth = 0 then status.inode.st_dev else device)) fuel dirpath
          (fun typeflag => ⟨dirpath, status, typeflag, scanBase dirpath dirpath.length, depth⟩)
          process
      else
        surveyFile (treeKernel fs leftover) flags dirpath status
          (fun typeflag => ⟨dirpath, status, typeflag, scanBase dirpath dirpath.length, depth⟩)
          process := by
  rw [survey, bind_ok stated]
  dsimp only
  rw [if_pos (rfl : (none : Option Errno) = none), ite_apply, ite_apply]
  rfl

/-- The walk leaves out exactly what is not kept. -/
theorem leftOut_iff {base : Position CString} {found : Tree} {device : Nat}
    (baseAt : tree.at? base = some found)
    (parentKept : base ≠ [] → kept flags tree base.tail = true)
    (onDevice : base ≠ [] → device = (inodeOf tree).st_dev) :
    (flags.FTW_MOUNT = true ∧
      (if base.length = 0 then (inodeOf found).st_dev else device) ≠ (inodeOf found).st_dev) ↔
      kept flags tree base = false := by
  cases base with
  | nil => simp [kept, sameDevice]
  | cons name parent =>
      have above := parentKept (List.cons_ne_nil _ _)
      have device_eq := onDevice (List.cons_ne_nil _ _)
      simp only [List.tail_cons, kept, Bool.or_eq_true, Bool.not_eq_true'] at above
      rw [if_neg (by simp), device_eq]
      cases mounted : flags.FTW_MOUNT with
      | false => simp [kept, mounted]
      | true =>
          rw [mounted] at above
          have parentSame := above.resolve_left (by simp)
          simp [kept, mounted, sameDevice, parentSame, baseAt, eq_comm]

/-- A directory, if each entry is surveyed without changing the process. -/
theorem surveyDirectory_tree (noChdir : flags.FTW_CHDIR = false) {base position : Position CString}
    {info : Inode} {entries : List (CString × Tree)} {process : Process}
    (isKept : kept flags tree base = true)
    (located : fs.tree.at? position = some (.dir info entries))
    (finds : fs.find true process.cwd (pathnameOf dirpath base) =
      .ok (position, .dir info entries))
    {self : CString → Prog Process Survey}
    (each : ∀ inner : Process, inner.cwd = process.cwd → ∀ entry ∈ entries,
      (pathnameOf dirpath (entry.1 :: base)).length < PATH_MAX ∧
      (∃ status, statEntry (treeKernel fs leftover) flags (pathnameOf dirpath (entry.1 :: base))
        inner = .ok (status, inner)) ∧
      self (pathnameOf dirpath (entry.1 :: base)) inner =
        .ok ((visitsBelow flags tree dirpath (entry.1 :: base) entry.2, 0), inner))
    {fuel : Nat} (enough : (fs.order position).length < fuel) :
    surveyDirectory (treeKernel fs leftover) flags self fuel (pathnameOf dirpath base)
      (fun typeflag => ⟨pathnameOf dirpath base, ⟨info, .directory⟩, typeflag,
        scanBase (pathnameOf dirpath base) (pathnameOf dirpath base).length, base.length⟩)
      process = .ok ((visitsBelow flags tree dirpath base (.dir info entries), 0), process) := by
  let opened : Process := { process with streams := process.streams + 1 }
  have listed : surveyEntries (treeKernel fs leftover) flags self (pathnameOf dirpath base) fuel
      (fs.order position) opened =
        .ok ((entries.flatMap fun entry => visitsBelow flags tree dirpath (entry.1 :: base) entry.2,
          some []), opened) :=
    surveyEntries_tree noChdir _ (fs.order_names _ _ _ located) (each opened rfl) enough
  have closing : (treeKernel fs leftover).closedir (some []) opened = (true, process) := rfl
  have own : visitOf dirpath (base, .dir info entries) =
      ⟨pathnameOf dirpath base, ⟨info, .directory⟩, .FTW_D,
        scanBase (pathnameOf dirpath base) (pathnameOf dirpath base).length, base.length⟩ := rfl
  rw [surveyDirectory, call_bind _ (treeKernel_opendir finds)]
  rw [visitsBelow_dir isKept, own]
  have inside : surveyInside (treeKernel fs leftover) flags self fuel (pathnameOf dirpath base)
      (visitOf dirpath (base, .dir info entries)) (some (fs.order position)) opened =
        .ok ((entries.flatMap (fun entry =>
            visitsBelow flags tree dirpath (entry.1 :: base) entry.2) ++
          if flags.FTW_DEPTH then [visitOf dirpath (base, .dir info entries)] else [], 0),
          process) := by
    rw [surveyInside, bind_ok listed]
    dsimp only
    rw [call_bind _ closing]
    rfl
  rw [own] at inside
  refine (bind_ok inside).trans ?_
  cases flags.FTW_DEPTH with
  | false => simp only [Bool.false_eq_true, if_false, List.append_nil]; rfl
  | true => simp only [if_true, List.nil_append]; rfl

/-- The survey of the part of the tree at `base`. The induction is on that part;
`start` is where the pathname of the walk leads. -/
theorem survey_tree (noLinks : fs.NoLinks) (noChdir : flags.FTW_CHDIR = false)
    (startAt : fs.tree.at? start = some tree)
    (fits : ∀ position found, tree.at? position = some found →
      (pathnameOf dirpath position).length < PATH_MAX) (found : Tree) :
    ∀ (base : Position CString), tree.at? base = some found →
      (base ≠ [] → kept flags tree base.tail = true) →
      fs.Leads cwd (pathnameOf dirpath base) (base ++ start) →
      (∀ follow, fs.find follow cwd (pathnameOf dirpath base) = .ok (base ++ start, found)) →
      ∃ bound, ∀ fuel, bound ≤ fuel → ∀ (process : Process) (device : Nat), process.cwd = cwd →
        (base ≠ [] → device = (inodeOf tree).st_dev) →
        survey (treeKernel fs leftover) flags fuel base.length device (pathnameOf dirpath base)
          process = .ok ((visitsBelow flags tree dirpath base found, 0), process) := by
  induction found using FileTree.induction with
  | leaf content =>
      intro base baseAt parentKept leads finds
      refine ⟨1, fun fuel enough process device standing onDevice => ?_⟩
      obtain ⟨fuel, rfl⟩ := Nat.exists_eq_succ_of_ne_zero (Nat.ne_of_gt enough)
      subst standing
      rw [survey_of_stat (statEntry_of_find flags finds), statOf_inode]
      by_cases leftOut : kept flags tree base = false
      · rw [if_pos ((leftOut_iff baseAt parentKept onDevice).mpr leftOut),
          visitsBelow_dropped leftOut]
      · have plain : targetOf (.leaf content) = none := noLinks (base ++ start) _ (by
          rw [FileTree.at?_append, startAt]
          exact baseAt)
        have mode : (statOf (.leaf content)).st_mode = .other := by
          simp only [statOf, show content.target = none from plain]
          rfl
        rw [if_neg (mt (leftOut_iff baseAt parentKept onDevice).mp leftOut),
          if_neg (by simp [mode]), surveyFile, if_neg (by simp [mode]),
          visitsBelow_leaf (by simpa using leftOut)]
        rfl
  | dir info entries inductionHypothesis =>
      intro base baseAt parentKept leads finds
      have located : fs.tree.at? (base ++ start) = some (.dir info entries) := by
        rw [FileTree.at?_append, startAt]
        exact baseAt
      by_cases leftOut : kept flags tree base = false
      · refine ⟨1, fun fuel enough process device standing onDevice => ?_⟩
        obtain ⟨fuel, rfl⟩ := Nat.exists_eq_succ_of_ne_zero (Nat.ne_of_gt enough)
        subst standing
        rw [survey_of_stat (statEntry_of_find flags finds), statOf_inode,
          if_pos ((leftOut_iff baseAt parentKept onDevice).mpr leftOut),
          visitsBelow_dropped leftOut]
      · have isKept : kept flags tree base = true := by simpa using leftOut
        have entryAt (entry : CString × Tree) (member : entry ∈ entries) :
            tree.at? (entry.1 :: base) = some entry.2 := by
          rw [FileTree.at?_cons, baseAt]
          show (FileTree.dir info entries).child? entry.1 = some entry.2
          exact FileTree.child?_of_mem (fs.distinct _ _ _ located) member
        have entryFinds (entry : CString × Tree) (member : entry ∈ entries) :
            fs.Leads cwd (pathnameOf dirpath (entry.1 :: base)) (entry.1 :: base ++ start) ∧
              ∀ follow, fs.find follow cwd (pathnameOf dirpath (entry.1 :: base)) =
                .ok (entry.1 :: base ++ start, entry.2) := by
          have valid := fs.valid _ _ _ located entry member
          have entryAbove : fs.tree.at? (entry.1 :: base ++ start) = some entry.2 := by
            rw [FileTree.at?_append, startAt]
            exact entryAt entry member
          have entryLeads := leads.entry located valid entryAbove (fits _ _ (entryAt entry member))
          exact ⟨entryLeads, entryLeads.find_entry noLinks valid entryAbove⟩
        obtain ⟨bound, surveyed⟩ := exists_common_bound fun entry member =>
          inductionHypothesis entry member (entry.1 :: base) (entryAt entry member)
            (fun _ => isKept) (entryFinds entry member).1 (entryFinds entry member).2
        refine ⟨max bound ((fs.order (base ++ start)).length + 1) + 1,
          fun fuel enough process device standing onDevice => ?_⟩
        obtain ⟨fuel, rfl⟩ : ∃ less, fuel = less + 1 :=
          Nat.exists_eq_succ_of_ne_zero (by omega)
        subst standing
        rw [survey_of_stat (statEntry_of_find flags finds), statOf_inode,
          if_neg (mt (leftOut_iff baseAt parentKept onDevice).mp leftOut)]
        refine surveyDirectory_tree noChdir isKept located (finds true) ?_ (by omega)
        intro inner standing entry member
        have innerFinds : ∀ follow, fs.find follow inner.cwd
            (pathnameOf dirpath (entry.1 :: base)) = .ok (entry.1 :: base ++ start, entry.2) :=
          standing ▸ (entryFinds entry member).2
        refine ⟨fits _ _ (entryAt entry member), ⟨_, statEntry_of_find flags innerFinds⟩, ?_⟩
        · refine surveyed fuel (by omega) entry member inner _ standing fun _ => ?_
          split
          case isTrue isStart =>
            cases List.length_eq_zero_iff.mp isStart
            cases baseAt
            rfl
          case isFalse below => exact onDevice (mt List.length_eq_zero_iff.mpr below)

end Survey

section Walks

variable {fs : FileSystem} {leftover : Stat} {flags : Flags} {process : Process}
  {dirpath : CString} {start : Position CString} {tree : Tree}

theorem find_anyhow (noLinks : fs.NoLinks)
    (finds : fs.find true process.cwd dirpath = .ok (start, tree)) (follow : Bool) :
    fs.find follow process.cwd dirpath = .ok (start, tree) := by
  obtain ⟨leads, _⟩ := FileSystem.leads_of_find noLinks finds
  rw [FileSystem.find, FileSystem.lookup_eq_walk noLinks follow _ leads.admissible,
    ← FileSystem.lookup_eq_walk noLinks true _ leads.admissible, ← FileSystem.find]
  exact finds

/-- One walk, whatever the device and the callbacks of earlier ones. -/
theorem myNftw_visits (noLinks : fs.NoLinks) (noChdir : flags.FTW_CHDIR = false)
    (finds : fs.find true process.cwd dirpath = .ok (start, tree))
    (fits : ∀ position found, tree.at? position = some found →
      (pathnameOf dirpath position).length < PATH_MAX) :
    ∃ bound, ∀ fuel, bound ≤ fuel → ∀ devno visits, ∃ devno',
      myNftw (treeKernel fs leftover) flags (fun _ => 0) fuel dirpath
          ⟨process, 0, devno, visits⟩ =
        .ok (0, ⟨process, 0, devno', visits ++ (listing flags tree).map (visitOf dirpath)⟩) := by
  obtain ⟨leads, startAt⟩ := FileSystem.leads_of_find noLinks finds
  obtain ⟨bound, surveyed⟩ := survey_tree noLinks noChdir startAt fits tree [] rfl
    (fun notEmpty => absurd rfl notEmpty) leads (find_anyhow noLinks finds)
  refine ⟨bound, fun fuel enough devno visits => ?_⟩
  have complete : survey (treeKernel fs leftover) flags fuel 0 devno dirpath process =
      .ok (((listing flags tree).map (visitOf dirpath), 0), process) :=
    surveyed fuel enough process devno rfl fun notEmpty => absurd rfl notEmpty
  obtain ⟨_, retval, walk', ran, replays⟩ := myNftw_replays (fun _ => 0)
    (treeKernel_descriptors fs leftover) fuel ⟨process, 0, devno, visits⟩ rfl
    (fun _ deep => absurd deep (Nat.lt_irrefl 0)) complete
  have goesOn : replay (fun _ => 0) visits ((listing flags tree).map (visitOf dirpath)) =
      (visits ++ (listing flags tree).map (visitOf dirpath), none) :=
    replay_quiet fun _ _ _ _ => rfl
  have value : retval = 0 := by
    rw [replays.value, goesOn]
    rfl
  have visited : walk'.visits = visits ++ (listing flags tree).map (visitOf dirpath) :=
    replays.visits.trans (congrArg Prod.fst goesOn)
  obtain ⟨sameWorld, sameLevel, _⟩ := replays.goesOn value
  refine ⟨walk'.devno, ?_⟩
  rw [ran, value]
  cases walk'
  cases sameWorld
  cases sameLevel
  cases visited
  rfl

end Walks

/-- In every tree without links, from every start, with every combination of
`FTW_PHYS`, `FTW_DEPTH` and `FTW_MOUNT`, and with a callback that always returns
0: the walk returns 0, its callbacks are those of the listing, which holds every
file that is kept exactly once, and it leaves the process and the level as they
were. A second walk does the same. -/
theorem myNftw_visits_listing (fs : FileSystem) (leftover : Stat) (noLinks : fs.NoLinks)
    (flags : Flags) (noChdir : flags.FTW_CHDIR = false) (process : Process) (dirpath : CString)
    (start : Position CString) (tree : Tree)
    (finds : fs.find true process.cwd dirpath = .ok (start, tree))
    (fits : ∀ position found, tree.at? position = some found →
      (pathnameOf dirpath position).length < PATH_MAX) :
    ((listing flags tree).map Prod.fst).Nodup ∧
    (∀ position found, (position, found) ∈ listing flags tree ↔
      tree.at? position = some found ∧ kept flags tree position = true) ∧
    ∃ bound, ∀ fuel, bound ≤ fuel → ∀ devno visits, ∃ devno' devno'',
      myNftw (treeKernel fs leftover) flags (fun _ => 0) fuel dirpath
          ⟨process, 0, devno, visits⟩ =
        .ok (0, ⟨process, 0, devno', visits ++ (listing flags tree).map (visitOf dirpath)⟩) ∧
      myNftw (treeKernel fs leftover) flags (fun _ => 0) fuel dirpath
          ⟨process, 0, devno', visits ++ (listing flags tree).map (visitOf dirpath)⟩ =
        .ok (0, ⟨process, 0, devno'', visits ++ (listing flags tree).map (visitOf dirpath) ++
          (listing flags tree).map (visitOf dirpath)⟩) := by
  have unique : tree.UniqueNames :=
    fs.uniqueNames.at? (FileSystem.leads_of_find noLinks finds).2
  refine ⟨listing_nodup unique, mem_listing_iff unique, ?_⟩
  obtain ⟨bound, walks⟩ := myNftw_visits noLinks noChdir finds fits
  refine ⟨bound, fun fuel enough devno visits => ?_⟩
  obtain ⟨devno', first⟩ := walks fuel enough devno visits
  obtain ⟨devno'', second⟩ := walks fuel enough devno' _
  exact ⟨devno', devno'', first, second⟩

/-- The root holds the directory `a` with the file `b`, and the directory `m` on
another device with the file `c`. -/
def mountedTree : Tree :=
  .dir ⟨1, 1⟩ [([97], .dir ⟨1, 2⟩ [([98], .leaf ⟨⟨1, 3⟩, none⟩)]),
    ([109], .dir ⟨2, 1⟩ [([99], .leaf ⟨⟨2, 2⟩, none⟩)])]

def mounted : FileSystem := FileSystem.ofTree mountedTree trivial (by decide)

example : (listing ⟨true, true, true, false⟩ mountedTree).map Prod.fst =
    [[[98], [97]], [[97]], []] := by decide

theorem myNftw_visits_listing_mounted :
    ∃ bound, ∀ fuel, bound ≤ fuel → ∃ devno',
      myNftw (treeKernel mounted ⟨⟨0, 0⟩, .other⟩) ⟨true, true, true, false⟩ (fun _ => 0) fuel
          [slash] ⟨⟨[], [], 0⟩, 0, 0, []⟩ =
        .ok (0, ⟨⟨[], [], 0⟩, 0, devno',
          (listing ⟨true, true, true, false⟩ mountedTree).map (visitOf [slash])⟩) := by
  have noLinks : mounted.NoLinks := by
    intro position found located
    have plain : ∀ listed ∈ mountedTree.preorder [], targetOf listed.2 = none := by
      simp [mountedTree, FileTree.preorder, FileTree.preorderEntries, targetOf]
    exact plain _ (FileTree.mem_preorder located)
  have fits : ∀ position found, mountedTree.at? position = some found →
      (pathnameOf [slash] position).length < PATH_MAX := by
    intro position found located
    have short : ∀ listed ∈ mountedTree.preorder [],
        (pathnameOf [slash] listed.1).length < PATH_MAX := by
      simp [mountedTree, FileTree.preorder, FileTree.preorderEntries, pathnameOf, PATH_MAX]
    exact short _ (FileTree.mem_preorder located)
  obtain ⟨_, _, bound, walks⟩ := myNftw_visits_listing mounted ⟨⟨0, 0⟩, .other⟩ noLinks
    ⟨true, true, true, false⟩ rfl ⟨[], [], 0⟩ [slash] [] mountedTree rfl fits
  refine ⟨bound, fun fuel enough => ?_⟩
  obtain ⟨devno', _, first, _⟩ := walks fuel enough 0 []
  exact ⟨devno', first⟩

end LinuxProgramming.Files
