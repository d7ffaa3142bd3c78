import LinuxProgramming.Library.LinkedCells
import LinuxProgramming.Files.RealpathState

/-!
Contract: `get_part_path` with its nodes in memory.

Owns:
- the loop with its pointers, the blocks that `malloc` returns and the bytes of a name, a store
  outside of a block or through a pointer that leads nowhere being none;
- the list that it returns, its end, and what is linked behind the end;
- the agreement with `getPartPath`.

Does not own: a `malloc` that fails, and the release of the nodes.
-/

namespace LinuxProgramming.Files

open LinuxProgramming.Library

/-- `part_path_name_node *` behind `ppnn_end`: the local `ppnn_head`, or a node. -/
inductive NodePointer where
  | head
  | node (address : Nat)
deriving DecidableEq, Repr

/-- The nodes that are allocated, and those that will be: `malloc` returns blocks that are free,
with whatever is in them. -/
structure NodeHeap where
  cells : Cells (List UInt8)
  malloc : Nat → Nat
  contents : Nat → Cell (List UInt8)
  distinct : Function.Injective malloc
  free : ∀ count, cells (malloc count) = none
  size : ∀ address, (contents address).item.length = NAME_MAX + 1

/-- The variables of the loop, with the number of blocks that were allocated. -/
structure Scan where
  cells : Cells (List UInt8)
  mallocs : Nat
  ppnn_head_next : Link
  ppnn_end : NodePointer
  ppnn_tmp : Link
  p_index : Nat

/-! ### The loop -/

/-- `pointer->next = next`. -/
def Scan.setNext (scan : Scan) (pointer : NodePointer) (next : Link) : Option Scan :=
  match pointer with
  | .head => some { scan with ppnn_head_next := next }
  | .node address =>
      (scan.cells address).map fun cell =>
        { scan with cells := Function.update scan.cells address (some ⟨cell.item, next⟩) }

/-- `ppnn_tmp->name[index] = byte`. -/
def Scan.setName (scan : Scan) (index : Nat) (byte : UInt8) : Option Scan := do
  let address ← scan.ppnn_tmp
  let cell ← scan.cells address
  let name ← CBuffer.write? cell.item index [byte]
  return { scan with cells := Function.update scan.cells address (some ⟨name, cell.next⟩) }

/-- `ppnn_tmp = malloc(sizeof(part_path_name_node)); ppnn_tmp->next = NULL`. -/
def Scan.newNode (heap : NodeHeap) (scan : Scan) : Option Scan :=
  let address := heap.malloc scan.mallocs
  let scan :=
    { scan with
      cells := Function.update scan.cells address (some (heap.contents address))
      mallocs := scan.mallocs + 1
      ppnn_tmp := some address }
  scan.setNext (.node address) none

/-- The node for a byte: a new one, if it is the first of its name. -/
def Scan.prepare (heap : NodeHeap) (scan : Scan) : Option Scan :=
  if scan.p_index = 0 then scan.newNode heap else some scan

/-- A byte of a name. -/
def Scan.read (heap : NodeHeap) (scan : Scan) (symbol : UInt8) : Option Scan := do
  let scan ← scan.prepare heap
  let scan ← scan.setName scan.p_index symbol
  return { scan with p_index := scan.p_index + 1 }

/-- A slash or the terminator, up to the test for the latter. -/
def Scan.finish (scan : Scan) : Option Scan :=
  if scan.p_index ≠ 0 then do
    let scan ← scan.setName scan.p_index 0
    let scan ← scan.setNext scan.ppnn_end scan.ppnn_tmp
    let address ← scan.ppnn_tmp
    return { scan with ppnn_end := .node address }
  else some scan

/-- The loop over the memory from `p_ptr` on. -/
def scanPath (heap : NodeHeap) : List UInt8 → Scan → Option Scan
  | [], _ => none
  | symbol :: rest, scan =>
      if symbol ≠ slash ∧ symbol ≠ 0 then (scan.read heap symbol).bind (scanPath heap rest)
      else
        scan.finish.bind fun scan =>
          if symbol = 0 then some scan else scanPath heap rest { scan with p_index := 0 }

/-- What `get_part_path` leaves: the nodes, its result and `*ppnn_end`. -/
structure NodeList where
  cells : Cells (List UInt8)
  first : Link
  ppnn_end : NodePointer

/-- `get_part_path`, for the memory at `pathname`. -/
def getPartPathNodes (heap : NodeHeap) (pathname : Option (List UInt8)) : Option NodeList :=
  match pathname with
  | none => some ⟨heap.cells, none, .head⟩
  | some memory =>
      (scanPath heap memory ⟨heap.cells, 0, none, .head, none, 0⟩).map fun scan =>
        ⟨scan.cells, scan.ppnn_head_next, scan.ppnn_end⟩

/-- `ppnn_end->next = next`, in `my_realpath`: the local `ppnn_head` is gone by then. -/
def NodeList.splice (list : NodeList) (next : Link) : Option NodeList :=
  match list.ppnn_end with
  | .head => none
  | .node address =>
      (list.cells address).map fun cell =>
        { list with cells := Function.update list.cells address (some ⟨cell.item, next⟩) }

/-! ### What the loop keeps -/

/-- The last of some nodes. -/
def endOf (nodes : List (Nat × List UInt8)) : NodePointer :=
  match nodes.getLast? with
  | none => .head
  | some node => .node node.1

/-- The node under construction holds the bytes of a name that were read, and nothing leads
to it. -/
def Current (heap : NodeHeap) (scan : Scan) (nodes : List (Nat × List UInt8)) (name : CString) :
    Prop :=
  ∃ address item, scan.ppnn_tmp = some address ∧ heap.cells address = none ∧
    address ∉ nodes.map Prod.fst ∧ scan.cells address = some ⟨item, none⟩ ∧ name <+: item ∧
    item.length = NAME_MAX + 1

/-- The finished nodes; what was allocated before is as it was. -/
structure Listed (heap : NodeHeap) (scan : Scan) (nodes : List (Nat × List UInt8)) : Prop where
  segment : Cells.Segment scan.cells scan.ppnn_head_next nodes none
  ended : scan.ppnn_end = endOf nodes
  unused : ∀ count, scan.mallocs ≤ count → scan.cells (heap.malloc count) = none
  new : ∀ node ∈ nodes, heap.cells node.1 = none
  frame : ∀ address, heap.cells address ≠ none → scan.cells address = heap.cells address

variable {heap : NodeHeap} {scan : Scan} {nodes : List (Nat × List UInt8)} {name : CString}

/-- A cell that is neither finished nor yet to be allocated is changed. -/
theorem Listed.update (listed : Listed heap scan nodes) {address : Nat}
    (absent : address ∉ nodes.map Prod.fst) (new : heap.cells address = none) {mallocs : Nat}
    (later : scan.mallocs ≤ mallocs) (used : ∀ count, mallocs ≤ count → heap.malloc count ≠ address)
    (cell : Cell (List UInt8)) (ppnn_tmp : Link) :
    Listed heap
      { scan with cells := Function.update scan.cells address (some cell), mallocs, ppnn_tmp }
      nodes where
  segment := Cells.segment_update listed.segment absent _
  ended := listed.ended
  unused count from_ :=
    (Function.update_of_ne (used count from_) _ _).trans
      (listed.unused count (Nat.le_trans later from_))
  new := listed.new
  frame other old := by
    have different : other ≠ address := by
      rintro rfl
      exact old new
    exact (Function.update_of_ne different _ _).trans (listed.frame other old)

/-- The node under construction is none that will be allocated. -/
theorem Listed.used (listed : Listed heap scan nodes) {address : Nat} {cell : Cell (List UInt8)}
    (found : scan.cells address = some cell) (count : Nat) (from_ : scan.mallocs ≤ count) :
    heap.malloc count ≠ address := by
  rintro rfl
  rw [listed.unused count from_] at found
  cases found

theorem Listed.newNode (listed : Listed heap scan nodes) :
    ∃ scan', scan.newNode heap = some scan' ∧ Listed heap scan' nodes ∧
      Current heap scan' nodes [] ∧ scan'.p_index = scan.p_index := by
  have free := listed.unused scan.mallocs (Nat.le_refl _)
  have absent : heap.malloc scan.mallocs ∉ nodes.map Prod.fst := by
    intro member
    obtain ⟨node, isNode, same⟩ := List.mem_map.mp member
    exact Cells.allocated_of_mem listed.segment isNode (same ▸ free)
  have used : ∀ count, scan.mallocs + 1 ≤ count →
      heap.malloc count ≠ heap.malloc scan.mallocs := fun count from_ same =>
    absurd (heap.distinct same) (Nat.ne_of_gt from_)
  have listed' := listed.update absent (heap.free _) (Nat.le_succ _) used
    ⟨(heap.contents (heap.malloc scan.mallocs)).item, none⟩ (some (heap.malloc scan.mallocs))
  refine ⟨_, ?_, listed', ⟨_, _, rfl, heap.free _, absent, Function.update_self _ _ _,
    List.nil_prefix, heap.size _⟩, rfl⟩
  rw [Scan.newNode, Scan.setNext]
  dsimp only
  rw [Function.update_self, Option.map_some, Function.update_idem]

/-- A byte behind those that were read fits as long as the name is not longer than `NAME_MAX`. -/
theorem Listed.setName (listed : Listed heap scan nodes) (current : Current heap scan nodes name)
    (fits : name.length ≤ NAME_MAX) (byte : UInt8) :
    ∃ scan', scan.setName name.length byte = some scan' ∧ Listed heap scan' nodes ∧
      Current heap scan' nodes (name ++ [byte]) ∧ scan'.p_index = scan.p_index := by
  obtain ⟨address, item, tmp, new, absent, found, starts, size⟩ := current
  obtain ⟨item', written, starts', size'⟩ :=
    CBuffer.exists_write? starts [byte] (size ▸ Nat.succ_le_succ fits)
  have listed' := listed.update absent new (Nat.le_refl _) (listed.used found) ⟨item', none⟩
    scan.ppnn_tmp
  refine ⟨_, ?_, listed', ⟨address, item', tmp, new, absent, Function.update_self _ _ _, starts',
    size'.trans size⟩, rfl⟩
  rw [Scan.setName, tmp]
  change (scan.cells address).bind _ = _
  rw [found]
  change (CBuffer.write? item name.length [byte]).bind _ = _
  rw [written]
  rfl

theorem endOf_concat (before : List (Nat × List UInt8)) (last : Nat × List UInt8) :
    endOf (before ++ [last]) = .node last.1 := by
  rw [endOf, List.getLast?_concat]

/-- The link that leads to the finished nodes, or the last one of them, takes up a new node. -/
theorem Listed.link (listed : Listed heap scan nodes) {address : Nat} {item : List UInt8}
    (new : heap.cells address = none) (absent : address ∉ nodes.map Prod.fst)
    (found : scan.cells address = some ⟨item, none⟩) :
    ∃ scan', scan.setNext scan.ppnn_end (some address) = some scan' ∧
      Listed heap { scan' with ppnn_end := .node address } (nodes ++ [(address, item)]) ∧
      scan'.ppnn_tmp = scan.ppnn_tmp := by
  have newAll : ∀ node ∈ nodes ++ [(address, item)], heap.cells node.1 = none := by
    intro node member
    rcases List.mem_append.mp member with earlier | here
    · exact listed.new node earlier
    · rw [List.mem_singleton.mp here]
      exact new
  rcases List.eq_nil_or_concat' nodes with rfl | ⟨before, last, rfl⟩
  · have isHead : scan.ppnn_end = .head := listed.ended
    refine ⟨{ scan with ppnn_head_next := some address }, ?_, ?_, rfl⟩
    · exact congrArg (scan.setNext · (some address)) isHead
    · exact ⟨⟨rfl, none, found, rfl⟩, rfl, listed.unused, newAll, listed.frame⟩
  · obtain ⟨lastFound, segment⟩ := Cells.segment_setLast listed.segment (some address)
    have different : address ≠ last.1 := by
      rintro rfl
      exact absent (by simp)
    refine ⟨{ scan with
      cells := Function.update scan.cells last.1 (some ⟨last.2, some address⟩) }, ?_, ?_, rfl⟩
    · have isLast : scan.ppnn_end = .node last.1 := listed.ended.trans (endOf_concat before last)
      refine (congrArg (scan.setNext · (some address)) isLast).trans ?_
      rw [Scan.setNext, lastFound, Option.map_some]
    · refine ⟨?_, (endOf_concat (before ++ [last]) (address, item)).symm, ?_, newAll, ?_⟩
      · refine (Cells.segment_append _ _).mpr ⟨some address, segment, rfl, none, ?_, rfl⟩
        exact (Function.update_of_ne different _ _).trans found
      · intro count from_
        exact (Function.update_of_ne (listed.used lastFound count from_) _ _).trans
          (listed.unused count from_)
      · intro other old
        have elsewhere : other ≠ last.1 := by
          rintro rfl
          exact old (listed.new last (by simp))
        exact (Function.update_of_ne elsewhere _ _).trans (listed.frame other old)

/-! ### The loop over the pathname -/

/-- Some nodes are finished, and of the next one `name` was read. -/
structure Scanned (heap : NodeHeap) (scan : Scan) (nodes : List (Nat × List UInt8))
    (name : CString) : Prop where
  listed : Listed heap scan nodes
  index : scan.p_index = name.length
  current : name ≠ [] → Current heap scan nodes name

theorem Scanned.prepare (scanned : Scanned heap scan nodes name) :
    ∃ scan', scan.prepare heap = some scan' ∧ Listed heap scan' nodes ∧
      Current heap scan' nodes name ∧ scan'.p_index = name.length := by
  by_cases empty : name = []
  · obtain ⟨scan', allocated, listed, current, index⟩ := scanned.listed.newNode
    refine ⟨scan', ?_, listed, empty ▸ current, index.trans scanned.index⟩
    rw [Scan.prepare, scanned.index, empty, if_pos List.length_nil, allocated]
  · refine ⟨scan, ?_, scanned.listed, scanned.current empty, scanned.index⟩
    rw [Scan.prepare, scanned.index,
      if_neg fun none_ => empty (List.eq_nil_of_length_eq_zero none_)]

theorem Scanned.read (scanned : Scanned heap scan nodes name) (fits : name.length ≤ NAME_MAX)
    (symbol : UInt8) :
    ∃ scan', scan.read heap symbol = some scan' ∧
      Scanned heap scan' nodes (name ++ [symbol]) := by
  obtain ⟨middle, ready, listed, current, index⟩ := scanned.prepare
  obtain ⟨scan', stored, listed', current', index'⟩ := listed.setName current fits symbol
  refine ⟨{ scan' with p_index := scan'.p_index + 1 }, ?_, ⟨?_, ?_, fun _ => ?_⟩⟩
  · rw [Scan.read, ready]
    change (middle.setName middle.p_index symbol).bind _ = _
    rw [index, stored]
    rfl
  · exact ⟨listed'.segment, listed'.ended, listed'.unused, listed'.new, listed'.frame⟩
  · rw [List.length_append, List.length_singleton]
    exact congrArg (· + 1) (index'.trans index)
  · exact current'

/-- A separator finishes the name that was read, if there is one. -/
theorem Scanned.finish (scanned : Scanned heap scan nodes name) (fits : name.length ≤ NAME_MAX)
    (free : 0 ∉ name) :
    ∃ scan' finished, scan.finish = some scan' ∧ Listed heap scan' (nodes ++ finished) ∧
      finished.map (fun node => CBuffer.string 0 node.2) = Pathname.flush name := by
  by_cases empty : name = []
  · refine ⟨scan, [], ?_, ?_, ?_⟩
    · rw [Scan.finish, scanned.index, empty, if_neg fun nonzero => nonzero List.length_nil]
    · rw [List.append_nil]
      exact scanned.listed
    · rw [Pathname.flush, if_pos empty, List.map_nil]
  · have nonzero : name.length ≠ 0 := fun none_ => empty (List.eq_nil_of_length_eq_zero none_)
    obtain ⟨middle, stored, listed, current, -⟩ :=
      scanned.listed.setName (scanned.current empty) fits 0
    obtain ⟨address, item, tmp, new, absent, found, starts, -⟩ := current
    obtain ⟨last, linked, listed', tmp'⟩ := listed.link new absent found
    refine ⟨_, [(address, item)], ?_, listed', ?_⟩
    · rw [Scan.finish, scanned.index, if_pos nonzero, stored]
      change (middle.setNext middle.ppnn_end middle.ppnn_tmp).bind _ = _
      rw [tmp, linked]
      change last.ppnn_tmp.bind _ = _
      rw [tmp', tmp]
      rfl
    · rw [List.map_singleton, CBuffer.string_eq free starts, Pathname.flush, if_neg empty]

/-- What was read of a name is not longer than its piece. -/
theorem length_le_of_fit {text : CString}
    (fit : ∀ piece ∈ Pathname.piecesFrom slash name text, piece.length ≤ NAME_MAX) :
    name.length ≤ NAME_MAX := by
  by_cases empty : name = []
  · rw [empty]
    exact Nat.zero_le _
  · obtain ⟨piece, member, longer⟩ := Pathname.exists_piece_of_current slash text empty
    exact Nat.le_trans longer (fit piece member)

/-- The loop, from any state of it. The induction is on the text in front of the terminator. -/
theorem scanPath_listed (text : CString) (beyond : List UInt8)
    (scanned : Scanned heap scan nodes name) (free : 0 ∉ name) (terminated : 0 ∉ text)
    (fit : ∀ piece ∈ Pathname.piecesFrom slash name text, piece.length ≤ NAME_MAX) :
    ∃ scan' finished, scanPath heap (text ++ 0 :: beyond) scan = some scan' ∧
      Listed heap scan' (nodes ++ finished) ∧
      finished.map (fun node => CBuffer.string 0 node.2) =
        Pathname.piecesFrom slash name text := by
  have fits := length_le_of_fit fit
  induction text generalizing scan nodes name with
  | nil =>
      obtain ⟨scan', finished, done, listed, names⟩ := scanned.finish fits free
      refine ⟨scan', finished, ?_, listed, names⟩
      rw [List.nil_append, scanPath, if_neg fun both => both.2 rfl, done, Option.bind_some,
        if_pos rfl]
  | cons symbol rest inductionHypothesis =>
      rw [List.mem_cons, not_or] at terminated
      obtain ⟨notEnd, terminatedRest⟩ := terminated
      rw [List.cons_append, scanPath]
      rw [Pathname.piecesFrom] at fit ⊢
      by_cases isSlash : symbol = slash
      · rw [if_pos isSlash] at fit ⊢
        obtain ⟨middle, finished, done, listed, names⟩ := scanned.finish fits free
        have scannedRest : Scanned heap { middle with p_index := 0 } (nodes ++ finished) [] :=
          ⟨⟨listed.segment, listed.ended, listed.unused, listed.new, listed.frame⟩, rfl,
            fun nonempty => absurd rfl nonempty⟩
        have fitRest : ∀ piece ∈ Pathname.piecesFrom slash [] rest, piece.length ≤ NAME_MAX :=
          fun piece member => fit piece (List.mem_append_right _ member)
        obtain ⟨scan', others, run, listed', names'⟩ := inductionHypothesis scannedRest
          List.not_mem_nil terminatedRest fitRest (length_le_of_fit fitRest)
        refine ⟨scan', finished ++ others, ?_, ?_, ?_⟩
        · rw [if_neg fun both => both.1 isSlash, done, Option.bind_some, if_neg (Ne.symm notEnd)]
          exact run
        · rw [← List.append_assoc]
          exact listed'
        · rw [List.map_append, names, names']
      · rw [if_neg isSlash] at fit ⊢
        obtain ⟨middle, done, scannedRest⟩ := scanned.read fits symbol
        have freeRest : 0 ∉ name ++ [symbol] := by
          rw [List.mem_append, List.mem_singleton, not_or]
          exact ⟨free, notEnd⟩
        obtain ⟨scan', finished, run, listed, names⟩ := inductionHypothesis scannedRest freeRest
          terminatedRest fit (length_le_of_fit fit)
        refine ⟨scan', finished, ?_, listed, names⟩
        rw [if_pos ⟨isSlash, Ne.symm notEnd⟩, done, Option.bind_some]
        exact run

/-! ### The list -/

/-- The nodes from a link on hold these names. -/
def HoldsNames (cells : Cells (List UInt8)) (first : Link) (names : List CString) : Prop :=
  ∃ nodes, Cells.Segment cells first nodes none ∧
    nodes.map (fun node => CBuffer.string 0 node.2) = names

/-- A pathname of which no component is too long for a node. -/
structure Splittable where
  text : CString
  terminated : 0 ∉ text
  fit : ∀ piece ∈ Pathname.pieces slash text, piece.length ≤ NAME_MAX

/-- What `get_part_path` has to leave for the components of a pathname: a list of them, null if
there are none, with its last node in `*ppnn_end`; and behind this node any other list can be
linked. -/
structure NodeList.Law (heap : NodeHeap) (components : List CString) (list : NodeList) : Prop where
  names : HoldsNames list.cells list.first components
  null : list.first = none ↔ components = []
  last : components ≠ [] → ∃ before address item,
    Cells.Segment list.cells list.first (before ++ [(address, item)]) none ∧
      list.ppnn_end = .node address
  frame : ∀ address, heap.cells address ≠ none → list.cells address = heap.cells address
  spliced : components ≠ [] → ∀ next names, HoldsNames heap.cells next names →
    ∃ list', list.splice next = some list' ∧
      HoldsNames list'.cells list'.first (components ++ names)

/-- A list that was there before is linked behind the last node. -/
theorem Listed.splice {before : List (Nat × List UInt8)} {last : Nat × List UInt8}
    (listed : Listed heap scan (before ++ [last])) {next : Link} {names : List CString}
    (holds : HoldsNames heap.cells next names) :
    ∃ list', NodeList.splice ⟨scan.cells, scan.ppnn_head_next, scan.ppnn_end⟩ next = some list' ∧
      HoldsNames list'.cells list'.first
        ((before ++ [last]).map (fun node => CBuffer.string 0 node.2) ++ names) := by
  obtain ⟨others, others_, rfl⟩ := holds
  obtain ⟨found, segment⟩ := Cells.segment_setLast listed.segment next
  have isLast : scan.ppnn_end = .node last.1 := listed.ended.trans (endOf_concat before last)
  refine ⟨⟨Function.update scan.cells last.1 (some ⟨last.2, next⟩), scan.ppnn_head_next,
    scan.ppnn_end⟩, ?_, before ++ [last] ++ others, ?_, ?_⟩
  · rw [NodeList.splice]
    dsimp only
    rw [isLast]
    dsimp only
    rw [found, Option.map_some]
  · refine (Cells.segment_append _ _).mpr ⟨next, segment, ?_⟩
    refine Cells.segment_congr (fun node member => ?_) others_
    have old := Cells.allocated_of_mem others_ member
    have different : node.1 ≠ last.1 := fun same =>
      old (same ▸ listed.new last (List.mem_append_right before (List.mem_singleton_self last)))
    exact (Function.update_of_ne different _ _).trans (listed.frame node.1 old)
  · rw [List.map_append]

theorem Listed.law (listed : Listed heap scan nodes) :
    NodeList.Law heap (nodes.map fun node => CBuffer.string 0 node.2)
      ⟨scan.cells, scan.ppnn_head_next, scan.ppnn_end⟩ where
  names := ⟨nodes, listed.segment, rfl⟩
  null := by
    have segment := listed.segment
    cases nodes with
    | nil => exact iff_of_true segment rfl
    | cons node rest =>
        refine iff_of_false (fun null => ?_) (List.cons_ne_nil _ _)
        exact Option.some_ne_none node.1 (segment.1.symm.trans null)
  last nonempty := by
    obtain rfl | ⟨before, last, rfl⟩ := List.eq_nil_or_concat' nodes
    · exact absurd rfl nonempty
    · exact ⟨before, last.1, last.2, listed.segment, listed.ended.trans (endOf_concat before last)⟩
  frame := listed.frame
  spliced nonempty next names holds := by
    obtain rfl | ⟨before, last, rfl⟩ := List.eq_nil_or_concat' nodes
    · exact absurd rfl nonempty
    · exact listed.splice holds

theorem getPartPathNodes_law (heap : NodeHeap) (pathname : Splittable) (beyond : List UInt8) :
    ∃ list, getPartPathNodes heap (some (pathname.text ++ 0 :: beyond)) = some list ∧
      list.Law heap (Pathname.pieces slash pathname.text) := by
  have start : Scanned heap ⟨heap.cells, 0, none, .head, none, 0⟩ [] [] :=
    ⟨⟨rfl, rfl, fun count _ => heap.free count, fun node member => absurd member List.not_mem_nil,
      fun _ _ => rfl⟩, rfl, fun nonempty => absurd rfl nonempty⟩
  obtain ⟨scan', nodes, run, listed, names⟩ := scanPath_listed pathname.text beyond start
    List.not_mem_nil pathname.terminated pathname.fit
  refine ⟨⟨scan'.cells, scan'.ppnn_head_next, scan'.ppnn_end⟩, ?_, ?_⟩
  · rw [getPartPathNodes, run, Option.map_some]
  · rw [Pathname.pieces, ← names]
    exact listed.law

/-- A heap in which nothing is allocated. -/
def emptyHeap : NodeHeap where
  cells _ := none
  malloc count := count
  contents _ := ⟨List.replicate (NAME_MAX + 1) 0, none⟩
  distinct _ _ same := same
  free _ := rfl
  size _ := List.length_replicate

/-- `"//a/b/"`: two nodes. -/
example : (getPartPathNodes emptyHeap (some [47, 47, 97, 47, 98, 47, 0])).map
    (fun list => (list.first, list.ppnn_end)) = some (some 0, .node 1) := by
  decide +kernel

/-- The list in memory holds the components that `getPartPath` has, and what is linked behind
its end is what `linkAfter` puts there. -/
theorem getPartPathNodes_refines (heap : NodeHeap) (pathname : Splittable) (beyond : List UInt8) :
    ∃ parts list, getPartPath (some pathname.text) = some parts ∧
      getPartPathNodes heap (some (pathname.text ++ 0 :: beyond)) = some list ∧
      HoldsNames list.cells list.first parts.nodes ∧
      (parts.nodes ≠ [] → ∀ next names, HoldsNames heap.cells next names →
        ∃ list', list.splice next = some list' ∧
          HoldsNames list'.cells list'.first (parts.linkAfter names)) := by
  obtain ⟨parts, parsed, nodes, ended⟩ := getPartPath_eq pathname.fit
  obtain ⟨list, run, law⟩ := getPartPathNodes_law heap pathname beyond
  refine ⟨parts, list, parsed, run, nodes ▸ law.names, fun nonempty next names holds => ?_⟩
  rw [ended.linkAfter_eq, nodes]
  exact law.spliced (nodes ▸ nonempty) next names holds

end LinuxProgramming.Files
