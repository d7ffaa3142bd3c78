import LinuxProgramming.Library.Forest

/-!
Contract: the process tree of `my_pstree`, from process records to the printed
tree.

Owns:
- the list of lists that `generate_pid_tree` fills, and `print_pid_dfs`;
- what the lists hold for any sequence of records;
- the printed tree, for records that may miss parents or form cycles.

Does not own: the scan of `/proc` and of the status files.
-/

namespace LinuxProgramming.Processes

open LinuxProgramming.Library
open Forest

/-- What is read of a process. -/
structure Record where
  program_name : List UInt8
  pid : Int
  ppid : Int
deriving DecidableEq, Repr

/-- `struct ppid_head`: a parent and the list of its nodes. -/
structure PpidHead where
  ppid : Int
  nodes : List Record
deriving DecidableEq, Repr

/-- The lists that hang on `ppid_list_head`. -/
abbrev PpidList := List PpidHead

/-! ### The programs -/

/-- The search for the head of a parent. -/
def findHead (ppid : Int) : PpidList → Option PpidHead
  | [] => none
  | plh :: rest => if plh.ppid ≠ ppid then findHead ppid rest else some plh

/-- Put a node in front of the nodes of its parent's head, which is there. -/
def addNode (ptn : Record) : PpidList → PpidList
  | [] => []
  | plh :: rest =>
      if plh.ppid ≠ ptn.ppid then plh :: addNode ptn rest
      else { plh with nodes := ptn :: plh.nodes } :: rest

/-- The list code of `generate_pid_tree`. -/
def insertRecord (ptn : Record) (heads : PpidList) : PpidList :=
  match findHead ptn.ppid heads with
  | none => ⟨ptn.ppid, [ptn]⟩ :: heads
  | some _ => addNode ptn heads

/-- All records, one by one. -/
def insertRecords : List Record → PpidList → PpidList
  | [], heads => heads
  | ptn :: rest, heads => insertRecords rest (insertRecord ptn heads)

/-- A piece of output. -/
inductive Output where
  /-- `printf("%-11s", ptn->program_name)`, in a call with this depth. -/
  | program (ptn : Record) (deepth : Nat)
  /-- `"     |     "`. -/
  | bar
  /-- `"     |-----"`. -/
  | branch
  /-- `putchar('\n')`. -/
  | newline
deriving DecidableEq, Repr

/-- The loop over the nodes of one head, with the call for the children. -/
def printNodes (printChildren : Record → Option (List Output)) (deepth : Nat) :
    List Record → Option (List Output)
  | [] => some []
  | ptn :: rest =>
      match printChildren ptn, printNodes printChildren deepth rest with
      | some children, some later =>
          let table := if rest ≠ [] then List.replicate (deepth - 1) .bar ++ [.branch] else []
          some (.program ptn deepth :: (children ++ table ++ later))
      | _, _ => none

/-- `print_pid_dfs`, with fuel for the calls inside one another. -/
def printPidDfs (heads : PpidList) : Nat → Option PpidHead → Nat → Option (List Output)
  | 0, _, _ => none
  | _ + 1, none, _ => some [.newline]
  | fuel + 1, some hp, deepth =>
      printNodes (fun ptn => printPidDfs heads fuel (findHead ptn.pid heads) (deepth + 1))
        deepth hp.nodes

/-- The output of `print_pid_tree`. -/
def printPidTree (fuel : Nat) (heads : PpidList) : Option (List Output) :=
  printPidDfs heads fuel (findHead 0 heads) 0

/-! ### The lists -/

/-- The records with a parent, the last one first. -/
def childrenOf (records : List Record) (ppid : Int) : List Record :=
  (records.filter fun record => record.ppid = ppid).reverse

theorem childrenOf_concat (records : List Record) (ptn : Record) (ppid : Int) :
    childrenOf (records ++ [ptn]) ppid =
      if ptn.ppid = ppid then ptn :: childrenOf records ppid else childrenOf records ppid := by
  rw [childrenOf, childrenOf, List.filter_append, List.reverse_append]
  by_cases same : ptn.ppid = ppid <;> simp [same]

theorem mem_childrenOf {records : List Record} {record : Record} {ppid : Int} :
    record ∈ childrenOf records ppid ↔ record ∈ records ∧ record.ppid = ppid := by
  simp [childrenOf]

theorem findHead_eq_none {ppid : Int} {heads : PpidList} :
    findHead ppid heads = none ↔ ∀ plh ∈ heads, plh.ppid ≠ ppid := by
  induction heads with
  | nil => simp [findHead]
  | cons plh rest inductionHypothesis =>
      by_cases same : plh.ppid = ppid
      · simp [findHead, same]
      · simp [findHead, same, inductionHypothesis]

theorem findHead_eq_some {ppid : Int} {heads : PpidList} {plh : PpidHead}
    (found : findHead ppid heads = some plh) : plh ∈ heads ∧ plh.ppid = ppid := by
  induction heads with
  | nil => cases found
  | cons first rest inductionHypothesis =>
      rw [findHead] at found
      split at found
      · obtain ⟨member, same⟩ := inductionHypothesis found
        exact ⟨List.mem_cons_of_mem _ member, same⟩
      · next same =>
          cases found
          exact ⟨List.mem_cons_self, not_not.mp same⟩

theorem addNode_ppid (ptn : Record) (heads : PpidList) :
    (addNode ptn heads).map PpidHead.ppid = heads.map PpidHead.ppid := by
  induction heads with
  | nil => rfl
  | cons plh rest inductionHypothesis =>
      rw [addNode]
      split
      · rw [List.map_cons, List.map_cons, inductionHypothesis]
      · rfl

/-- A head is as it was, or is the parent's with the node in front. -/
theorem mem_addNode {ptn : Record} {heads : PpidList}
    (distinct : (heads.map PpidHead.ppid).Nodup) {plh : PpidHead}
    (member : plh ∈ addNode ptn heads) :
    (plh ∈ heads ∧ plh.ppid ≠ ptn.ppid) ∨
      ∃ old ∈ heads, old.ppid = ptn.ppid ∧ plh = { old with nodes := ptn :: old.nodes } := by
  induction heads with
  | nil => cases member
  | cons first rest inductionHypothesis =>
      obtain ⟨others, distinctRest⟩ := List.nodup_cons.mp distinct
      rw [addNode] at member
      split at member
      · next different =>
          obtain rfl | later := List.mem_cons.mp member
          · exact .inl ⟨List.mem_cons_self, different⟩
          · obtain ⟨kept, apart⟩ | ⟨old, isOld, same, rfl⟩ :=
              inductionHypothesis distinctRest later
            · exact .inl ⟨List.mem_cons_of_mem _ kept, apart⟩
            · exact .inr ⟨old, List.mem_cons_of_mem _ isOld, same, rfl⟩
      · next isParent =>
          obtain rfl | later := List.mem_cons.mp member
          · exact .inr ⟨first, List.mem_cons_self, not_not.mp isParent, rfl⟩
          · refine .inl ⟨List.mem_cons_of_mem _ later, fun same => others ?_⟩
            rw [not_not.mp isParent, ← same]
            exact List.mem_map_of_mem later

/-- One head for each parent, with exactly its children. -/
structure Filled (records : List Record) (heads : PpidList) : Prop where
  distinct : (heads.map PpidHead.ppid).Nodup
  nodes : ∀ plh ∈ heads, plh.nodes = childrenOf records plh.ppid ∧ plh.nodes ≠ []
  complete : ∀ record ∈ records, record.ppid ∈ heads.map PpidHead.ppid

theorem insertRecord_filled {records : List Record} {heads : PpidList}
    (filled : Filled records heads) (ptn : Record) :
    Filled (records ++ [ptn]) (insertRecord ptn heads) := by
  rw [insertRecord]
  cases found : findHead ptn.ppid heads with
  | none =>
      have absent := findHead_eq_none.mp found
      have childless : childrenOf records ptn.ppid = [] := by
        refine List.eq_nil_iff_forall_not_mem.mpr fun record member => ?_
        obtain ⟨isRecord, same⟩ := mem_childrenOf.mp member
        obtain ⟨plh, isHead, ppid⟩ := List.mem_map.mp (filled.complete record isRecord)
        exact absent plh isHead (ppid.trans same)
      refine ⟨?_, ?_, ?_⟩
      · refine List.nodup_cons.mpr ⟨fun member => ?_, filled.distinct⟩
        obtain ⟨plh, isHead, same⟩ := List.mem_map.mp member
        exact absent plh isHead same
      · intro plh member
        rw [childrenOf_concat]
        obtain rfl | old := List.mem_cons.mp member
        · rw [if_pos rfl, childless]
          exact ⟨rfl, List.cons_ne_nil _ _⟩
        · rw [if_neg fun same => absent plh old same.symm]
          exact filled.nodes plh old
      · intro record member
        rw [List.map_cons]
        obtain old | new := List.mem_append.mp member
        · exact List.mem_cons_of_mem _ (filled.complete record old)
        · rw [List.mem_singleton.mp new]
          exact List.mem_cons_self
  | some parent =>
      obtain ⟨isHead, same⟩ := findHead_eq_some found
      refine ⟨?_, ?_, ?_⟩
      · rw [addNode_ppid]
        exact filled.distinct
      · intro plh member
        rw [childrenOf_concat]
        obtain ⟨kept, apart⟩ | ⟨old, isOld, isParent, rfl⟩ :=
          mem_addNode filled.distinct member
        · rw [if_neg (Ne.symm apart)]
          exact filled.nodes plh kept
        · rw [if_pos isParent.symm, (filled.nodes old isOld).1]
          exact ⟨rfl, List.cons_ne_nil _ _⟩
      · intro record member
        rw [addNode_ppid]
        obtain old | new := List.mem_append.mp member
        · exact filled.complete record old
        · rw [List.mem_singleton.mp new, ← same]
          exact List.mem_map_of_mem isHead

theorem insertRecords_filled {before records : List Record} {heads : PpidList}
    (filled : Filled before heads) : Filled (before ++ records) (insertRecords records heads) := by
  induction records generalizing before heads with
  | nil =>
      rw [List.append_nil]
      exact filled
  | cons ptn rest inductionHypothesis =>
      have next := inductionHypothesis (insertRecord_filled filled ptn)
      rw [List.append_assoc] at next
      exact next

theorem Filled.empty : Filled [] [] := ⟨List.nodup_nil, nofun, nofun⟩

/-- The search finds the children of a parent, if it has any. -/
theorem Filled.findHead {records : List Record} {heads : PpidList}
    (filled : Filled records heads) (ppid : Int) :
    findHead ppid heads =
      if childrenOf records ppid = [] then none else some ⟨ppid, childrenOf records ppid⟩ := by
  cases found : Processes.findHead ppid heads with
  | none =>
      have absent := findHead_eq_none.mp found
      rw [if_pos]
      refine List.eq_nil_iff_forall_not_mem.mpr fun record member => ?_
      obtain ⟨isRecord, same⟩ := mem_childrenOf.mp member
      obtain ⟨plh, isHead, ppid_⟩ := List.mem_map.mp (filled.complete record isRecord)
      exact absent plh isHead (ppid_.trans same)
  | some plh =>
      obtain ⟨isHead, rfl⟩ := findHead_eq_some found
      obtain ⟨nodes, nonempty⟩ := filled.nodes plh isHead
      rw [if_neg (nodes ▸ nonempty), ← nodes]

/-! ### The printed tree -/

/-- The records whose names are printed, with the depth of the call. -/
def programs : List Output → List (Record × Nat)
  | [] => []
  | .program ptn deepth :: rest => (ptn, deepth) :: programs rest
  | _ :: rest => programs rest

theorem programs_append (left right : List Output) :
    programs (left ++ right) = programs left ++ programs right := by
  induction left with
  | nil => rfl
  | cons output rest inductionHypothesis =>
      cases output <;> simp [programs, inductionHypothesis]

/-- The table characters name no program. -/
theorem programs_table (deepth : Nat) :
    programs (List.replicate deepth .bar ++ [.branch]) = [] := by
  induction deepth with
  | zero => rfl
  | succ deepth inductionHypothesis => exact inductionHypothesis

theorem printNodes_programs {printChildren : Record → Option (List Output)} {deepth : Nat}
    {nodes : List Record} {under : Record → List (Record × Nat)}
    (prints : ∀ ptn ∈ nodes, ∃ output, printChildren ptn = some output ∧
      programs output = under ptn) :
    ∃ output, printNodes printChildren deepth nodes = some output ∧
      programs output = nodes.flatMap fun ptn => (ptn, deepth) :: under ptn := by
  induction nodes with
  | nil => exact ⟨[], rfl, rfl⟩
  | cons ptn rest inductionHypothesis =>
      obtain ⟨children, printed, isUnder⟩ := prints ptn List.mem_cons_self
      obtain ⟨later, printedLater, isLater⟩ := inductionHypothesis fun other member =>
        prints other (List.mem_cons_of_mem _ member)
      have table : programs (if rest ≠ [] then
          List.replicate (deepth - 1) .bar ++ [.branch] else []) = [] := by
        split
        · exact programs_table _
        · rfl
      refine ⟨_, by rw [printNodes, printed, printedLater], ?_⟩
      rw [programs, programs_append, programs_append, table, isUnder, isLater, List.append_nil,
        List.flatMap_cons]
      rfl

section Tree

variable (records : List Record)

/-- The records without a parent record, whose parent is process 0. -/
def topmost : List Record := childrenOf records 0

/-- The records whose parent is the given one. -/
def childRecords (parent : Record) : List Record := childrenOf records parent.pid

variable {records}

theorem Reached.mem {record : Record} {depth : Nat}
    (reaches : Reaches (topmost records) (childRecords records) record depth) :
    record ∈ records := by
  cases reaches with
  | root member | child _ member => exact (mem_childrenOf.mp member).1

theorem childrenOf_nodup (distinct : (records.map Record.pid).Nodup) (ppid : Int) :
    (childrenOf records ppid).Nodup :=
  List.nodup_reverse.mpr ((List.Nodup.of_map _ distinct).filter _)

/-- Distinct process ids other than 0 make the reachable records a forest. -/
theorem isForest (distinct : (records.map Record.pid).Nodup)
    (nonzero : ∀ record ∈ records, record.pid ≠ 0) :
    IsForest (topmost records) (childRecords records) where
  rootsNodup := childrenOf_nodup distinct 0
  childrenNodup := fun parent _ _ => childrenOf_nodup distinct parent.pid
  rootsOnTop := fun parent _ reaches _ isTop isChild =>
    nonzero parent (Reached.mem reaches)
      ((mem_childrenOf.mp isChild).2.symm.trans (mem_childrenOf.mp isTop).2)
  oneParent := fun _ _ _ _ leftReaches rightReaches _ ofLeft ofRight =>
    List.inj_on_of_nodup_map distinct (Reached.mem leftReaches) (Reached.mem rightReaches)
      ((mem_childrenOf.mp ofLeft).2.symm.trans (mem_childrenOf.mp ofRight).2)

/-- A call prints the listing of its nodes, as the fuel suffices for their depth. -/
theorem printPidDfs_listing {heads : PpidList} (filled : Filled records heads)
    (forest : IsForest (topmost records) (childRecords records)) {fuel depth : Nat} {ppid : Int}
    (level : Level (topmost records) (childRecords records) fuel depth
      (childrenOf records ppid)) :
    ∃ output, printPidDfs heads (fuel + 1) (findHead ppid heads) depth = some output ∧
      programs output = listing (childRecords records) fuel depth (childrenOf records ppid) := by
  induction fuel generalizing depth ppid with
  | zero =>
      have childless : childrenOf records ppid = [] := by
        refine List.eq_nil_iff_forall_not_mem.mpr fun record member => ?_
        exact absurd (level.deep record depth (level.reached record member)) (Nat.lt_irrefl _)
      rw [filled.findHead, if_pos childless]
      exact ⟨_, rfl, rfl⟩
  | succ fuel inductionHypothesis =>
      rw [filled.findHead]
      split
      · next childless =>
          rw [childless]
          exact ⟨_, rfl, rfl⟩
      · exact printNodes_programs fun ptn member =>
          inductionHypothesis (level.ofChildren forest member)

end Tree

/-- For records with distinct ids other than 0, there is one list for each parent, every
record is once on the list of its parent, and the printed tree has every record that hangs
on process 0, once and with its depth, with everything below it in one piece behind it. -/
theorem printPidTree_correct (records : List Record)
    (distinct : (records.map Record.pid).Nodup) (nonzero : ∀ record ∈ records, record.pid ≠ 0) :
    (((insertRecords records []).map PpidHead.ppid).Nodup ∧
      (∀ ppid, ppid ∈ (insertRecords records []).map PpidHead.ppid ↔
        ∃ record ∈ records, record.ppid = ppid) ∧
      ∀ plh ∈ insertRecords records [], plh.nodes.Nodup ∧
        ∀ record, record ∈ plh.nodes ↔ record ∈ records ∧ record.ppid = plh.ppid) ∧
    ∀ fuel, records.length < fuel → ∃ output,
      printPidTree fuel (insertRecords records []) = some output ∧
      (∀ record depth, (record, depth) ∈ programs output ↔
        Reaches (topmost records) (childRecords records) record depth) ∧
      ((programs output).map Prod.fst).Nodup ∧
      ∀ parent depth, (parent, depth) ∈ programs output →
        ∃ earlier inside later, programs output =
            earlier ++ (parent, depth) :: (inside ++ later) ∧
          ∀ record below, (record, below) ∈ inside ↔ ∃ steps,
            Below (childRecords records) parent (steps + 1) record ∧
              below = depth + (steps + 1) := by
  have filled : Filled records (insertRecords records []) := insertRecords_filled .empty
  have forest := isForest distinct nonzero
  constructor
  · refine ⟨filled.distinct, fun ppid => ⟨?_, ?_⟩, ?_⟩
    · intro occurs
      obtain ⟨plh, isHead, rfl⟩ := List.mem_map.mp occurs
      obtain ⟨nodes, nonempty⟩ := filled.nodes plh isHead
      obtain ⟨record, member⟩ := List.exists_mem_of_ne_nil _ nonempty
      rw [nodes] at member
      exact ⟨record, mem_childrenOf.mp member⟩
    · rintro ⟨record, member, rfl⟩
      exact filled.complete record member
    · intro plh isHead
      rw [(filled.nodes plh isHead).1]
      exact ⟨childrenOf_nodup distinct _, fun _ => mem_childrenOf⟩
  · intro fuel enough
    obtain ⟨fuel, rfl⟩ := Nat.exists_eq_add_one_of_ne_zero (Nat.ne_zero_of_lt enough)
    have level : Level (topmost records) (childRecords records) fuel 0 (topmost records) :=
      .ofRoots forest fun node depth reaches =>
        Nat.lt_of_lt_of_le (forest.depth_lt (fun _ _ => Reached.mem) reaches)
          (Nat.le_of_lt_succ enough)
    obtain ⟨output, printed, isListing⟩ := printPidDfs_listing filled forest level
    refine ⟨output, printed, ?_, ?_, ?_⟩
    · intro record depth
      rw [isListing, ← topmost, mem_listing forest level]
      constructor
      · rintro ⟨top, isTop, steps, below, rfl⟩
        exact (Reaches.root isTop).descend below
      · intro reaches
        obtain ⟨top, isTop, below⟩ := reaches.exists_root
        exact ⟨top, isTop, depth, below, (Nat.zero_add depth).symm⟩
    · rw [isListing]
      exact listing_nodup forest level
    · intro parent depth listed
      rw [isListing] at listed ⊢
      exact listing_subtree forest level listed

/-- Four processes below 0, one without its parent, and two that are each other's parent. -/
def sampleRecords : List Record :=
  [⟨[105], 1, 0⟩, ⟨[97], 10, 11⟩, ⟨[115], 4, 1⟩, ⟨[111], 5, 99⟩, ⟨[98], 11, 10⟩, ⟨[107], 2, 0⟩,
    ⟨[112], 7, 4⟩]

theorem printPidTree_correct_cycle : ∃ output,
    printPidTree 8 (insertRecords sampleRecords []) = some output ∧
      ((programs output).map Prod.fst).Nodup := by
  obtain ⟨-, prints⟩ := printPidTree_correct sampleRecords (by decide) (by decide)
  obtain ⟨output, printed, -, nodup, -⟩ := prints 8 (by decide)
  exact ⟨output, printed, nodup⟩

example : printPidTree 8 (insertRecords sampleRecords []) =
    some [.program ⟨[107], 2, 0⟩ 0, .newline, .branch, .program ⟨[105], 1, 0⟩ 0,
      .program ⟨[115], 4, 1⟩ 1, .program ⟨[112], 7, 4⟩ 2, .newline] := by decide

end LinuxProgramming.Processes
