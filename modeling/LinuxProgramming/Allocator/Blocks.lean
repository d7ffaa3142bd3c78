import LinuxProgramming.Allocator.Headers

/-!
Contract: the blocks of a well-formed heap, and what the parts of `my_malloc` that do not
call `sbrk` do to them.

Owns:
- `Block` and `WellFormed`: free and live blocks, the list of the free ones;
- the search for a free block;
- taking a block off the list, whole or in part.

Does not own: heap growth, or freeing.
-/

namespace LinuxProgramming.Allocator

open LinuxProgramming.Library

/-- A size word at `addr` and the `size` bytes behind it. -/
structure Block where
  addr : Nat
  size : Nat
deriving DecidableEq, Repr

/-- The first address behind the block. -/
def Block.stop (block : Block) : Nat := block.addr + WORD_SIZE + block.size

/-- What is on a list with one item in its middle. -/
theorem mem_middle {before after : List Block} {block other : Block} :
    other ∈ before ++ block :: after ↔ other = block ∨ other ∈ before ++ after :=
  List.perm_middle.mem_iff.trans List.mem_cons

/-- The address at the end of a list with a last block. -/
theorem getLastD_addr (before : List Block) (last : Block) (head : Nat) :
    ((before ++ [last]).map Block.addr).getLastD head = last.addr := by
  rw [List.map_append]
  exact List.getLastD_concat

/-- Two blocks have no byte in common. -/
def Block.Disjoint (left right : Block) : Prop :=
  left.stop ≤ right.addr ∨ right.stop ≤ left.addr

instance (left right : Block) : Decidable (left.Disjoint right) :=
  inferInstanceAs (Decidable (_ ∨ _))

/-- The least size of a block that can hold a header. -/
def MIN_SIZE : Nat := MSG_SIZE - WORD_SIZE

/-- The headers in a memory. -/
def headersOf (memory : ByteMemory) : Headers := fun node field =>
  memory.read (addrOf node field) WORD_SIZE

/-- Blocks in the list, with their sizes. -/
structure FreeList (process : Process) (memory : ByteMemory) (free : List Block) : Prop where
  list : (headersOf memory).IsList process.head (free.map Block.addr)
  sizes : ∀ block ∈ free, headersOf memory block.addr .block_size = block.size

/-- Free and live blocks below the break that are pairwise disjoint, and a list of the free
ones that is circular, doubly linked and sorted by address. -/
structure WellFormed (process : Process) (heap : Heap) (free live : List Block) : Prop where
  bottomBelow : process.bottom ≤ heap.brk
  brkFits : heap.brk ≤ process.limit
  inside : ∀ block ∈ free ++ live, process.bottom ≤ block.addr ∧ block.stop ≤ heap.brk
  large : ∀ block ∈ free ++ live, MIN_SIZE ≤ block.size
  disjoint : (free ++ live).Pairwise Block.Disjoint
  sorted : free.Pairwise fun left right => left.addr < right.addr
  freeList : FreeList process heap.memory free
  liveSizes : ∀ block ∈ live, headersOf heap.memory block.addr .block_size = block.size
  headSize : headersOf heap.memory process.head .block_size = 0

/-- The list head and the blocks. -/
def nodesOf (process : Process) (blocks : List Block) : Set Nat :=
  {node | node = process.head ∨ ∃ block ∈ blocks, block.addr = node}

section WellFormed

variable {process : Process} {heap : Heap} {free live : List Block}

instance : Std.Symm Block.Disjoint :=
  ⟨fun _ _ => Or.symm⟩

/-- The list has no node twice. -/
theorem WellFormed.nodup (wellFormed : WellFormed process heap free live) :
    (process.head :: free.map Block.addr).Nodup := by
  have headBelow := process.headBelow
  rw [MSG_SIZE] at headBelow
  rw [List.nodup_cons]
  constructor
  · intro isBlock
    obtain ⟨block, member, same⟩ := List.mem_map.mp isBlock
    have low := (wellFormed.inside block (List.mem_append_left _ member)).1
    omega
  · have distinct : (free.map Block.addr).Pairwise (· < ·) :=
      List.pairwise_map.mpr wellFormed.sorted
    exact distinct.imp Nat.ne_of_lt

end WellFormed

/-- Headers that hold give the list in memory. -/
theorem FreeList.of_holds {process : Process} {heap : Heap} {nodes : Set Nat} {headers : Headers}
    {free : List Block} (holds : Holds process heap nodes headers)
    (list : headers.IsList process.head (free.map Block.addr))
    (known : ∀ node ∈ process.head :: free.map Block.addr, node ∈ nodes)
    (sizes : ∀ block ∈ free, headers block.addr .block_size = block.size) :
    FreeList process heap.memory free where
  list := by
    apply list.congr
    · intro node member
      exact holds.shows node (known node member) .next
    · intro node member
      exact holds.shows node (known node member) .prev
  sizes := by
    intro block member
    rw [← sizes block member]
    exact holds.shows _ (known _ (List.mem_cons_of_mem _ (List.mem_map_of_mem member))) _

/-! ### The search -/

section Search

variable {process : Process} {heap : Heap} {nodes : Set Nat} {headers : Headers}

/-- If no block is large enough, the search comes back to the list head. -/
theorem findBlock_none (holds : Holds process heap nodes headers) {before after : List Nat}
    (list : headers.IsList process.head (before ++ after))
    (known : ∀ node ∈ after, node ∈ nodes) (notHead : process.head ∉ after) {size fuel : Nat}
    (none_ : ∀ node ∈ after, headers node .block_size < size) (enough : after.length < fuel) :
    findBlock process size fuel (after.headD process.head) heap = .ok (process.head, heap) := by
  induction after generalizing before fuel with
  | nil =>
      obtain ⟨fuel, rfl⟩ := Nat.exists_eq_add_one_of_ne_zero (Nat.ne_zero_of_lt enough)
      rw [List.headD_nil, findBlock, if_pos rfl]
      rfl
  | cons block rest inductionHypothesis =>
      obtain ⟨fuel, rfl⟩ := Nat.exists_eq_add_one_of_ne_zero (Nat.ne_zero_of_lt enough)
      obtain ⟨-, nextBlock⟩ := list.at_member
      have blockIn : block ∈ nodes := known block List.mem_cons_self
      have notBlock : block ≠ process.head := by
        rintro rfl
        exact notHead List.mem_cons_self
      have small := none_ block List.mem_cons_self
      have further : headers.IsList process.head ((before ++ [block]) ++ rest) := by
        rwa [← List.append_cons]
      rw [List.headD_cons, findBlock, if_neg notBlock, bind_ok (holds.load blockIn .block_size),
        if_neg (Nat.not_le.mpr small), bind_ok (holds.load blockIn .next)]
      rw [nextBlock]
      exact inductionHypothesis further
        (fun node member => known node (List.mem_cons_of_mem _ member))
        (fun isHead => notHead (List.mem_cons_of_mem _ isHead))
        (fun node member => none_ node (List.mem_cons_of_mem _ member))
        (Nat.lt_of_succ_lt_succ enough)

/-- The search stops at the first block that is large enough. -/
theorem findBlock_some (holds : Holds process heap nodes headers) {skipped : List Nat} :
    ∀ {before after : List Nat} {block size fuel : Nat},
      headers.IsList process.head (before ++ (skipped ++ block :: after)) →
      (∀ node ∈ skipped ++ [block], node ∈ nodes) → process.head ∉ skipped ++ [block] →
      (∀ node ∈ skipped, headers node .block_size < size) →
      size ≤ headers block .block_size → skipped.length < fuel →
      findBlock process size fuel ((skipped ++ block :: after).headD process.head) heap =
        .ok (block, heap) := by
  induction skipped with
  | nil =>
      intro before after block size fuel list known notHead small large enough
      obtain ⟨fuel, rfl⟩ := Nat.exists_eq_add_one_of_ne_zero (Nat.ne_zero_of_lt enough)
      have blockIn : block ∈ nodes := known block List.mem_cons_self
      have notBlock : block ≠ process.head := by
        rintro rfl
        exact notHead List.mem_cons_self
      show findBlock process size (fuel + 1) block heap = _
      rw [findBlock, if_neg notBlock, bind_ok (holds.load blockIn .block_size), if_pos large]
      rfl
  | cons node rest inductionHypothesis =>
      intro before after block size fuel list known notHead small large enough
      obtain ⟨fuel, rfl⟩ := Nat.exists_eq_add_one_of_ne_zero (Nat.ne_zero_of_lt enough)
      have nodeIn : node ∈ nodes := known node List.mem_cons_self
      have notNode : node ≠ process.head := by
        rintro rfl
        exact notHead List.mem_cons_self
      have tooSmall := small node List.mem_cons_self
      have cut : headers.IsList process.head (before ++ node :: (rest ++ block :: after)) := list
      obtain ⟨-, next⟩ := cut.at_member
      have further :
          headers.IsList process.head ((before ++ [node]) ++ (rest ++ block :: after)) := by
        rw [← List.append_cons]
        exact list
      show findBlock process size (fuel + 1) node heap = _
      rw [findBlock, if_neg notNode, bind_ok (holds.load nodeIn .block_size),
        if_neg (Nat.not_le.mpr tooSmall), bind_ok (holds.load nodeIn .next), next]
      apply inductionHypothesis further
      · intro other member
        exact known other (List.mem_cons_of_mem _ member)
      · intro isHead
        exact notHead (List.mem_cons_of_mem _ isHead)
      · intro other member
        exact small other (List.mem_cons_of_mem _ member)
      · exact large
      · exact Nat.lt_of_succ_lt_succ enough

end Search

/-! ### Taking a block -/

/-- What `my_malloc` does with the block it has chosen. -/
def takeBlock (process : Process) (ptr size : Nat) : Run Nat := do
  splitBlock process ptr size
  unlinkBlock process ptr
  pure ptr

theorem myMalloc_eq (process : Process) (fuel size : Nat) :
    myMalloc process fuel size = (do
      let first ← load process process.head .next
      let found ← findBlock process size fuel first
      let ptr ← if found = process.head then growHeap process size else pure found
      takeBlock process ptr size) :=
  rfl

/-- A node linked in behind a member, put first. -/
theorem perm_inserted {α : Type} (head member inserted : α) (before after : List α) :
    (head :: (before ++ member :: inserted :: after)).Perm
      (inserted :: head :: (before ++ member :: after)) := by
  have inside : (before ++ member :: inserted :: after).Perm
      (inserted :: (before ++ member :: after)) := by
    have swapped : (before ++ [member] ++ inserted :: after).Perm
        (inserted :: (before ++ [member] ++ after)) := List.perm_middle
    simpa using swapped
  exact (inside.cons _).trans (List.Perm.swap _ _ _)

section Taking

variable {process : Process} {heap : Heap} {nodes : Set Nat} {headers : Headers}
  {before after : List Nat} {block size : Nat}
  (holds : Holds process heap nodes headers)
  (list : headers.IsList process.head (before ++ block :: after))
  (distinct : (process.head :: (before ++ block :: after)).Nodup)
  (known : ∀ node ∈ process.head :: (before ++ block :: after), node ∈ nodes)

include holds list distinct known

/-- A block with too little left over is taken whole. -/
theorem takeBlock_whole (large : size ≤ headers block .block_size)
    (little : headers block .block_size < size + MSG_SIZE) :
    ∃ heap' headers', takeBlock process block size heap = .ok (block, heap') ∧
      Within nodes heap heap' ∧ Holds process heap' nodes headers' ∧
      headers'.IsList process.head (before ++ after) ∧
      ∀ node, headers' node .block_size = headers node .block_size := by
  have blockIn : block ∈ nodes := known block (by simp)
  obtain ⟨heap', headers', ran, within, holds', list', sizes⟩ :=
    unlinkBlock_spec holds list distinct known
  have kept : splitBlock process block size heap = .ok ((), heap) := by
    unfold splitBlock
    rw [bind_ok (holds.load blockIn .block_size),
      minus_eq large (holds.lt_field blockIn .block_size), if_neg (by omega)]
    rfl
  refine ⟨heap', headers', ?_, within, holds', list', sizes⟩
  unfold takeBlock
  rw [bind_ok kept, bind_ok ran]
  rfl

/-- Of a larger block the rest takes its place in the list. -/
theorem takeBlock_split {rest : Nat} (restIn : rest ∈ nodes)
    (fresh : rest ∉ process.head :: (before ++ block :: after))
    (isRest : rest = block + size + WORD_SIZE)
    (room : size + MSG_SIZE ≤ headers block .block_size) :
    ∃ heap' headers', takeBlock process block size heap = .ok (block, heap') ∧
      Within nodes heap heap' ∧ Holds process heap' nodes headers' ∧
      headers'.IsList process.head (before ++ rest :: after) ∧
      headers' block .block_size = size ∧
      headers' rest .block_size = headers block .block_size - size - WORD_SIZE ∧
      ∀ node, node ≠ block → node ≠ rest →
        headers' node .block_size = headers node .block_size := by
  obtain ⟨heap₁, headers₁, ran₁, within₁, holds₁, list₁, blockSize, restSize, others⟩ :=
    splitBlock_spec holds list distinct known restIn fresh isRest room
  have moved := perm_inserted process.head block rest before after
  have distinct₁ : (process.head :: (before ++ block :: rest :: after)).Nodup :=
    moved.nodup_iff.mpr (List.nodup_cons.mpr ⟨fresh, distinct⟩)
  have known₁ : ∀ node ∈ process.head :: (before ++ block :: rest :: after), node ∈ nodes := by
    intro node member
    rcases List.mem_cons.mp (moved.mem_iff.mp member) with rfl | old
    · exact restIn
    · exact known node old
  obtain ⟨heap₂, headers₂, ran₂, within₂, holds₂, list₂, sizes₂⟩ :=
    unlinkBlock_spec holds₁ list₁ distinct₁ known₁
  refine ⟨heap₂, headers₂, ?_, within₂.trans within₁, holds₂, list₂, (sizes₂ block).trans blockSize,
    (sizes₂ rest).trans restSize, ?_⟩
  · unfold takeBlock
    rw [bind_ok ran₁, bind_ok ran₂]
    rfl
  · intro node notBlock notRest
    exact (sizes₂ node).trans (others node notBlock notRest)

end Taking

end LinuxProgramming.Allocator
