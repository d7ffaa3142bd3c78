import LinuxProgramming.Allocator.Taking
import LinuxProgramming.Library.PartialCorrectness

/-!
Contract: `my_malloc` when no free block is large enough and `sbrk` extends the heap.

Owns:
- the well-formed heap that growth leaves, with the new space joined to the last block or
  as a block of its own;
- `GrowthFits`, for which heaps and requests growth is safe.

Does not own: requests that a free block serves.
-/

namespace LinuxProgramming.Allocator

open LinuxProgramming.Library

/-! ### What growth should do -/

/-- The last free block ends exactly at `brk`. -/
def EndsAt (free : List Block) (brk : Nat) : Prop :=
  ∃ last ∈ free.getLast?, last.stop = brk

instance (free : List Block) (brk : Nat) : Decidable (EndsAt free brk) :=
  inferInstanceAs (Decidable (∃ last ∈ free.getLast?, last.stop = brk))

/-- The heap after a call that returned `ptr`. A call that joins the new space to the last
free block takes its block from there. -/
structure Grown (process : Process) (heap : Heap) (free live : List Block) (size ptr : Nat)
    (heap' : Heap) (free' : List Block) : Prop where
  brk : heap'.brk = heap.brk + amount size
  joined : (∃ last ∈ free.getLast?, ptr = last.addr) ↔ EndsAt free heap.brk
  freeList : FreeList process heap'.memory free'
  apart : ∀ block ∈ ⟨ptr, headersOf heap'.memory ptr .block_size⟩ :: free',
    ∀ other ∈ live, block.Disjoint other

/-- `my_malloc` returns, joins the new space to the last free block exactly if that block
ends at the old break, and leaves the live blocks apart from all others. -/
def GrowsSafely (process : Process) (heap : Heap) (free live : List Block) (fuel size : Nat) :
    Prop :=
  ∃ ptr heap' free', myMalloc process fuel size heap = .ok (ptr, heap') ∧
    Grown process heap free live size ptr heap' free'

/-- The last node of the list, which is the head if there is no free block. -/
def lastNode (process : Process) (free : List Block) : Nat :=
  (free.map Block.addr).getLastD process.head

theorem lastNode_concat (process : Process) (before : List Block) (last : Block) :
    lastNode process (before ++ [last]) = last.addr :=
  getLastD_addr before last process.head

/-- The request is large enough for the header of a block and small enough for the
arithmetic, the test for joining says what it should, and a block of its own has room for
the request behind its size word. -/
structure GrowthFits (process : Process) (heap : Heap) (free : List Block) (size : Nat) :
    Prop where
  large : MIN_SIZE ≤ size
  noWrap : size + MEM_INC_SIZE < SIZE_RANGE
  test : lastNode process free + MSG_SIZE * WORD_SIZE = heap.brk ↔ EndsAt free heap.brk
  room : EndsAt free heap.brk ∨ size % MEM_INC_SIZE ≤ MEM_INC_SIZE - WORD_SIZE

/-! ### The amount -/

theorem amount_eq {size : Nat} (noWrap : size + MEM_INC_SIZE < SIZE_RANGE) :
    amount size = MEM_INC_SIZE * (size / MEM_INC_SIZE + 1) := by
  unfold amount
  apply Nat.mod_eq_of_lt
  rw [MEM_INC_SIZE] at noWrap ⊢
  omega

section Growth

variable {process : Process} {heap : Heap} {size : Nat}

/-- An `sbrk` that succeeds. -/
theorem sbrk_raises (bottomBelow : process.bottom ≤ heap.brk)
    (raised : heap.brk + amount size ≤ process.limit) :
    sbrk process ((amount size : Int).bmod SIZE_RANGE) heap =
      .ok (some heap.brk, { heap with brk := heap.brk + amount size }) := by
  have limitFits := process.limitFits
  have same : ((amount size : Int).bmod SIZE_RANGE) = amount size := by
    rw [Int.bmod_def, SIZE_RANGE]
    omega
  unfold sbrk
  rw [same]
  dsimp only
  rw [if_pos ⟨by omega, by omega⟩]
  congr 3

/-- A request for no memory tells the break. -/
theorem sbrk_zero (bottomBelow : process.bottom ≤ heap.brk) (brkFits : heap.brk ≤ process.limit) :
    sbrk process 0 heap = .ok (some heap.brk, heap) := by
  unfold sbrk
  dsimp only
  rw [Int.add_zero, if_pos ⟨by omega, by omega⟩, Int.toNat_natCast]

variable {nodes : Set Nat} {headers : Headers} {members : List Nat}
  (extended : sbrk process ((amount size : Int).bmod SIZE_RANGE) heap =
    .ok (some heap.brk, { heap with brk := heap.brk + amount size }))
  (holds : Holds process { heap with brk := heap.brk + amount size } nodes headers)
  (list : headers.IsList process.head members)
  (known : ∀ node ∈ process.head :: members, node ∈ nodes)
  (headSize : headers process.head .block_size = 0)

include list known in
theorem last_known : headers process.head .prev = members.getLastD process.head ∧
    headers process.head .prev ∈ nodes := by
  have whole : headers.IsList process.head (members ++ []) := by rwa [List.append_nil]
  have last : headers process.head .prev = members.getLastD process.head := whole.prev_right
  refine ⟨last, known _ ?_⟩
  rw [last]
  exact List.getLastD_mem_cons

include holds list known headSize in
/-- The test for joining compares with an address 192 bytes behind the last node. -/
theorem test_eq :
    (headers process.head .prev + MSG_SIZE * headers process.head .block_size +
        MSG_SIZE * WORD_SIZE) % SIZE_RANGE = heap.brk ↔
      members.getLastD process.head + MSG_SIZE * WORD_SIZE = heap.brk := by
  obtain ⟨last, lastIn⟩ := last_known list known
  have below := holds.below lastIn
  have brkFits := holds.brkFits
  have limitFits := process.limitFits
  rw [headSize, Nat.mul_zero, Nat.add_zero, Nat.mod_eq_of_lt, last]
  rw [MSG_SIZE, WORD_SIZE, SIZE_RANGE]
  omega

include extended holds list known headSize in
/-- The new space joins the last node, whatever ends there. -/
theorem growHeap_join
    (test : members.getLastD process.head + MSG_SIZE * WORD_SIZE = heap.brk) :
    ∃ heap' headers', growHeap process size heap = .ok (members.getLastD process.head, heap') ∧
      Within nodes { heap with brk := heap.brk + amount size } heap' ∧
      Holds process heap' nodes headers' ∧
      headers'.IsList process.head members ∧
      headers' (members.getLastD process.head) .block_size =
        (headers (members.getLastD process.head) .block_size + amount size) % SIZE_RANGE ∧
      ∀ node, node ≠ members.getLastD process.head →
        headers' node .block_size = headers node .block_size := by
  obtain ⟨last, lastIn⟩ := last_known list known
  have headIn : process.head ∈ nodes := known _ List.mem_cons_self
  have taken := (test_eq holds list known headSize).mpr test
  obtain ⟨heap₁, ran₁, within₁, holds₁⟩ := holds.store lastIn .block_size
    (Nat.mod_lt (headers (headers process.head .prev) .block_size + amount size)
      (by decide : 0 < SIZE_RANGE))
  have load₁ := holds₁.load headIn .prev
  simp only [Headers.set, and_false, if_false, reduceCtorEq] at load₁
  rw [last] at load₁
  have joins : joinLast process size { heap with brk := heap.brk + amount size } =
      .ok ((), heap₁) := by
    unfold joinLast
    rw [bind_ok (holds.load headIn .prev), bind_ok (holds.load lastIn .block_size)]
    exact ran₁
  refine ⟨heap₁, _, ?_, within₁, holds₁, ?_, ?_, ?_⟩
  · unfold growHeap
    rw [bind_ok extended]
    dsimp only
    rw [bind_ok (holds.load headIn .prev), bind_ok (holds.load headIn .block_size), if_pos taken,
      bind_ok joins]
    exact load₁
  · apply list.congr
    · intro node _
      simp [Headers.set]
    · intro node _
      simp [Headers.set]
  · simp [Headers.set, last]
  · intro node different
    unfold Headers.set
    rw [last, if_neg fun both => different both.1]

include extended holds list known headSize in
/-- Otherwise it becomes a block of its own. -/
theorem growHeap_append (distinct : (process.head :: members).Nodup)
    (newIn : heap.brk ∈ nodes) (fresh : heap.brk ∉ process.head :: members)
    (test : members.getLastD process.head + MSG_SIZE * WORD_SIZE ≠ heap.brk) :
    ∃ heap' headers', growHeap process size heap = .ok (heap.brk, heap') ∧
      Within nodes { heap with brk := heap.brk + amount size } heap' ∧
      Holds process heap' nodes headers' ∧
      headers'.IsList process.head (members ++ [heap.brk]) ∧
      headers' heap.brk .block_size = minus (amount size) WORD_SIZE ∧
      ∀ node, node ≠ heap.brk → headers' node .block_size = headers node .block_size := by
  obtain ⟨last, lastIn⟩ := last_known list known
  have headIn : process.head ∈ nodes := known _ List.mem_cons_self
  have notTaken := (test_eq holds list known headSize).not.mpr test
  obtain ⟨heap₁, headers₁, ran₁, within₁, holds₁, list₁, newSize, others⟩ :=
    appendBlock_spec holds list distinct known newIn fresh size
  have whole : headers₁.IsList process.head ((members ++ [heap.brk]) ++ []) := by
    rwa [List.append_nil]
  have last₁ : headers₁ process.head .prev = heap.brk :=
    (whole.prev_right).trans List.getLastD_concat
  refine ⟨heap₁, headers₁, ?_, within₁, holds₁, list₁, newSize, others⟩
  unfold growHeap
  rw [bind_ok extended]
  dsimp only
  rw [bind_ok (holds.load headIn .prev), bind_ok (holds.load headIn .block_size),
    if_neg notTaken, bind_ok ran₁, holds₁.load headIn .prev, last₁]

end Growth

/-! ### The call -/

section Call

variable {process : Process} {heap : Heap} {free live : List Block} {size fuel : Nat}
  (wellFormed : WellFormed process heap free live)
  (noneFits : ∀ block ∈ free, block.size < size)
  (raised : heap.brk + amount size ≤ process.limit)
  (enough : free.length < fuel)

include wellFormed noneFits enough in
/-- The search fails, and the heap grows. -/
theorem myMalloc_grows :
    myMalloc process fuel size heap =
      (growHeap process size >>= fun ptr => takeBlock process ptr size) heap := by
  have placed := wellFormed.placed.of_append
  have known := mem_nodesOf process free
  have holds := wellFormed.holds_some (fun _ => placed.start_inside) placed.apart
  have list : (headersOf heap.memory).IsList process.head ([] ++ free.map Block.addr) :=
    wellFormed.freeList.list
  have first : headersOf heap.memory process.head .next =
      (free.map Block.addr).headD process.head := list.next_left
  have failed : findBlock process size fuel ((free.map Block.addr).headD process.head) heap =
      .ok (process.head, heap) := by
    apply findBlock_none holds list
    · intro node member
      exact known node (List.mem_cons_of_mem _ member)
    · exact (List.nodup_cons.mp wellFormed.nodup).1
    · intro node member
      obtain ⟨block, blockIn, rfl⟩ := List.mem_map.mp member
      rw [wellFormed.freeList.sizes block blockIn]
      exact noneFits block blockIn
    · rwa [List.length_map]
  rw [myMalloc_eq, bind_ok (holds.load (known _ List.mem_cons_self) .next), first, bind_ok failed,
    if_pos rfl]

include wellFormed in
/-- The new space is disjoint from all blocks. -/
theorem placed_new (some_ : MSG_SIZE ≤ amount size) :
    Placed process (heap.brk + amount size)
      (⟨heap.brk, amount size - WORD_SIZE⟩ :: (free ++ live)) := by
  have bottomBelow := wellFormed.bottomBelow
  have placed := wellFormed.placed
  rw [MSG_SIZE] at some_
  apply (placed.raise (Nat.le_add_right heap.brk (amount size))).cons
  · simp only [Block.stop, WORD_SIZE]
    omega
  · show MIN_SIZE ≤ amount size - WORD_SIZE
    rw [MIN_SIZE, MSG_SIZE, WORD_SIZE]
    omega
  · intro other member
    right
    exact (placed.inside other member).2

include wellFormed raised in
/-- Growth with a test that fails: the new space is the last block of the list. -/
theorem growHeap_appends (some_ : MSG_SIZE ≤ amount size)
    (test : lastNode process free + MSG_SIZE * WORD_SIZE ≠ heap.brk) :
    ∃ heap', growHeap process size heap = .ok (heap.brk, heap') ∧
      Within (nodesOf process (free ++ [⟨heap.brk, amount size - WORD_SIZE⟩]))
        { heap with brk := heap.brk + amount size } heap' ∧
      WellFormed process heap' (free ++ [⟨heap.brk, amount size - WORD_SIZE⟩]) live := by
  have grown := Nat.le_add_right heap.brk (amount size)
  have higher := wellFormed.raise grown raised
  have placed : Placed process (heap.brk + amount size)
      ((free ++ [⟨heap.brk, amount size - WORD_SIZE⟩]) ++ live) := by
    apply (placed_new wellFormed some_).perm
    simpa using List.perm_middle.symm
  have holds := higher.holds_some (fun _ => placed.of_append.start_inside) placed.of_append.apart
  have known := mem_nodesOf process (free ++ [⟨heap.brk, amount size - WORD_SIZE⟩])
  have distinct := placed.of_append.nodup
  rw [List.map_append, List.map_singleton] at known distinct
  have moved : (process.head :: (free.map Block.addr ++ [heap.brk])).Perm
      (heap.brk :: process.head :: free.map Block.addr) :=
    List.perm_append_singleton heap.brk (process.head :: free.map Block.addr)
  obtain ⟨fresh, oldDistinct⟩ := List.nodup_cons.mp (moved.nodup_iff.mp distinct)
  obtain ⟨heap', headers', ran, within, holds', list, newSize, others⟩ :=
    growHeap_append (sbrk_raises wellFormed.bottomBelow raised) holds wellFormed.freeList.list
      (fun node member => known node (moved.mem_iff.mpr (List.mem_cons_of_mem _ member)))
      wellFormed.headSize oldDistinct (known heap.brk (by simp)) fresh test
  have sameSizes : ∀ node ∈ process.head :: free.map Block.addr,
      headers' node .block_size = headersOf heap.memory node .block_size := by
    intro node member
    apply others
    rintro rfl
    exact fresh member
  refine ⟨heap', ran, within, WellFormed.of_holds holds' ?_ ?_ ?_ ?_ ?_ ?_ ?_⟩
  · rwa [List.map_append]
  · rwa [List.map_append]
  · intro block member
    rcases List.mem_append.mp member with old | isNew
    · rw [sameSizes _ (List.mem_cons_of_mem _ (List.mem_map_of_mem old))]
      exact wellFormed.freeList.sizes block old
    · rw [List.mem_singleton.mp isNew, newSize]
      apply minus_eq
      · rw [MSG_SIZE] at some_
        rw [WORD_SIZE]
        omega
      · exact Nat.mod_lt _ (by decide)
  · exact (sameSizes _ List.mem_cons_self).trans wellFormed.headSize
  · exact liveSizes_of_within higher within placed.header_apart
  · rw [within.brk]
    exact placed
  · rw [List.pairwise_append]
    refine ⟨wellFormed.sorted, List.pairwise_singleton _ _, ?_⟩
    intro block isFree other isNew
    have below := wellFormed.placed.of_append.start_inside isFree
    rw [MSG_SIZE] at below
    rw [List.mem_singleton.mp isNew]
    dsimp only
    omega

/-- The new space as a block that touches the last one. -/
theorem placed_gained {before : List Block} {last : Block}
    (wellFormed : WellFormed process heap (before ++ [last]) live)
    (some_ : MSG_SIZE ≤ amount size) (stops : last.stop = heap.brk) :
    Placed process (heap.brk + amount size)
      ((before ++ [⟨last.addr, last.size + amount size⟩]) ++ live) := by
  have joined : last.join ⟨heap.brk, amount size - WORD_SIZE⟩ =
      ⟨last.addr, last.size + amount size⟩ := by
    rw [MSG_SIZE] at some_
    unfold Block.join
    rw [WORD_SIZE, Nat.sub_add_cancel (by omega)]
  have apart : Placed process (heap.brk + amount size)
      (last :: ⟨heap.brk, amount size - WORD_SIZE⟩ :: (before ++ live)) := by
    apply (placed_new wellFormed some_).perm
    rw [List.append_assoc]
    exact (List.perm_middle.cons _).trans (List.Perm.swap _ _ _)
  rw [List.append_assoc]
  apply (joined ▸ apart.join stops).perm
  exact List.perm_middle.symm

include raised in
/-- Growth with a test that holds: the last block gains the new space, if that leaves the
blocks disjoint. -/
theorem growHeap_joins {before : List Block} {last : Block}
    (wellFormed : WellFormed process heap (before ++ [last]) live)
    (placed : Placed process (heap.brk + amount size)
      ((before ++ [⟨last.addr, last.size + amount size⟩]) ++ live))
    (test : last.addr + MSG_SIZE * WORD_SIZE = heap.brk) :
    ∃ heap', growHeap process size heap = .ok (last.addr, heap') ∧
      Within (nodesOf process (before ++ [last]))
        { heap with brk := heap.brk + amount size } heap' ∧
      WellFormed process heap' (before ++ [⟨last.addr, last.size + amount size⟩]) live := by
  have limitFits := process.limitFits
  have higher := wellFormed.raise (Nat.le_add_right heap.brk (amount size)) raised
  have holds := higher.holds_some (fun _ => higher.placed.of_append.start_inside)
    higher.placed.of_append.apart
  have known := mem_nodesOf process (before ++ [last])
  have distinct := wellFormed.nodup
  have list := wellFormed.freeList.list
  have lastSize := wellFormed.freeList.sizes last (by simp)
  have sameAddrs : (before ++ [(⟨last.addr, last.size + amount size⟩ : Block)]).map Block.addr =
      (before ++ [last]).map Block.addr := by
    simp only [List.map_append, List.map_cons, List.map_nil]
  have atEnd : ((before ++ [last]).map Block.addr).getLastD process.head = last.addr :=
    getLastD_addr before last process.head
  obtain ⟨heap', headers', ran, within, holds', list', newSize, others⟩ :=
    growHeap_join (sbrk_raises wellFormed.bottomBelow raised) holds list known
      wellFormed.headSize (atEnd.symm ▸ test)
  rw [atEnd] at ran newSize others
  have sum : (last.size + amount size) % SIZE_RANGE = last.size + amount size := by
    have high : last.addr + WORD_SIZE + (last.size + amount size) ≤ heap.brk + amount size :=
      (placed.inside ⟨last.addr, last.size + amount size⟩ (by simp)).2
    apply Nat.mod_eq_of_lt
    rw [SIZE_RANGE]
    omega
  rw [List.map_append, List.map_singleton] at distinct
  have lastFresh := (List.nodup_cons.mp ((List.perm_append_singleton last.addr
    (process.head :: before.map Block.addr)).nodup_iff.mp distinct)).1
  have sameSizes : ∀ node ∈ process.head :: before.map Block.addr,
      headers' node .block_size = headersOf heap.memory node .block_size := by
    intro node member
    apply others
    rintro rfl
    exact lastFresh member
  refine ⟨heap', ran, within, WellFormed.of_holds holds' ?_ ?_ ?_ ?_ ?_ ?_ ?_⟩
  · rw [sameAddrs]
    exact list'
  · rw [sameAddrs]
    exact known
  · intro block member
    rcases List.mem_append.mp member with old | isLast
    · rw [sameSizes _ (List.mem_cons_of_mem _ (List.mem_map_of_mem old))]
      exact wellFormed.freeList.sizes block (List.mem_append_left _ old)
    · rw [List.mem_singleton.mp isLast]
      dsimp only
      rw [newSize, lastSize, sum]
  · exact (sameSizes _ List.mem_cons_self).trans wellFormed.headSize
  · exact liveSizes_of_within higher within higher.placed.header_apart
  · rw [within.brk]
    exact placed
  · have sorted := wellFormed.sorted
    rw [List.pairwise_append] at sorted ⊢
    refine ⟨sorted.1, List.pairwise_singleton _ _, ?_⟩
    intro block isFree other isNew
    rw [List.mem_singleton.mp isNew]
    exact sorted.2.2 block isFree last (List.mem_singleton_self last)

/-- What growth makes of the end of the heap: the new space alone, or joined to a last free
block that ended at the old break. -/
def IsGrown (heap : Heap) (free : List Block) (size : Nat) (chosen : Block) : Prop :=
  chosen.stop = heap.brk + amount size ∧
    (chosen.addr = heap.brk ∨ ∃ last ∈ free, last.addr = chosen.addr ∧ last.stop = heap.brk)

include wellFormed noneFits raised enough in
/-- The block that growth hands out is live in the heap it leaves. -/
theorem myMalloc_grown (fits : GrowthFits process heap free size) :
    ∃ chosen heap' free' taken kept, myMalloc process fuel size heap = .ok (chosen.addr, heap') ∧
      heap'.brk = heap.brk + amount size ∧ IsGrown heap free size chosen ∧
      ((∃ last ∈ free.getLast?, chosen.addr = last.addr) ↔ EndsAt free heap.brk) ∧ size ≤ taken ∧
      WellFormed process heap' free' (⟨chosen.addr, taken⟩ :: live) ∧ kept.Sublist free ∧
      Handed process heap heap' kept free' chosen taken := by
  have added := amount_eq fits.noWrap
  rw [MEM_INC_SIZE] at added
  have some_ : MSG_SIZE ≤ amount size := by
    rw [MSG_SIZE]
    omega
  have higher := wellFormed.raise (Nat.le_add_right heap.brk (amount size)) raised
  rw [myMalloc_grows wellFormed noneFits enough]
  by_cases ends : EndsAt free heap.brk
  · have test := fits.test.mpr ends
    have joins := ends
    obtain ⟨last, isLast, stops⟩ := ends
    obtain ⟨before, rfl⟩ := List.getLast?_eq_some_iff.mp isLast
    have atLast : last.addr + MSG_SIZE * WORD_SIZE = heap.brk := by
      rw [← test, lastNode_concat]
    obtain ⟨heap₁, ran₁, within₁, wellFormed₁⟩ := growHeap_joins raised wellFormed
      (placed_gained wellFormed some_ stops) atLast
    have changes₁ : ChangesOnly (Writable process before ⟨last.addr, last.size + amount size⟩)
        { heap with brk := heap.brk + amount size } heap₁ := by
      apply changesOnly_taken higher wellFormed₁ within₁
      · intro other member
        rcases List.mem_append.mp member with old | isLast_
        · exact Or.inr ⟨old, List.mem_append_left _ old, List.mem_append_left _ old⟩
        · left
          rw [List.mem_singleton.mp isLast_]
          simp only [Block.stop, MSG_SIZE, WORD_SIZE] at some_ ⊢
          omega
      · exact wellFormed.addr_lt
    obtain ⟨heap₂, free₂, taken, ran₂, brk₂, enough_, wellFormed₂, handed⟩ :=
      takeBlock_live wellFormed₁ (by dsimp only; omega) (Or.inl fits.large)
    rw [List.append_nil] at handed
    refine ⟨⟨last.addr, last.size + amount size⟩, heap₂, free₂, taken, before, ?_,
      brk₂.trans within₁.brk, ⟨?_, Or.inr ⟨last, by simp, rfl, stops⟩⟩,
      ⟨fun _ => joins, fun _ => ⟨last, isLast, rfl⟩⟩, enough_, wellFormed₂,
      List.sublist_append_left _ _, { handed with
        changes := handed.changes.trans fun place outside => changes₁ place outside }⟩
    · rw [bind_ok ran₁]
      exact ran₂
    · rw [← stops, Block.stop, Block.stop]
      exact (Nat.add_assoc _ _ _).symm
  · have room := fits.room.resolve_left ends
    rw [MEM_INC_SIZE, WORD_SIZE] at room
    obtain ⟨heap₁, ran₁, within₁, wellFormed₁⟩ :=
      growHeap_appends wellFormed raised some_ (fits.test.not.mpr ends)
    have stop : Block.stop ⟨heap.brk, amount size - WORD_SIZE⟩ = heap.brk + amount size := by
      rw [MSG_SIZE] at some_
      rw [Block.stop, WORD_SIZE]
      dsimp only
      omega
    have changes₁ : ChangesOnly (Writable process free ⟨heap.brk, amount size - WORD_SIZE⟩)
        { heap with brk := heap.brk + amount size } heap₁ := by
      apply changesOnly_taken higher wellFormed₁ within₁
      · intro other member
        rcases List.mem_append.mp member with old | isNew
        · exact Or.inr ⟨old, old, List.mem_append_left _ old⟩
        · left
          rw [List.mem_singleton.mp isNew, stop]
          exact ⟨Nat.le_refl _, Nat.add_le_add_left some_ _⟩
      · apply wellFormed₁.addr_lt
    obtain ⟨heap₂, free₂, taken, ran₂, brk₂, enough_, wellFormed₂, handed⟩ :=
      takeBlock_live wellFormed₁ (by dsimp only; rw [WORD_SIZE]; omega) (Or.inl fits.large)
    rw [List.append_nil] at handed
    refine ⟨⟨heap.brk, amount size - WORD_SIZE⟩, heap₂, free₂, taken, free, ?_,
      brk₂.trans within₁.brk, ⟨stop, Or.inl rfl⟩, ⟨?_, fun ends_ => absurd ends_ ends⟩, enough_,
      wellFormed₂, List.Sublist.refl _, { handed with
        changes := handed.changes.trans fun place outside => changes₁ place outside }⟩
    · rw [bind_ok ran₁]
      exact ran₂
    · rintro ⟨last, isLast, same⟩
      have start := wellFormed.placed.of_append.start_inside (List.mem_of_mem_getLast? isLast)
      have sameBrk : heap.brk = last.addr := same
      rw [← sameBrk, MSG_SIZE] at start
      omega

include wellFormed noneFits raised enough in
theorem grows (fits : GrowthFits process heap free size) :
    GrowsSafely process heap free live fuel size := by
  obtain ⟨chosen, heap', free', taken, kept, ran, brk, -, joined, -, wellFormed', -, -⟩ :=
    myMalloc_grown wellFormed noneFits raised enough fits
  refine ⟨chosen.addr, heap', free', ran, brk, joined, wellFormed'.freeList, ?_⟩
  have isTaken : headersOf heap'.memory chosen.addr .block_size = taken :=
    wellFormed'.liveSizes ⟨chosen.addr, taken⟩ List.mem_cons_self
  have apart : ((⟨chosen.addr, taken⟩ :: free') ++ live).Pairwise Block.Disjoint :=
    (List.perm_middle.pairwise_iff Or.symm).mp wellFormed'.disjoint
  rw [isTaken]
  exact (List.pairwise_append.mp apart).2.2

/-! ### Where growth goes wrong -/

/-- The block that is taken is the one that was chosen. -/
theorem takeBlock_returns (process : Process) (heap : Heap) (ptr size : Nat) :
    Returns (takeBlock process ptr size) heap fun result _ => result = ptr := by
  have anything (program : Run Unit) (state : Heap) : Returns program state fun _ _ => True :=
    fun _ _ _ => trivial
  exact Returns.bind (anything _ _) fun _ _ _ => Returns.bind (anything _ _) fun _ _ _ =>
    Returns.pure rfl

/-- A block at the break that is too small makes the difference wrap around, and the rest is
written behind the break. -/
theorem splitBlock_faults {nodes : Set Nat} {headers : Headers} {ptr : Nat}
    (holds : Holds process heap nodes headers) (ptrIn : ptr ∈ nodes)
    (low : process.bottom ≤ ptr) (small : headers ptr .block_size < size)
    (fits : ptr + size + MSG_SIZE < SIZE_RANGE)
    (atEnd : heap.brk = ptr + WORD_SIZE + headers ptr .block_size) :
    splitBlock process ptr size heap = .error .fault := by
  have headBelow := process.headBelow
  rw [MSG_SIZE] at fits headBelow
  rw [WORD_SIZE] at atEnd
  have wraps : MSG_SIZE ≤ minus (headers ptr .block_size) size := by
    unfold minus
    rw [Nat.mod_eq_of_lt (by omega), MSG_SIZE]
    omega
  have outside :
      ¬ Accessible process heap (addrOf ((ptr + size + WORD_SIZE) % SIZE_RANGE) .next) := by
    have rest : (ptr + size + WORD_SIZE) % SIZE_RANGE = ptr + size + WORD_SIZE :=
      Nat.mod_eq_of_lt (by rw [WORD_SIZE]; omega)
    have field : addrOf (ptr + size + WORD_SIZE) .next = ptr + size + WORD_SIZE + 2 * WORD_SIZE :=
      addrOf_of_lt (by rw [Field.offset, WORD_SIZE]; omega)
    rw [rest, field]
    simp only [Accessible, WORD_SIZE, MSG_SIZE]
    omega
  have faults : ∀ value, store process ((ptr + size + WORD_SIZE) % SIZE_RANGE) .next value heap =
      .error .fault := by
    intro value
    unfold store
    rw [if_neg outside]
  unfold splitBlock
  rw [bind_ok (holds.load ptrIn .block_size), if_pos wraps, bind_ok (holds.load ptrIn .next)]
  exact bind_stop (faults _)

/-- A request of ordinary size, and no list head 192 bytes below the break that could be
taken for a block. -/
structure Ordinary (process : Process) (heap : Heap) (free : List Block) (size : Nat) : Prop where
  large : MIN_SIZE ≤ size
  noWrap : size + MEM_INC_SIZE < SIZE_RANGE
  noHead : free = [] → process.head + MSG_SIZE * WORD_SIZE ≠ heap.brk

include wellFormed noneFits raised enough in
theorem fits_of_growsSafely (ordinary : Ordinary process heap free size)
    (safe : GrowsSafely process heap free live fuel size) : GrowthFits process heap free size := by
  obtain ⟨ptr, heap', free', ran, grown⟩ := safe
  have added := amount_eq ordinary.noWrap
  have limitFits := process.limitFits
  rw [myMalloc_grows wellFormed noneFits enough] at ran
  by_cases test : lastNode process free + MSG_SIZE * WORD_SIZE = heap.brk
  · -- the new space is joined to the last node, which then has to be a block
    have higher := wellFormed.raise (Nat.le_add_right heap.brk (amount size)) raised
    have holds := higher.holds_some (fun _ => higher.placed.of_append.start_inside)
      higher.placed.of_append.apart
    obtain ⟨heap₁, headers₁, ran₁, -, -, -, -, -⟩ :=
      growHeap_join (sbrk_raises wellFormed.bottomBelow raised) holds wellFormed.freeList.list
        (mem_nodesOf process free) wellFormed.headSize test
    rw [bind_ok ran₁] at ran
    have same := takeBlock_returns process heap₁ _ size _ _ ran
    have ends : EndsAt free heap.brk := by
      apply grown.joined.mp
      cases isLast : free.getLast? with
      | none =>
          have empty := List.getLast?_eq_none_iff.mp isLast
          rw [lastNode, empty] at test
          exact absurd test (ordinary.noHead empty)
      | some last =>
          refine ⟨last, rfl, ?_⟩
          obtain ⟨before, whole⟩ := List.getLast?_eq_some_iff.mp isLast
          rw [same, whole]
          exact getLastD_addr before last process.head
    exact ⟨ordinary.large, ordinary.noWrap, ⟨fun _ => ends, fun _ => test⟩, Or.inl ends⟩
  · -- the new space is a block of its own, so no block may end at the break
    have some_ : MSG_SIZE ≤ amount size := by
      rw [MEM_INC_SIZE] at added
      rw [MSG_SIZE]
      omega
    obtain ⟨heap₁, ran₁, within₁, wellFormed₁⟩ := growHeap_appends wellFormed raised some_ test
    have newSize : headersOf heap₁.memory heap.brk .block_size = amount size - WORD_SIZE :=
      wellFormed₁.freeList.sizes ⟨heap.brk, amount size - WORD_SIZE⟩ (by simp)
    have holds₁ := wellFormed₁.holds_some (fun _ => wellFormed₁.placed.of_append.start_inside)
      wellFormed₁.placed.of_append.apart
    rw [bind_ok ran₁] at ran
    have same := takeBlock_returns process heap₁ _ size _ _ ran
    have notEnds : ¬ EndsAt free heap.brk := by
      intro ends
      obtain ⟨last, isLast, isPtr⟩ := grown.joined.mpr ends
      have start := wellFormed.placed.of_append.start_inside (List.mem_of_mem_getLast? isLast)
      rw [← isPtr, same, MSG_SIZE] at start
      omega
    refine ⟨ordinary.large, ordinary.noWrap,
      ⟨fun taken => absurd taken test, fun ends => absurd ends notEnds⟩, Or.inr ?_⟩
    by_contra beyond
    have faults : splitBlock process heap.brk size heap₁ = .error .fault := by
      apply splitBlock_faults holds₁ (mem_nodesOf _ _ _ (by simp)) wellFormed.bottomBelow
      · rw [newSize, added, WORD_SIZE]
        rw [MEM_INC_SIZE, WORD_SIZE] at beyond
        rw [MEM_INC_SIZE]
        omega
      · rw [added, MEM_INC_SIZE] at raised
        rw [MSG_SIZE, SIZE_RANGE]
        omega
      · rw [within₁.brk, newSize, WORD_SIZE]
        show heap.brk + amount size = _
        rw [MSG_SIZE] at some_
        omega
    unfold takeBlock at ran
    rw [bind_stop faults] at ran
    cases ran

end Call

/-- Growth is safe under `GrowthFits`, and for ordinary requests only then. -/
theorem myMalloc_growth (process : Process) (heap : Heap) (free live : List Block)
    (size fuel : Nat) (wellFormed : WellFormed process heap free live)
    (noneFits : ∀ block ∈ free, block.size < size)
    (raised : heap.brk + amount size ≤ process.limit) (enough : free.length < fuel) :
    (GrowthFits process heap free size → GrowsSafely process heap free live fuel size) ∧
    (Ordinary process heap free size → GrowsSafely process heap free live fuel size →
      GrowthFits process heap free size) := by
  constructor
  · exact grows wellFormed noneFits raised enough
  · exact fits_of_growsSafely wellFormed noneFits raised enough

/-! ### Two small heaps -/

/-- A process with its list head at address 0. -/
def smallProcess : Process := ⟨0, 4096, 2 ^ 40, by decide, by decide⟩

def writeHeader (ptr block_size prev next : Nat) (memory : ByteMemory) : ByteMemory :=
  let memory := ByteMemory.write memory (addrOf ptr .block_size) WORD_SIZE block_size
  let memory := ByteMemory.write memory (addrOf ptr .prev) WORD_SIZE prev
  ByteMemory.write memory (addrOf ptr .next) WORD_SIZE next

/-- Blocks at 4096, 4120 and 4144 and a break at 4312; the block at 4120 is free. -/
def smallHeap (freeSize : Nat) : Heap where
  memory := writeHeader 0 0 4120 4120 (writeHeader 4096 16 0 0
    (writeHeader 4144 160 0 0 (writeHeader 4120 freeSize 0 0 fun _ => 0)))
  brk := 4312

/-- The free block reaches up to the break. -/
theorem smallHeap_reaching :
    WellFormed smallProcess (smallHeap 184) [⟨4120, 184⟩] [⟨4096, 16⟩] where
  bottomBelow := by decide
  brkFits := by decide
  inside := by decide
  large := by decide
  disjoint := by decide
  sorted := by decide
  freeList := by
    constructor
    · exact .cons_cons ⟨by decide +kernel, by decide +kernel⟩
        (.cons_cons ⟨by decide +kernel, by decide +kernel⟩ (.singleton _))
    · decide +kernel
  liveSizes := by decide +kernel
  headSize := by decide +kernel

/-- The free block is followed by a live one, 192 bytes before the break. -/
theorem smallHeap_between :
    WellFormed smallProcess (smallHeap 16) [⟨4120, 16⟩] [⟨4096, 16⟩, ⟨4144, 160⟩] where
  bottomBelow := by decide
  brkFits := by decide
  inside := by decide
  large := by decide
  disjoint := by decide
  sorted := by decide
  freeList := by
    constructor
    · exact .cons_cons ⟨by decide +kernel, by decide +kernel⟩
        (.cons_cons ⟨by decide +kernel, by decide +kernel⟩ (.singleton _))
    · decide +kernel
  liveSizes := by decide +kernel
  headSize := by decide +kernel

theorem myMalloc_growth_joined :
    GrowsSafely smallProcess (smallHeap 184) [⟨4120, 184⟩] [⟨4096, 16⟩] 2 1000 :=
  (myMalloc_growth smallProcess (smallHeap 184) [⟨4120, 184⟩] [⟨4096, 16⟩] 1000 2
    smallHeap_reaching (by decide) (by decide) (by decide)).1
    ⟨by decide, by decide, by decide, by decide⟩

/-- A request of 100 bytes is joined to the free block, although a live one lies between it
and the break, and the block that is returned covers a part of that one. -/
theorem myMalloc_overlaps :
    WellFormed smallProcess (smallHeap 16) [⟨4120, 16⟩] [⟨4096, 16⟩, ⟨4144, 160⟩] ∧
      (smallHeap 16).brk + amount 100 ≤ smallProcess.limit ∧
      ¬ GrowsSafely smallProcess (smallHeap 16) [⟨4120, 16⟩] [⟨4096, 16⟩, ⟨4144, 160⟩] 2 100 ∧
      ∃ heap', myMalloc smallProcess 2 100 (smallHeap 16) = .ok (4120, heap') ∧
        ¬ Block.Disjoint ⟨4120, headersOf heap'.memory 4120 .block_size⟩ ⟨4144, 160⟩ := by
  refine ⟨smallHeap_between, by decide, ?_, _, rfl, by decide +kernel⟩
  intro safe
  have fits := fits_of_growsSafely smallHeap_between (by decide) (by decide) (by decide)
    ⟨by decide, by decide, by decide⟩ safe
  exact absurd (fits.test.mp rfl) (by decide)

end LinuxProgramming.Allocator
