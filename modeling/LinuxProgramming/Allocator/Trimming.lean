import LinuxProgramming.Allocator.Coalescing

/-!
Contract: what `my_free` does to the break.

Owns:
- by how much the break is lowered;
- when every free block still lies below it.

Does not own: the list, which trimming leaves as it is.
-/

namespace LinuxProgramming.Allocator

open LinuxProgramming.Library

/-- The blocks that a walk from the list head meets before it comes back. -/
structure WalksThrough (process : Process) (memory : ByteMemory) (free : List Block) : Prop where
  freeList : FreeList process memory free
  notHead : process.head ∉ free.map Block.addr

/-- `my_free` returns, and every block on the free list lies below the break. -/
def StaysBelowBreak (process : Process) (fuel ptr : Nat) (heap : Heap) : Prop :=
  ∃ heap' free', myFree process fuel ptr heap = .ok ((), heap') ∧
    WalksThrough process heap'.memory free' ∧ ∀ other ∈ free', other.stop ≤ heap'.brk

/-- What will be on the list: the block together with the free blocks it touches, and the
free blocks it does not touch. -/
def WillBeFree (free : List Block) (block top : Block) : Prop :=
  MergedWith free block top ∨ (top ∈ free ∧ ¬ top.Touches block ∧ ¬ block.Touches top)

/-- No block that will be free ends at the break and has room for what the break is raised by
at least. -/
def NothingToTrim (heap : Heap) (free : List Block) (block : Block) : Prop :=
  ∀ top, WillBeFree free block top → top.stop = heap.brk → top.size < MEM_INC_SIZE

/-! ### The list in memory -/

/-- There is one list in a memory. -/
theorem WalksThrough.unique {process : Process} {memory : ByteMemory} {free others : List Block}
    (walks : WalksThrough process memory free) (again : WalksThrough process memory others) :
    free = others := by
  have sameAddrs : free.map Block.addr = others.map Block.addr :=
    Ring.unique walks.freeList.list again.freeList.list walks.notHead again.notHead
  have sized : ∀ {blocks : List Block}, (∀ block ∈ blocks,
      headersOf memory block.addr .block_size = block.size) →
      blocks = (blocks.map Block.addr).map
        fun addr => ⟨addr, headersOf memory addr .block_size⟩ := by
    intro blocks sizes
    have same : ∀ block ∈ blocks,
        ((fun addr => (⟨addr, headersOf memory addr .block_size⟩ : Block)) ∘ Block.addr) block =
          id block := by
      intro block member
      show Block.mk block.addr _ = block
      rw [sizes block member]
    rw [List.map_map, List.map_congr_left same, List.map_id]
  rw [sized walks.freeList.sizes, sameAddrs, ← sized again.freeList.sizes]

theorem WellFormed.walksThrough {process : Process} {heap : Heap} {free live : List Block}
    (wellFormed : WellFormed process heap free live) :
    WalksThrough process heap.memory free :=
  ⟨wellFormed.freeList, (List.nodup_cons.mp wellFormed.nodup).1⟩

/-! ### The break -/

section Trimming

variable {process : Process} {heap : Heap} {before live : List Block} {last : Block}

/-- Read as a signed number, the decrement is negative. -/
theorem decrement_bmod {free_num : Nat} (small : free_num * MEM_INC_SIZE < 2 ^ 63) :
    ((decrement free_num : Int).bmod SIZE_RANGE) = -(free_num * MEM_INC_SIZE : Int) := by
  unfold decrement
  rw [MEM_INC_SIZE] at small ⊢
  rw [Int.bmod_def, SIZE_RANGE]
  push_cast
  omega

/-- Where `sbrk` leaves the break. -/
def moved (process : Process) (brk : Nat) (increment : Int) : Nat :=
  if process.bottom ≤ brk + increment ∧ brk + increment ≤ process.limit then
    (brk + increment).toNat
  else brk

theorem sbrk_moves (process : Process) (heap : Heap) (increment : Int) :
    ∃ result, sbrk process increment heap =
      .ok (result, { heap with brk := moved process heap.brk increment }) := by
  unfold sbrk moved
  dsimp only
  split
  · exact ⟨_, rfl⟩
  · exact ⟨_, rfl⟩

/-- The break after `my_free`, if `last` is the last free block. -/
def trimmed (process : Process) (brk : Nat) (last : Block) : Nat :=
  if last.stop % SIZE_RANGE = brk then
    moved process brk ((decrement (last.size / MEM_INC_SIZE) : Int).bmod SIZE_RANGE)
  else brk

/-- Only the break changes. -/
theorem trimBreak_spec {nodes : Set Nat} {headers : Headers}
    (holds : Holds process heap nodes headers)
    (list : headers.IsList process.head ((before ++ [last]).map Block.addr))
    (known : ∀ node ∈ process.head :: (before ++ [last]).map Block.addr, node ∈ nodes)
    (size : headers last.addr .block_size = last.size) :
    trimBreak process heap = .ok ((), { heap with brk := trimmed process heap.brk last }) := by
  have lastIn : last.addr ∈ nodes := known _ (by simp)
  have whole : headers.IsList process.head ((before ++ [last]).map Block.addr ++ []) := by
    rw [List.append_nil]
    exact list
  have isLast : headers process.head .prev = last.addr :=
    whole.prev_right.trans (getLastD_addr before last process.head)
  have ends : blockEnd process last.addr heap = .ok (last.stop % SIZE_RANGE, heap) := by
    unfold blockEnd
    rw [bind_ok (holds.load lastIn .block_size), size, Nat.add_right_comm]
    rfl
  unfold trimBreak trimmed
  rw [bind_ok (holds.load (known _ List.mem_cons_self) .prev), isLast,
    bind_ok (sbrk_zero holds.bottomBelow holds.brkFits), bind_ok ends]
  by_cases stops : last.stop % SIZE_RANGE = heap.brk
  · obtain ⟨result, ran⟩ := sbrk_moves process heap
      ((decrement (last.size / MEM_INC_SIZE) : Int).bmod SIZE_RANGE)
    rw [if_pos (by rw [stops]), if_pos stops, bind_ok (holds.load lastIn .block_size), size,
      bind_ok ran]
    rfl
  · rw [if_neg (by simpa using Ne.symm stops), if_neg stops]
    rfl

/-- Trimming does not change the memory. -/
theorem trimBreak_keeps {free : List Block} (wellFormed : WellFormed process heap free live)
    (some_ : free ≠ []) :
    ∃ brk, trimBreak process heap = .ok ((), { heap with brk := brk }) := by
  rcases List.eq_nil_or_concat' free with empty | ⟨first, last, rfl⟩
  · exact absurd empty some_
  · have placed := wellFormed.placed.of_append
    have holds := wellFormed.holds_some (fun _ => placed.start_inside) placed.apart
    have size := wellFormed.freeList.sizes last (by simp)
    exact ⟨_, trimBreak_spec holds wellFormed.freeList.list (mem_nodesOf _ _) size⟩

/-- The break is lowered by the whole multiples of 1024 in a last block that ends there. -/
theorem trimmed_eq (wellFormed : WellFormed process heap (before ++ [last]) live) :
    trimmed process heap.brk last =
      if last.stop = heap.brk then heap.brk - last.size / MEM_INC_SIZE * MEM_INC_SIZE
      else heap.brk := by
  have limitFits := process.limitFits
  have brkFits := wellFormed.brkFits
  obtain ⟨low, high⟩ := wellFormed.placed.of_append.inside last (by simp)
  unfold trimmed
  rw [Nat.mod_eq_of_lt (high.trans_lt wellFormed.brk_lt)]
  by_cases stops : last.stop = heap.brk
  · have fits : last.size / MEM_INC_SIZE * MEM_INC_SIZE ≤ last.size := Nat.div_mul_le_self _ _
    have stopIs := stops
    rw [Block.stop, WORD_SIZE] at stopIs
    rw [if_pos stops, if_pos stops, decrement_bmod (by omega), ← Int.natCast_mul]
    unfold moved
    rw [if_pos ⟨by omega, by omega⟩]
    omega
  · rw [if_neg stops, if_neg stops]

end Trimming

/-! ### The call -/

section Call

variable {process : Process} {heap : Heap} {free live : List Block} {block : Block} {fuel : Nat}

/-- A block that ends at the break is the last one of the list. -/
theorem last_of_stop {before : List Block} {last top : Block}
    (wellFormed : WellFormed process heap (before ++ [last]) live)
    (member : top ∈ before ++ [last]) (stops : top.stop = heap.brk) : top = last := by
  rcases List.mem_append.mp member with inBefore | isLast
  · exfalso
    have alone := List.mem_singleton_self last
    have order := (List.pairwise_append.mp wellFormed.sorted).2.2 top inBefore last alone
    have disjoint := (List.pairwise_append.mp wellFormed.placed.of_append.disjoint).2.2
      top inBefore last alone
    have high := (wellFormed.placed.of_append.inside last (by simp)).2
    simp only [Block.Disjoint, Block.stop, WORD_SIZE] at disjoint high stops
    omega
  · exact List.mem_singleton.mp isLast

/-- `my_free` coalesces the list, and then only lowers the break. -/
theorem myFree_spec (wellFormed : WellFormed process heap free (block :: live))
    (enough : free.length < fuel) :
    ∃ heap₁ before last, myFree process fuel block.addr heap =
        .ok ((), { heap₁ with brk := trimmed process heap.brk last }) ∧ heap₁.brk = heap.brk ∧
      WellFormed process heap₁ (before ++ [last]) live ∧
      ∀ other, other ∈ before ++ [last] ↔ WillBeFree free block other := by
  obtain ⟨before, after, rfl, below, above⟩ := exists_place wellFormed.sorted block.addr
  have placed := wellFormed.placed_inserted
  have shorter : before.length < fuel := by
    rw [List.length_append] at enough
    omega
  obtain ⟨heap₁, ran₁, within₁, wellFormed₁, -⟩ :=
    insertBlock_wellFormed wellFormed below above shorter
  obtain ⟨merged, mergedWith, members⟩ :=
    coalesce_touched placed.of_append wellFormed.brk_lt (sorted_inserted wellFormed below above)
  have willBe : ∀ other, other ∈ coalesce before block after ↔
      WillBeFree (before ++ after) block other := by
    intro other
    rw [members, WillBeFree]
    apply or_congr_left
    constructor
    · rintro rfl
      exact mergedWith
    · exact fun again => again.unique mergedWith
  rcases List.eq_nil_or_concat' (coalesce before block after) with empty | ⟨first, last, whole⟩
  · exact absurd empty (coalesce_ne_nil before block after)
  · rw [whole] at wellFormed₁ willBe
    have placed₁ := wellFormed₁.placed.of_append
    have holds₁ := wellFormed₁.holds_some (fun _ => placed₁.start_inside) placed₁.apart
    have size₁ := wellFormed₁.freeList.sizes last (by simp)
    refine ⟨heap₁, first, last, ?_, within₁.brk, wellFormed₁, willBe⟩
    unfold myFree
    rw [bind_ok ran₁, trimBreak_spec holds₁ wellFormed₁.freeList.list (mem_nodesOf _ _) size₁,
      within₁.brk]

/-- The break may only go down if no block that stays on the list ends there. -/
theorem nothing_of_staysBelow (wellFormed : WellFormed process heap free (block :: live))
    (enough : free.length < fuel) (stays : StaysBelowBreak process fuel block.addr heap) :
    NothingToTrim heap free block := by
  obtain ⟨heap₁, before, last, ran, sameBrk, wellFormed₁, members⟩ := myFree_spec wellFormed enough
  obtain ⟨heap', free', ran', walks', below⟩ := stays
  intro top willBe stops
  rw [ran] at ran'
  cases ran'
  obtain rfl := walks'.unique wellFormed₁.walksThrough
  have topIn := (members top).mpr willBe
  obtain rfl := last_of_stop wellFormed₁ topIn (stops.trans sameBrk.symm)
  have high : top.stop ≤ trimmed process heap.brk top := below top topIn
  rw [← sameBrk, trimmed_eq wellFormed₁, if_pos (stops.trans sameBrk.symm), sameBrk,
    ← stops] at high
  have some_ : top.stop = top.addr + WORD_SIZE + top.size := rfl
  rw [WORD_SIZE] at some_
  rw [MEM_INC_SIZE] at high ⊢
  omega

/-- With nothing to trim the break stays. -/
theorem staysBelow_of_nothing (wellFormed : WellFormed process heap free (block :: live))
    (enough : free.length < fuel) (nothing : NothingToTrim heap free block) :
    StaysBelowBreak process fuel block.addr heap := by
  obtain ⟨heap₁, before, last, ran, sameBrk, wellFormed₁, members⟩ := myFree_spec wellFormed enough
  refine ⟨_, before ++ [last], ran, wellFormed₁.walksThrough, ?_⟩
  have unchanged : trimmed process heap.brk last = heap₁.brk := by
    rw [← sameBrk, trimmed_eq wellFormed₁]
    by_cases stops : last.stop = heap₁.brk
    · have small := nothing last ((members last).mp (by simp)) (stops.trans sameBrk)
      rw [if_pos stops, Nat.div_eq_of_lt small, Nat.zero_mul, Nat.sub_zero]
    · exact if_neg stops
  intro other member
  rw [unchanged]
  exact (wellFormed₁.placed.of_append.inside other member).2

end Call

/-- After `my_free` every free block lies below the break exactly if there was nothing to
trim: the list keeps what the break is lowered by. -/
theorem myFree_belowBreak_iff (process : Process) (heap : Heap) (free live : List Block)
    (block : Block) (fuel : Nat) (wellFormed : WellFormed process heap free (block :: live))
    (enough : free.length < fuel) :
    StaysBelowBreak process fuel block.addr heap ↔ NothingToTrim heap free block :=
  ⟨nothing_of_staysBelow wellFormed enough, staysBelow_of_nothing wellFormed enough⟩

/-- The free block at 4120 ends at the break, and 208 bytes stay below it. -/
theorem myFree_belowBreak_small :
    StaysBelowBreak smallProcess 2 4096 (smallHeap 184) ↔
      NothingToTrim (smallHeap 184) [⟨4120, 184⟩] ⟨4096, 16⟩ :=
  myFree_belowBreak_iff smallProcess (smallHeap 184) [⟨4120, 184⟩] [] ⟨4096, 16⟩ 2
    smallHeap_reaching (by decide)

/-- One live block of 2040 bytes up to the break. -/
def wholeHeap : Heap where
  memory := writeHeader 0 0 0 0 (writeHeader 4096 2040 0 0 fun _ => 0)
  brk := 6144

theorem wholeHeap_wellFormed : WellFormed smallProcess wholeHeap [] [⟨4096, 2040⟩] where
  bottomBelow := by decide
  brkFits := by decide
  inside := by decide
  large := by decide
  disjoint := by decide
  sorted := by decide
  freeList := by
    constructor
    · exact .cons_cons ⟨by decide +kernel, by decide +kernel⟩ (.singleton _)
    · decide
  liveSizes := by decide +kernel
  headSize := by decide +kernel

/-- The break goes down to 5120, and the list keeps the block that ends at 6144. -/
theorem myFree_aboveBreak :
    WellFormed smallProcess wholeHeap [] [⟨4096, 2040⟩] ∧
      ¬ StaysBelowBreak smallProcess 1 4096 wholeHeap := by
  refine ⟨wholeHeap_wellFormed, ?_⟩
  intro stays
  have whole : WillBeFree [] ⟨4096, 2040⟩ ⟨4096, 2040⟩ :=
    Or.inl ⟨by simp, fun _ => rfl, by simp, fun _ => rfl⟩
  have small := nothing_of_staysBelow wholeHeap_wellFormed (by decide) stays _ whole rfl
  exact absurd small (by decide)

end LinuxProgramming.Allocator
