import LinuxProgramming.Allocator.Serving

/-!
Contract: which bytes a request changes that is served and given back at once.

Owns:
- the frame of `my_malloc` and of `my_free` after it, byte by byte;
- that all other blocks keep their size words;
- a request too small for the header of a block, which overwrites a live one.

Does not own: what the user stores in between.
-/

namespace LinuxProgramming.Allocator

open LinuxProgramming.Library

/-- No free block is large enough, and `sbrk` does not extend the heap. -/
def Refused (process : Process) (heap : Heap) (free : List Block) (size : Nat) : Prop :=
  (∀ block ∈ free, block.size < size) ∧
    sbrk process ((amount size : Int).bmod SIZE_RANGE) heap = .ok (none, heap)

/-- `my_malloc`, and `my_free` after it, change bytes of the chosen block, links of the list
head and of free blocks, and the size word of a free block that the chosen one is merged
into. Every other block keeps its size word. Where `my_malloc` ends the process there is
nothing to give back. -/
def KeepsFrame (process : Process) (heap : Heap) (free live : List Block) (fuel size : Nat) :
    Prop :=
  myMalloc process fuel size heap = .error .exit ∨
    ∃ chosen heap₁ heap₂, IsChosen heap free size chosen ∧
      myMalloc process fuel size heap = .ok (chosen.addr, heap₁) ∧
      myFree process fuel chosen.addr heap₁ = .ok ((), heap₂) ∧
      ChangesOnly (Writable process free chosen) heap heap₁ ∧
      ChangesOnly (Writable process free chosen) heap₁ heap₂ ∧
      ∀ other ∈ free ++ live, other.addr ≠ chosen.addr → ¬ (other ∈ free ∧ other.Touches chosen) →
        headersOf heap₁.memory other.addr .block_size = other.size ∧
        headersOf heap₂.memory other.addr .block_size = other.size

section Frame

variable {process : Process} {heap heap' : Heap} {free live : List Block}
  {chosen other : Block} {size fuel : Nat}

/-- No other block meets the chosen one. -/
theorem IsChosen.disjoint (wellFormed : WellFormed process heap free live)
    (isChosen : IsChosen heap free size chosen) (member : other ∈ free ++ live)
    (different : other.addr ≠ chosen.addr) :
    other.stop ≤ chosen.addr ∨ chosen.stop ≤ other.addr := by
  have high := (wellFormed.inside other member).2
  rcases isChosen with isFree | ⟨stop, isNew | ⟨last, isFree, sameAddr, stops⟩⟩
  · have notSame : other ≠ chosen := fun same => different (congrArg Block.addr same)
    exact wellFormed.disjoint.forall member (List.mem_append_left _ isFree) notSame
  · exact Or.inl (high.trans (Nat.le_of_eq isNew.symm))
  · have notSame : other ≠ last := by
      rintro rfl
      exact different sameAddr
    have apart : other.Disjoint last :=
      wellFormed.disjoint.forall member (List.mem_append_left _ isFree) notSame
    simp only [Block.Disjoint, Block.stop, WORD_SIZE] at apart stops high ⊢
    omega

/-- The size word of a block is no place that may change, unless the chosen block is merged
into this one. -/
theorem size_kept (wellFormed : WellFormed process heap free live)
    (isChosen : IsChosen heap free size chosen) (member : other ∈ free ++ live)
    (different : other.addr ≠ chosen.addr) (notMerged : ¬ (other ∈ free ∧ other.Touches chosen))
    {before after : Heap} (changes : ChangesOnly (Writable process free chosen) before after) :
    headersOf after.memory other.addr .block_size =
      headersOf before.memory other.addr .block_size := by
  have headBelow := process.headBelow
  have placed := wellFormed.placed
  obtain ⟨low, high⟩ := placed.inside other member
  have isAddress : other.addr < SIZE_RANGE :=
    ((Nat.le_add_right _ _).trans (placed.start_inside member).2).trans_lt wellFormed.brk_lt
  have word : addrOf other.addr .block_size = other.addr := addrOf_block_size isAddress
  have fromChosen := isChosen.disjoint wellFormed member different
  have fromFree : ∀ block ∈ free, block = other ∨ other.stop ≤ block.addr ∨
      block.addr + MSG_SIZE ≤ other.addr := by
    intro block isFree
    by_cases same : block = other
    · exact Or.inl same
    · right
      have apart : block.Disjoint other :=
        wellFormed.disjoint.forall (List.mem_append_left _ isFree) member same
      have large := placed.large block (List.mem_append_left _ isFree)
      simp only [Block.Disjoint, Block.stop, MIN_SIZE, MSG_SIZE, WORD_SIZE] at apart large ⊢
      omega
  unfold headersOf
  rw [word]
  apply ByteMemory.read_congr
  intro place from_ below
  apply changes
  rw [Block.stop, WORD_SIZE] at high fromChosen
  rintro (inside | ⟨node, nodeIn, links⟩ | ⟨front, isFree, touches, inWord⟩)
  · rw [WORD_SIZE] at below
    omega
  · rw [MSG_SIZE] at headBelow
    rcases List.mem_cons.mp nodeIn with rfl | isBlock
    · rw [MSG_SIZE] at links
      omega
    · obtain ⟨block, isFree, rfl⟩ := List.mem_map.mp isBlock
      rcases fromFree block isFree with rfl | apart
      · omega
      · rw [Block.stop, MSG_SIZE, WORD_SIZE] at apart
        rw [MSG_SIZE] at links
        rw [WORD_SIZE] at below
        omega
  · rcases fromFree front isFree with rfl | apart
    · exact notMerged ⟨isFree, touches⟩
    · rw [Block.stop, MSG_SIZE, WORD_SIZE] at apart
      rw [WORD_SIZE] at inWord below
      omega

/-- A well-formed heap shows the size of each block. -/
theorem WellFormed.size_of (wellFormed : WellFormed process heap free live)
    (member : other ∈ free ++ live) :
    headersOf heap.memory other.addr .block_size = other.size := by
  rcases List.mem_append.mp member with isFree | isLive
  · exact wellFormed.freeList.sizes other isFree
  · exact wellFormed.liveSizes other isLive

/-- A request that is served and given back keeps the frame. -/
theorem keepsFrame_of_served (wellFormed : WellFormed process heap free live)
    (served : Served process heap free size) (enough : free.length + 1 < fuel) :
    KeepsFrame process heap free live fuel size := by
  obtain ⟨chosen, heap₁, free₁, taken, ran₁, isChosen, -, wellFormed₁, handed⟩ :=
    myMalloc_serves wellFormed served (Nat.lt_of_succ_lt enough)
  obtain ⟨heap₂, ran₂, changes₂⟩ :=
    myFree_changes wellFormed₁ handed (handed.length.trans_lt enough)
  refine Or.inr ⟨chosen, heap₁, heap₂, isChosen, ran₁, ran₂, handed.changes, changes₂, ?_⟩
  intro other member different notMerged
  have first := size_kept wellFormed isChosen member different notMerged handed.changes
  have second := size_kept wellFormed isChosen member different notMerged changes₂
  rw [second, first]
  exact ⟨wellFormed.size_of member, wellFormed.size_of member⟩

/-- A request that is refused ends the process. -/
theorem myMalloc_refused (wellFormed : WellFormed process heap free live)
    (refused : Refused process heap free size) (enough : free.length < fuel) :
    myMalloc process fuel size heap = .error .exit := by
  rw [myMalloc_grows wellFormed refused.1 enough]
  apply bind_stop
  unfold growHeap
  rw [bind_ok refused.2]
  rfl

end Frame

theorem staticProcess_limitFits : 2 ^ 40 ≤ 2 ^ 47 := by decide

/-- A process with its list head where the static variables of a program usually lie. -/
def staticProcess : Process := ⟨4210784, 4214784, 2 ^ 40, by decide, staticProcess_limitFits⟩

/-- A live block of 16 bytes, and behind it a free block of four megabytes. -/
def largeHeap : Heap where
  memory := writeHeader 4210784 0 4214808 4214808 (writeHeader 4214784 16 0 0
    (writeHeader 4214808 4214792 4210784 4210784 fun _ => 0))
  brk := 8429608

theorem largeHeap_wellFormed :
    WellFormed staticProcess largeHeap [⟨4214808, 4214792⟩] [⟨4214784, 16⟩] where
  bottomBelow := by decide
  brkFits := by decide
  inside := by decide
  large := by decide
  disjoint := by decide
  sorted := by decide
  freeList := by
    constructor
    · exact .cons_cons ⟨by decide +kernel, by decide +kernel⟩
        (.cons_cons ⟨by decide +kernel, by decide +kernel⟩ (.singleton _))
    · decide +kernel
  liveSizes := by decide +kernel
  headSize := by decide +kernel

end LinuxProgramming.Allocator
