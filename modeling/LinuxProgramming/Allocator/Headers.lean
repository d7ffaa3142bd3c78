import LinuxProgramming.Allocator.Model
import LinuxProgramming.Library.Ring
import Mathlib.Data.List.Nodup
import Mathlib.Data.Set.Pairwise.Basic

/-!
Contract: the headers of blocks as records, and how the allocator's statements act on
them.

Owns:
- `Holds`: headers at places that do not overlap and may be accessed;
- the rules for loading and storing a field, and which bytes that changes;
- what splitting, unlinking and appending a block do to the list.

Does not own: which blocks there are.
-/

namespace LinuxProgramming.Allocator

open LinuxProgramming.Library

/-! ### Sequencing -/

section Sequence

variable {α β : Type} {program : Run α} {next : α → Run β} {heap heap' : Heap} {result : α}

theorem bind_ok (ran : program heap = .ok (result, heap')) :
    (program >>= next) heap = next result heap' := by
  show (program heap >>= fun step => next step.1 step.2) = _
  rw [ran]
  rfl

theorem bind_stop {reason : Stop} (stopped : program heap = .error reason) :
    (program >>= next) heap = .error reason := by
  show (program heap >>= fun step => next step.1 step.2) = _
  rw [stopped]
  rfl

end Sequence

/-! ### Headers -/

/-- The fields of the headers at all addresses. -/
abbrev Headers := Nat → Field → Nat

/-- The headers after one assignment. -/
def Headers.set (headers : Headers) (node : Nat) (field : Field) (value : Nat) : Headers :=
  fun other otherField =>
    if other = node ∧ otherField = field then value else headers other otherField

/-- Two headers have no byte in common. -/
def Apart (left right : Nat) : Prop :=
  left + MSG_SIZE ≤ right ∨ right + MSG_SIZE ≤ left

/-- The break stays, and so do all bytes outside the headers at `nodes`. -/
structure Within (nodes : Set Nat) (before after : Heap) : Prop where
  brk : after.brk = before.brk
  bytes : ∀ place, (∀ node ∈ nodes, place < node ∨ node + MSG_SIZE ≤ place) →
    after.memory place = before.memory place

theorem Within.trans {nodes : Set Nat} {first second third : Heap}
    (after : Within nodes second third) (before : Within nodes first second) :
    Within nodes first third where
  brk := after.brk.trans before.brk
  bytes place outside := (after.bytes place outside).trans (before.bytes place outside)

/-- The headers at `nodes` are these, and all of them may be accessed. -/
structure Holds (process : Process) (heap : Heap) (nodes : Set Nat) (headers : Headers) :
    Prop where
  bottomBelow : process.bottom ≤ heap.brk
  brkFits : heap.brk ≤ process.limit
  inside : ∀ node ∈ nodes,
    node = process.head ∨ (process.bottom ≤ node ∧ node + MSG_SIZE ≤ heap.brk)
  apart : nodes.Pairwise Apart
  shows : ∀ node ∈ nodes, ∀ field, heap.memory.read (addrOf node field) WORD_SIZE =
    headers node field

variable {process : Process} {heap : Heap} {nodes : Set Nat} {headers : Headers} {node : Nat}

theorem Field.offset_le (field : Field) : field.offset + WORD_SIZE ≤ MSG_SIZE := by
  cases field
  · decide
  · decide
  · decide

theorem Field.offset_apart {left right : Field} (different : left ≠ right) :
    left.offset + WORD_SIZE ≤ right.offset ∨ right.offset + WORD_SIZE ≤ left.offset := by
  revert different
  cases left <;> cases right <;> decide

namespace Holds

theorem below (holds : Holds process heap nodes headers) (member : node ∈ nodes) :
    node + MSG_SIZE ≤ heap.brk := by
  have headBelow := process.headBelow
  have bottomBelow := holds.bottomBelow
  rcases holds.inside node member with rfl | ⟨-, below⟩
  · omega
  · exact below

theorem lt_range (holds : Holds process heap nodes headers) (member : node ∈ nodes) :
    node < SIZE_RANGE := by
  have below := holds.below member
  have brkFits := holds.brkFits
  have limitFits := process.limitFits
  rw [SIZE_RANGE]
  omega

theorem addrOf_eq (holds : Holds process heap nodes headers) (member : node ∈ nodes)
    (field : Field) : addrOf node field = node + field.offset := by
  have below := holds.below member
  have brkFits := holds.brkFits
  have limitFits := process.limitFits
  have small := field.offset_le
  apply addrOf_of_lt
  rw [SIZE_RANGE]
  omega

theorem accessible (holds : Holds process heap nodes headers) (member : node ∈ nodes)
    (field : Field) : Accessible process heap (addrOf node field) := by
  have small := field.offset_le
  rw [holds.addrOf_eq member]
  unfold Accessible
  rcases holds.inside node member with rfl | ⟨low, high⟩
  · left
    omega
  · right
    omega

theorem load (holds : Holds process heap nodes headers) (member : node ∈ nodes)
    (field : Field) : load process node field heap = .ok (headers node field, heap) := by
  unfold Allocator.load
  rw [if_pos (holds.accessible member field), holds.shows node member]

theorem lt_field (holds : Holds process heap nodes headers) (member : node ∈ nodes)
    (field : Field) : headers node field < SIZE_RANGE := by
  rw [← holds.shows node member]
  exact ByteMemory.read_lt _ _ _

/-- A store changes one field of one header. -/
theorem store (holds : Holds process heap nodes headers) (member : node ∈ nodes)
    (field : Field) {value : Nat} (fits : value < SIZE_RANGE) :
    ∃ heap', Allocator.store process node field value heap = .ok ((), heap') ∧
      Within nodes heap heap' ∧ Holds process heap' nodes (headers.set node field value) := by
  refine ⟨{ heap with memory := heap.memory.write (addrOf node field) WORD_SIZE value }, ?_,
    ⟨rfl, ?_⟩, holds.bottomBelow, holds.brkFits, holds.inside, holds.apart, ?_⟩
  · unfold Allocator.store
    rw [if_pos (holds.accessible member field)]
  · intro place outside
    have small := field.offset_le
    have apart := outside node member
    apply ByteMemory.write_other
    rw [holds.addrOf_eq member]
    omega
  · intro other otherMember otherField
    unfold Headers.set
    by_cases same : other = node ∧ otherField = field
    · obtain ⟨rfl, rfl⟩ := same
      rw [if_pos ⟨rfl, rfl⟩]
      dsimp only
      rw [ByteMemory.read_write]
      exact Nat.mod_eq_of_lt fits
    · rw [if_neg same, ← holds.shows other otherMember]
      apply ByteMemory.read_write_other
      rw [holds.addrOf_eq member, holds.addrOf_eq otherMember]
      by_cases sameNode : other = node
      · subst sameNode
        have fieldsApart := Field.offset_apart fun sameField => same ⟨rfl, sameField⟩
        omega
      · have nodesApart := holds.apart otherMember member sameNode
        have small := field.offset_le
        have otherSmall := otherField.offset_le
        unfold Apart at nodesApart
        omega

end Holds

theorem minus_eq {left right : Nat} (enough : right ≤ left) (fits : left < SIZE_RANGE) :
    minus left right = left - right := by
  unfold minus
  rw [show left + SIZE_RANGE - right = left - right + SIZE_RANGE by omega, Nat.add_mod_right,
    Nat.mod_eq_of_lt (by omega)]

/-! ### The list -/

/-- The members of the list behind `head`. -/
def Headers.IsList (headers : Headers) (head : Nat) (members : List Nat) : Prop :=
  Ring (fun node => headers node .next) (fun node => headers node .prev) head members

section Lists

variable {before after : List Nat} {block : Nat}

/-- The neighbours of a block are in the list, or the head. -/
theorem Headers.IsList.prev_mem {head : Nat}
    (list : headers.IsList head (before ++ block :: after)) :
    headers block .prev ∈ head :: (before ++ block :: after) := by
  rw [list.at_member.1]
  exact Ring.left_mem _ _ _

theorem Headers.IsList.next_mem {head : Nat}
    (list : headers.IsList head (before ++ block :: after)) :
    headers block .next ∈ head :: (before ++ block :: after) := by
  rw [list.at_member.2, List.append_cons]
  exact Ring.right_mem _ _ _

/-- A block leaves the list; no size changes. -/
theorem unlinkBlock_spec (holds : Holds process heap nodes headers)
    (list : headers.IsList process.head (before ++ block :: after))
    (distinct : (process.head :: (before ++ block :: after)).Nodup)
    (known : ∀ node ∈ process.head :: (before ++ block :: after), node ∈ nodes) :
    ∃ heap' headers', unlinkBlock process block heap = .ok ((), heap') ∧ Within nodes heap heap' ∧
      Holds process heap' nodes headers' ∧
      headers'.IsList process.head (before ++ after) ∧
      ∀ node, headers' node .block_size = headers node .block_size := by
  have absent : block ∉ process.head :: (before ++ after) := by
    have around : ((process.head :: before) ++ block :: after).Nodup := distinct
    exact (List.nodup_cons.mp (List.nodup_middle.mp around)).1
  have blockIn : block ∈ nodes := known block (by simp)
  have prevIn : headers block .prev ∈ nodes := known _ list.prev_mem
  have nextIn : headers block .next ∈ nodes := known _ list.next_mem
  obtain ⟨heap₁, ran₁, within₁, holds₁⟩ := holds.store prevIn .next (holds.lt_field blockIn .next)
  have next₁ : (headers.set (headers block .prev) .next (headers block .next)) block .next =
      headers block .next := by
    unfold Headers.set
    split
    · rfl
    · rfl
  have prev₁ : (headers.set (headers block .prev) .next (headers block .next)) block .prev =
      headers block .prev := by
    unfold Headers.set
    rw [if_neg (by simp)]
  obtain ⟨heap₂, ran₂, within₂, holds₂⟩ := holds₁.store nextIn .prev (holds.lt_field blockIn .prev)
  refine ⟨heap₂, _, ?_, within₂.trans within₁, holds₂, ?_, ?_⟩
  · unfold unlinkBlock
    rw [bind_ok (holds.load blockIn .prev), bind_ok (holds.load blockIn .next), bind_ok ran₁,
      bind_ok (holds₁.load blockIn .next), bind_ok (holds₁.load blockIn .prev), next₁, prev₁]
    exact ran₂
  · apply Ring.unlink list absent
    · simp [Headers.set]
    · simp [Headers.set]
    · intro node _ different
      simp [Headers.set, different]
    · intro node _ different
      simp [Headers.set, different]
  · intro node
    simp [Headers.set]

/-- The headers after a split, in the order of the assignments. -/
def Headers.split (headers : Headers) (block size rest : Nat) : Headers :=
  (((((headers.set rest .next (headers block .next)).set rest .prev block).set
    (headers block .next) .prev rest).set block .next rest).set rest .block_size
    (headers block .block_size - size - WORD_SIZE)).set block .block_size size

/-- A split links the rest in behind the block. -/
theorem Headers.IsList.split {head rest : Nat}
    (list : headers.IsList head (before ++ block :: after))
    (distinct : (head :: (before ++ block :: after)).Nodup)
    (fresh : rest ∉ head :: (before ++ block :: after)) (size : Nat) :
    (headers.split block size rest).IsList head (before ++ block :: rest :: after) := by
  have notRest : ∀ node ∈ head :: (before ++ block :: after), node ≠ rest := by
    rintro node member rfl
    exact fresh member
  have blockNotRest : block ≠ rest := notRest block (by simp)
  have nextNotRest : headers block .next ≠ rest := notRest _ list.next_mem
  have last : (before ++ [block]).getLastD head = block := List.getLastD_concat
  have isRight : after.headD head = headers block .next := list.at_member.2.symm
  rw [List.append_cons] at list distinct notRest ⊢
  apply Ring.insert list distinct
  · rw [last]
    simp [Headers.split, Headers.set, blockNotRest]
  · rw [last]
    simp [Headers.split, Headers.set, nextNotRest.symm]
  · rw [isRight]
    simp [Headers.split, Headers.set, blockNotRest.symm]
  · rw [isRight]
    simp [Headers.split, Headers.set]
  · intro node member different
    rw [last] at different
    simp [Headers.split, Headers.set, different, notRest node member]
  · intro node member different
    rw [isRight] at different
    simp [Headers.split, Headers.set, different, notRest node member]

/-- The rest of a block becomes the block behind it. -/
theorem splitBlock_spec {size rest : Nat} (holds : Holds process heap nodes headers)
    (list : headers.IsList process.head (before ++ block :: after))
    (distinct : (process.head :: (before ++ block :: after)).Nodup)
    (known : ∀ node ∈ process.head :: (before ++ block :: after), node ∈ nodes)
    (restIn : rest ∈ nodes) (fresh : rest ∉ process.head :: (before ++ block :: after))
    (isRest : rest = block + size + WORD_SIZE)
    (room : size + MSG_SIZE ≤ headers block .block_size) :
    ∃ heap' headers', splitBlock process block size heap = .ok ((), heap') ∧
      Within nodes heap heap' ∧ Holds process heap' nodes headers' ∧
      headers'.IsList process.head (before ++ block :: rest :: after) ∧
      headers' block .block_size = size ∧
      headers' rest .block_size = headers block .block_size - size - WORD_SIZE ∧
      ∀ node, node ≠ block → node ≠ rest →
        headers' node .block_size = headers node .block_size := by
  have blockIn : block ∈ nodes := known block (by simp)
  have nextIn : headers block .next ∈ nodes := known _ list.next_mem
  have sizeLt := holds.lt_field blockIn .block_size
  have restLt := holds.lt_range restIn
  have blockLt := holds.lt_range blockIn
  have restNotBlock : rest ≠ block := by
    rintro rfl
    apply fresh
    simp
  rw [MSG_SIZE] at room
  have remainder : minus (headers block .block_size) size = headers block .block_size - size :=
    minus_eq (by omega) sizeLt
  have remainder_ : minus (headers block .block_size - size) WORD_SIZE =
      headers block .block_size - size - WORD_SIZE :=
    minus_eq (by rw [WORD_SIZE]; omega) (by omega)
  obtain ⟨heap₁, ran₁, within₁, holds₁⟩ := holds.store restIn .next (holds.lt_field blockIn .next)
  obtain ⟨heap₂, ran₂, within₂, holds₂⟩ := holds₁.store restIn .prev blockLt
  have load₂ := holds₂.load blockIn .next
  obtain ⟨heap₃, ran₃, within₃, holds₃⟩ := holds₂.store nextIn .prev restLt
  obtain ⟨heap₄, ran₄, within₄, holds₄⟩ := holds₃.store blockIn .next restLt
  have load₄ := holds₄.load blockIn .block_size
  have restSize : headers block .block_size - size - WORD_SIZE < SIZE_RANGE := by omega
  obtain ⟨heap₅, ran₅, within₅, holds₅⟩ := holds₄.store restIn .block_size restSize
  obtain ⟨heap₆, ran₆, within₆, holds₆⟩ := holds₅.store blockIn .block_size (by omega : size < _)
  -- none of the stores before them changes what these two loads read
  simp only [Headers.set, restNotBlock.symm, false_and, if_false, and_false, reduceCtorEq]
    at load₂ load₄
  refine ⟨heap₆, headers.split block size rest, ?_,
    within₆.trans (within₅.trans (within₄.trans (within₃.trans (within₂.trans within₁)))), holds₆,
    list.split distinct fresh size, ?_, ?_, ?_⟩
  · unfold splitBlock
    rw [bind_ok (holds.load blockIn .block_size), remainder, if_pos (by rw [MSG_SIZE]; omega),
      ← isRest, Nat.mod_eq_of_lt restLt, bind_ok (holds.load blockIn .next), bind_ok ran₁,
      bind_ok ran₂, bind_ok load₂, bind_ok ran₃, bind_ok ran₄, bind_ok load₄, remainder,
      remainder_, bind_ok ran₅]
    exact ran₆
  · simp [Headers.split, Headers.set]
  · simp [Headers.split, Headers.set, restNotBlock]
  · intro node notBlock notRest
    simp [Headers.split, Headers.set, notBlock, notRest]

/-- A new block joins the list at its end. -/
theorem appendBlock_spec {members : List Nat} {temp_p : Nat}
    (holds : Holds process heap nodes headers) (list : headers.IsList process.head members)
    (distinct : (process.head :: members).Nodup)
    (known : ∀ node ∈ process.head :: members, node ∈ nodes)
    (newIn : temp_p ∈ nodes) (fresh : temp_p ∉ process.head :: members) (size : Nat) :
    ∃ heap' headers', appendBlock process size temp_p heap = .ok ((), heap') ∧
      Within nodes heap heap' ∧ Holds process heap' nodes headers' ∧
      headers'.IsList process.head (members ++ [temp_p]) ∧
      headers' temp_p .block_size = minus (amount size) WORD_SIZE ∧
      ∀ node, node ≠ temp_p → headers' node .block_size = headers node .block_size := by
  have whole : headers.IsList process.head (members ++ []) := by rwa [List.append_nil]
  have last : headers process.head .prev = members.getLastD process.head := whole.prev_right
  have headIn : process.head ∈ nodes := known _ List.mem_cons_self
  have lastIn : headers process.head .prev ∈ nodes := by
    apply known
    rw [last]
    exact List.getLastD_mem_cons
  have newNotHead : temp_p ≠ process.head := by
    rintro rfl
    exact fresh List.mem_cons_self
  have lastNotNew : headers process.head .prev ≠ temp_p := by
    rintro isNew
    apply fresh
    rw [← isNew, last]
    exact List.getLastD_mem_cons
  have sizeLt : minus (amount size) WORD_SIZE < SIZE_RANGE := Nat.mod_lt _ (by decide)
  obtain ⟨heap₁, ran₁, within₁, holds₁⟩ := holds.store newIn .block_size sizeLt
  have load₁ := holds₁.load headIn .prev
  obtain ⟨heap₂, ran₂, within₂, holds₂⟩ := holds₁.store newIn .prev (holds.lt_range lastIn)
  obtain ⟨heap₃, ran₃, within₃, holds₃⟩ := holds₂.store newIn .next (holds.lt_range headIn)
  have load₃ := holds₃.load headIn .prev
  obtain ⟨heap₄, ran₄, within₄, holds₄⟩ := holds₃.store lastIn .next (holds.lt_range newIn)
  obtain ⟨heap₅, ran₅, within₅, holds₅⟩ := holds₄.store headIn .prev (holds.lt_range newIn)
  refine ⟨heap₅, _, ?_,
    within₅.trans (within₄.trans (within₃.trans (within₂.trans within₁))), holds₅, ?_, ?_, ?_⟩
  · unfold appendBlock
    simp only [Headers.set, newNotHead.symm, false_and, if_false, and_false, reduceCtorEq]
      at load₁ load₃
    rw [bind_ok ran₁, bind_ok load₁, bind_ok ran₂, bind_ok ran₃, bind_ok load₃, bind_ok ran₄]
    exact ran₅
  · have memberNotNew : ∀ node ∈ process.head :: (members ++ []), node ≠ temp_p := by
      rintro node member rfl
      rw [List.append_nil] at member
      exact fresh member
    apply Ring.insert whole (by rwa [List.append_nil])
    · rw [← last]
      simp [Headers.set]
    · rw [← last]
      simp [Headers.set, newNotHead]
    · simp [Headers.set, lastNotNew.symm]
    · simp [Headers.set]
    · intro node member different
      rw [← last] at different
      simp [Headers.set, different, memberNotNew node member]
    · intro node member different
      have notHead : node ≠ process.head := different
      simp [Headers.set, notHead, memberNotNew node member]
  · simp [Headers.set]
  · intro node different
    simp [Headers.set, different]

end Lists

end LinuxProgramming.Allocator
