import LinuxProgramming.Library.ByteMemory
import Mathlib.Algebra.Order.Ring.Int
import Mathlib.Data.Int.DivMod

/-!
Contract: `my_malloc` and `my_free` of `mymalloc_myfree.c`, on the bytes of the heap.

Owns:
- the process: where the list head and the heap lie, the program break and `sbrk`;
- access to the fields of a `struct free_block_msg` at any address;
- both functions, statement by statement, with `size_t` arithmetic modulo 2^64.

Does not own: well-formed heaps, or any fact about the functions.
-/

namespace LinuxProgramming.Allocator

open LinuxProgramming.Library

def MEM_INC_SIZE : Nat := 1024

/-- `sizeof(size_t)`, also the size of a pointer. -/
def WORD_SIZE : Nat := 8

/-- `sizeof(struct free_block_msg)`. -/
def MSG_SIZE : Nat := 24

/-- The number of values of a `size_t`. -/
def SIZE_RANGE : Nat := 2 ^ 64

/-- A difference in `size_t`. -/
def minus (left right : Nat) : Nat :=
  (left + SIZE_RANGE - right) % SIZE_RANGE

/-- What does not change: the list head is a static variable, and static variables lie
below the heap. User addresses have 47 bits, and the break may not go beyond `limit`. -/
structure Process where
  /-- `&free_block_list_head`. -/
  head : Nat
  bottom : Nat
  limit : Nat
  headBelow : head + MSG_SIZE ≤ bottom
  limitFits : limit ≤ 2 ^ 47

structure Heap where
  memory : ByteMemory
  /-- The program break. -/
  brk : Nat

/-- Why a call does not return. -/
inductive Stop where
  /-- An access outside the list head and the heap. -/
  | fault
  /-- `exit(EXIT_FAILURE)`. -/
  | exit
  | outOfFuel
deriving DecidableEq, Repr

abbrev Run := StateT Heap (Except Stop)

def stop {α : Type} (reason : Stop) : Run α := fun _ => .error reason

/-- The fields of a `struct free_block_msg`. -/
inductive Field where
  | block_size
  | prev
  | next
deriving DecidableEq, Repr

def Field.offset : Field → Nat
  | .block_size => 0
  | .prev => WORD_SIZE
  | .next => 2 * WORD_SIZE

/-- `&ptr->field`. -/
def addrOf (ptr : Nat) (field : Field) : Nat :=
  (ptr + field.offset) % SIZE_RANGE

theorem addrOf_of_lt {ptr : Nat} {field : Field} (fits : ptr + field.offset < SIZE_RANGE) :
    addrOf ptr field = ptr + field.offset :=
  Nat.mod_eq_of_lt fits

/-- `block_size` is the first field. -/
theorem addrOf_block_size {ptr : Nat} (isAddress : ptr < SIZE_RANGE) :
    addrOf ptr .block_size = ptr :=
  addrOf_of_lt isAddress

section Program

variable (process : Process)

/-- The word at `addr` belongs to the list head or lies in the heap. -/
def Accessible (heap : Heap) (addr : Nat) : Prop :=
  (process.head ≤ addr ∧ addr + WORD_SIZE ≤ process.head + MSG_SIZE) ∨
    (process.bottom ≤ addr ∧ addr + WORD_SIZE ≤ heap.brk)

instance (heap : Heap) (addr : Nat) : Decidable (Accessible process heap addr) :=
  inferInstanceAs (Decidable (_ ∨ _))

/-- `ptr->field`. -/
def load (ptr : Nat) (field : Field) : Run Nat := fun heap =>
  if Accessible process heap (addrOf ptr field) then
    .ok (heap.memory.read (addrOf ptr field) WORD_SIZE, heap)
  else .error .fault

/-- `ptr->field = value`. -/
def store (ptr : Nat) (field : Field) (value : Nat) : Run Unit := fun heap =>
  if Accessible process heap (addrOf ptr field) then
    .ok ((), { heap with memory := heap.memory.write (addrOf ptr field) WORD_SIZE value })
  else .error .fault

/-- `sbrk`: the old break, or nothing if the new one would lie outside the process's
bounds. The memory that is gained keeps whatever bytes it has. -/
def sbrk (increment : Int) : Run (Option Nat) := fun heap =>
  let brk := heap.brk + increment
  if process.bottom ≤ brk ∧ brk ≤ process.limit then
    .ok (some heap.brk, { heap with brk := brk.toNat })
  else .ok (none, heap)

/-- The loop that looks for a free block. -/
def findBlock (size : Nat) : Nat → Nat → Run Nat
  | 0, _ => stop .outOfFuel
  | fuel + 1, ptr =>
      if ptr = process.head then pure ptr
      else do
        let block_size ← load process ptr .block_size
        if size ≤ block_size then pure ptr
        else do
          let next ← load process ptr .next
          findBlock size fuel next

/-- The `size_t` handed to `sbrk`, and added to or put into a block. -/
def amount (size : Nat) : Nat :=
  MEM_INC_SIZE * (size / MEM_INC_SIZE + 1) % SIZE_RANGE

/-- `free_block_list_head_p->prev->block_size += …`. -/
def joinLast (size : Nat) : Run Unit := do
  let last ← load process process.head .prev
  let block_size ← load process last .block_size
  store process last .block_size ((block_size + amount size) % SIZE_RANGE)

/-- The new space as a block of its own, at the end of the list. -/
def appendBlock (size temp_p : Nat) : Run Unit := do
  store process temp_p .block_size (minus (amount size) WORD_SIZE)
  let last ← load process process.head .prev
  store process temp_p .prev last
  store process temp_p .next process.head
  let last ← load process process.head .prev
  store process last .next temp_p
  store process process.head .prev temp_p

/-- What `my_malloc` does when no free block is large enough. The test adds to a pointer to
`struct free_block_msg`, so both summands count in such structures. -/
def growHeap (size : Nat) : Run Nat := do
  let extended ← sbrk process ((amount size : Int).bmod SIZE_RANGE)
  match extended with
  | none => stop .exit
  | some temp_p => do
      let last ← load process process.head .prev
      let block_size ← load process process.head .block_size
      if (last + MSG_SIZE * block_size + MSG_SIZE * WORD_SIZE) % SIZE_RANGE = temp_p then
        joinLast process size
      else appendBlock process size temp_p
      load process process.head .prev

/-- The rest of a block behind the first `size` bytes becomes a block. -/
def splitBlock (ptr size : Nat) : Run Unit := do
  let block_size ← load process ptr .block_size
  if MSG_SIZE ≤ minus block_size size then
    let temp_p := (ptr + size + WORD_SIZE) % SIZE_RANGE
    let next ← load process ptr .next
    store process temp_p .next next
    store process temp_p .prev ptr
    let next ← load process ptr .next
    store process next .prev temp_p
    store process ptr .next temp_p
    let block_size ← load process ptr .block_size
    store process temp_p .block_size (minus (minus block_size size) WORD_SIZE)
    store process ptr .block_size size

/-- The block leaves the list. -/
def unlinkBlock (ptr : Nat) : Run Unit := do
  let prev ← load process ptr .prev
  let next ← load process ptr .next
  store process prev .next next
  let next ← load process ptr .next
  let prev ← load process ptr .prev
  store process next .prev prev

/-- `my_malloc`; `fuel` bounds the search. -/
def myMalloc (fuel size : Nat) : Run Nat := do
  let first ← load process process.head .next
  let found ← findBlock process size fuel first
  let ptr ← if found = process.head then growHeap process size else pure found
  splitBlock process ptr size
  unlinkBlock process ptr
  pure ptr

/-- The loop that looks for the place of a block in the list. -/
def findPosition (ptr : Nat) : Nat → Nat → Run Nat
  | 0, _ => stop .outOfFuel
  | fuel + 1, tmp_p =>
      if tmp_p = process.head then pure tmp_p
      else if ptr < tmp_p then pure tmp_p
      else do
        let next ← load process tmp_p .next
        findPosition ptr fuel next

/-- `(void *)ptr + ptr->block_size + sizeof(size_t)`. -/
def blockEnd (ptr : Nat) : Run Nat := do
  let block_size ← load process ptr .block_size
  pure ((ptr + block_size + WORD_SIZE) % SIZE_RANGE)

/-- The test for a neighbour, which is not the list head: `block` ends at `target`. -/
def adjoins (neighbour block target : Nat) : Run Bool :=
  if neighbour = process.head then pure false
  else do
    let stop ← blockEnd process block
    pure (decide (stop = target))

/-- Merging with the block behind, or linking to it. -/
def joinNext (ptr tmp_p : Nat) : Run Unit := do
  let adjacent ← adjoins process tmp_p ptr tmp_p
  if adjacent then
    let next ← load process tmp_p .next
    store process ptr .next next
    let tmp_size ← load process tmp_p .block_size
    let block_size ← load process ptr .block_size
    store process ptr .block_size ((block_size + (tmp_size + WORD_SIZE)) % SIZE_RANGE)
    let next ← load process tmp_p .next
    store process next .prev ptr
  else
    store process ptr .next tmp_p
    store process tmp_p .prev ptr

/-- Merging with the block in front, or linking to it. -/
def joinFront (ptr tmp_front_p : Nat) : Run Unit := do
  let adjacent ← adjoins process tmp_front_p tmp_front_p ptr
  if adjacent then
    let block_size ← load process ptr .block_size
    let front_size ← load process tmp_front_p .block_size
    store process tmp_front_p .block_size
      ((front_size + (block_size + WORD_SIZE)) % SIZE_RANGE)
    let next ← load process ptr .next
    store process tmp_front_p .next next
    let next ← load process ptr .next
    store process next .prev tmp_front_p
  else
    store process ptr .prev tmp_front_p
    store process tmp_front_p .next ptr

/-- `my_free` up to the break. -/
def insertBlock (fuel ptr : Nat) : Run Unit := do
  let first ← load process process.head .next
  let tmp_p ← findPosition process ptr fuel first
  let tmp_front_p ← load process tmp_p .prev
  joinNext process ptr tmp_p
  joinFront process ptr tmp_front_p

/-- `-1 * free_num * MEM_INC_SIZE`, which is a `size_t`. -/
def decrement (free_num : Nat) : Nat :=
  (SIZE_RANGE - 1) * free_num * MEM_INC_SIZE % SIZE_RANGE

/-- The attempt to lower the break. -/
def trimBreak : Run Unit := do
  let tmp_p ← load process process.head .prev
  let brk ← sbrk process 0
  let stop ← blockEnd process tmp_p
  if brk = some stop then
    let block_size ← load process tmp_p .block_size
    let _ ← sbrk process ((decrement (block_size / MEM_INC_SIZE) : Int).bmod SIZE_RANGE)

/-- `my_free`; `fuel` bounds the search. -/
def myFree (fuel ptr : Nat) : Run Unit := do
  insertBlock process fuel ptr
  trimBreak process

end Program

end LinuxProgramming.Allocator
