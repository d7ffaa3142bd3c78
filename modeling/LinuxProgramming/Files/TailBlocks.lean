import LinuxProgramming.Files.Tail
import LinuxProgramming.Library.OpenFile

/-!
Contract: the blocks that `my_tail` reads, with every seek of its loop.

Owns:
- the loop of `read_file_and_output` on an open file, whose offset it moves;
- the blocks it reads, which adjoin one another up to the end of the file;
- that what it writes is a suffix of them, and that the loop is that of `Tail`.

Does not own: which suffix it is.
-/

namespace LinuxProgramming.Files.Tail

open LinuxProgramming.Library

/-! ### The loop with its seeks -/

/-- `-1 * step`, a product of `size_t`, as the `off_t` that `lseek` takes. -/
def minusStep (step : Nat) : Int :=
  ((CInt.toSize (-1) * step % 2 ^ 64 : Nat) : Int).bmod (2 ^ 64)

/-- `step`, a `size_t`. -/
def seekStep (offset file_head : Nat) : Nat :=
  if (offset : Int) - file_head < BUFFER_SIZE then CInt.toSize ((offset : Int) - file_head)
  else BUFFER_SIZE

/-- `lseek(fd, offset, SEEK_CUR)`, which fails before the start of the file. -/
def lseekCur (fd : OpenFile) (offset : Int) : OpenFile :=
  if (fd.offset : Int) + offset < 0 then fd else fd.seek (fd.offset + offset).toNat

/-- `lseek(fd, 0, SEEK_END)`. -/
def lseekEnd (fd : OpenFile) : OpenFile := fd.seek fd.bytes.length

/-- What one `read` has delivered, and from where. -/
structure Block where
  offset : Nat
  data : List UInt8
deriving DecidableEq, Repr

/-- The seek back and the `read`: the block, and the file after it. -/
def readBack (fd : OpenFile) (step : Nat) : Block × OpenFile :=
  let fd := lseekCur fd (minusStep step)
  (⟨fd.offset, (fd.read step).1⟩, (fd.read step).2)

/-- The `do` loop; `reads` are the blocks that it has read, the last one first. -/
def seekBlocks (following : Nat → UInt8) (line_size : Int) (file_head : Nat) :
    Nat → OpenFile → Int → List Node → List Block → Option (Outcome × List Block)
  | 0, _, _, _, _ => none
  | fuel + 1, fd, space_num, nodes, reads =>
      let step := seekStep fd.offset file_head
      let (block, after) := readBack fd step
      let buffer := block.data
      if buffer.length ≠ step then some (.readFailed, block :: reads)
      else
        let content := buffer ++ [following fd.offset]
        let space_num :=
          if content[buffer.length]? ≠ some newline then CInt.wrap (space_num + 1) else space_num
        let (index, space_num) :=
          countBack content (CInt.wrap (line_size + 1)) (buffer.length + 1) space_num
        let nodes := ⟨content, buffer.length - index - 1⟩ :: nodes
        -- back over the block again
        let fd := lseekCur after (minusStep step)
        if file_head < fd.offset ∧ space_num < CInt.wrap (line_size + 1) then
          seekBlocks following line_size file_head fuel fd space_num nodes (block :: reads)
        else some (.written (output (index + 1) nodes), block :: reads)

/-- `read_file_and_output` on a file that can be opened. -/
def seekFileAndOutput (following : Nat → UInt8) (file : List UInt8) (line_size : Int) :
    Option (Outcome × List Block) :=
  let fd : OpenFile := ⟨file, 0⟩
  let file_head := (fd.seek 0).offset
  seekBlocks following line_size file_head (file.length + 1) (lseekEnd (fd.seek 0)) 0 [] []

/-! ### Blocks that adjoin one another -/

/-- Where the block read last begins; before the first one, the end of the file. -/
def startOf (file : List UInt8) : List Block → Nat
  | [] => file.length
  | block :: _ => block.offset

/-- Each block is a piece of the file, and ends where the one read before it begins. -/
def Adjoining (file : List UInt8) : List Block → Prop
  | [] => True
  | block :: earlier =>
      block.offset + block.data.length = startOf file earlier ∧
        block.data = (file.drop block.offset).take block.data.length ∧ Adjoining file earlier

/-- The data of all blocks, in the order of the file. -/
def joined (reads : List Block) : List UInt8 := reads.flatMap Block.data

/-- Blocks that adjoin one another are the end of the file. -/
theorem Adjoining.joined_eq {file : List UInt8} {reads : List Block}
    (adjoining : Adjoining file reads) : joined reads = file.drop (startOf file reads) := by
  induction reads with
  | nil => exact List.drop_length.symm
  | cons block earlier inductionHypothesis =>
      obtain ⟨ends, isPiece, before⟩ := adjoining
      have rest := inductionHypothesis before
      rw [← ends, ← List.drop_drop] at rest
      rw [joined] at rest
      rw [joined, List.flatMap_cons, rest, startOf]
      nth_rewrite 1 [isPiece]
      exact List.take_append_drop _ _

/-! ### One round -/

theorem toSize_minusOne : CInt.toSize (-1) = 18446744073709551615 := by
  simp [CInt.toSize]

theorem minusStep_eq {step : Nat} (small : step ≤ BUFFER_SIZE) : minusStep step = -step := by
  have product : 18446744073709551615 * step % 2 ^ 64 = if step = 0 then 0 else 2 ^ 64 - step := by
    rw [BUFFER_SIZE] at small
    split <;> omega
  unfold minusStep
  rw [BUFFER_SIZE] at small
  rw [toSize_minusOne, product, Int.bmod_def]
  split <;> omega

/-- The step keeps within the file. -/
theorem lseekCur_back (file : List UInt8) {pos step : Nat} (small : step ≤ BUFFER_SIZE)
    (inside : step ≤ pos) :
    lseekCur ⟨file, pos⟩ (minusStep step) = ⟨file, pos - step⟩ := by
  have moved : ((pos : Int) + -step).toNat = pos - step := by omega
  rw [lseekCur, minusStep_eq small, if_neg (by dsimp only; omega)]
  dsimp only
  rw [moved]
  rfl

theorem stepAt_le_size (pos : Nat) : stepAt pos ≤ BUFFER_SIZE := by
  rw [stepAt]
  split
  · exact Nat.le_of_lt ‹_›
  · exact Nat.le_refl _

theorem seekStep_eq (pos : Nat) : seekStep pos 0 = stepAt pos := by
  rw [seekStep, stepAt, BUFFER_SIZE, CInt.toSize]
  split_ifs <;> omega

variable {following : Nat → UInt8} {file : List UInt8} {line_size : Int}

theorem readBack_eq {pos : Nat} (within : pos ≤ file.length) :
    readBack ⟨file, pos⟩ (stepAt pos) =
      (⟨pos - stepAt pos, blockAt file pos⟩, ⟨file, pos⟩) := by
  have small := stepAt_le pos
  have full : ((file.drop (pos - stepAt pos)).take (stepAt pos)).length = stepAt pos :=
    length_blockAt within
  have forth : pos - stepAt pos + stepAt pos = pos := by omega
  unfold readBack
  rw [lseekCur_back file (stepAt_le_size pos) small]
  simp only [OpenFile.read, full, forth, blockAt]

/-- A round reads the block that ends at the offset, and leaves the offset before it. -/
theorem seekBlocks_succ {pos : Nat} (within : pos ≤ file.length) (fuel : Nat) (space_num : Int)
    (nodes : List Node) (reads : List Block) :
    seekBlocks following line_size 0 (fuel + 1) ⟨file, pos⟩ space_num nodes reads =
      let limit := CInt.wrap (line_size + 1)
      let counted := countBlock (following pos) (blockAt file pos) limit space_num
      let nodes := nodeOf (following pos) (blockAt file pos) counted.1 :: nodes
      let reads := ⟨pos - stepAt pos, blockAt file pos⟩ :: reads
      if 0 < pos - stepAt pos ∧ counted.2 < limit then
        seekBlocks following line_size 0 fuel ⟨file, pos - stepAt pos⟩ counted.2 nodes reads
      else some (.written (output (counted.1 + 1) nodes), reads) := by
  have full := length_blockAt within
  have back := lseekCur_back file (stepAt_le_size pos) (stepAt_le pos)
  have last : (blockAt file pos ++ [following pos])[stepAt pos]? = some (following pos) := by
    rw [List.getElem?_append_right (by rw [full]), full, Nat.sub_self]
    rfl
  have step : seekStep (OpenFile.mk file pos).offset 0 = stepAt pos := seekStep_eq pos
  rw [seekBlocks, step, readBack_eq within]
  simp only [back, full, ne_eq, not_true_eq_false, if_false, last, Option.some.injEq, countBlock,
    nodeOf]

/-- A scan that does not come to its end has met its limit. -/
theorem countBack_index (content : List UInt8) (limit : Int) (index : Nat) (space_num : Int) :
    (countBack content limit index space_num).1 = -1 ∨
      ∃ found, found < index ∧ countBack content limit index space_num = ((found : Int), limit) := by
  induction index generalizing space_num with
  | zero => exact .inl rfl
  | succ index inductionHypothesis =>
      have later (count : Int) : (countBack content limit index count).1 = -1 ∨
          ∃ found, found < index + 1 ∧
            countBack content limit index count = ((found : Int), limit) :=
        (inductionHypothesis count).imp_right fun stopped =>
          stopped.imp fun found both => ⟨Nat.lt_succ_of_lt both.1, both.2⟩
      rw [countBack]
      split
      · split
        case isTrue.isTrue stops =>
          rw [stops]
          exact .inr ⟨index, Nat.lt_succ_self index, rfl⟩
        case isTrue.isFalse => exact later _
      · exact later _

/-- Wherever the scan stops, what is written is the end of the block and what was kept. -/
theorem output_suffix (byte : UInt8) (block : List UInt8) (limit space_num : Int)
    (nodes : List Node) :
    output ((countBlock byte block limit space_num).1 + 1)
        (nodeOf byte block (countBlock byte block limit space_num).1 :: nodes) <:+
      block ++ contents nodes := by
  rcases countBack_index (block ++ [byte]) limit (block.length + 1)
      (if byte ≠ newline then CInt.wrap (space_num + 1) else space_num) with
    whole | ⟨found, below, stopped⟩
  · have all : output ((countBlock byte block limit space_num).1 + 1)
        (nodeOf byte block (countBlock byte block limit space_num).1 :: nodes) =
          block ++ contents nodes := by
      rw [countBlock, whole, output_nodeOf (List.nil_append block).symm rfl]
    exact ⟨[], all⟩
  · rw [countBlock, stopped]
    dsimp only
    rcases Nat.lt_or_eq_of_le (Nat.le_of_lt_succ below) with inside | rfl
    · have split := (List.take_append_drop (found + 1) block).symm
      rw [output_nodeOf split (by rw [List.length_take]; omega)]
      nth_rewrite 2 [split]
      rw [List.append_assoc]
      exact List.suffix_append _ _
    · rw [output_nodeOf_length]
      exact List.suffix_append _ _

/-- A loop that goes on has kept its block whole. -/
theorem countBlock_continues {byte : UInt8} {block : List UInt8} {limit space_num : Int}
    (continues : (countBlock byte block limit space_num).2 < limit) :
    (countBlock byte block limit space_num).1 = -1 := by
  rcases countBack_index (block ++ [byte]) limit (block.length + 1)
      (if byte ≠ newline then CInt.wrap (space_num + 1) else space_num) with
    whole | ⟨found, -, stopped⟩
  · exact whole
  · rw [countBlock, stopped] at continues
    exact absurd continues (Int.lt_irrefl _)

/-! ### All rounds -/

/-- The induction is on the fuel, which is more than the offset; what the list holds is
what has been read. -/
theorem seekBlocks_written (following : Nat → UInt8) (line_size space_num : Int) {fuel pos : Nat}
    {nodes : List Node} {reads : List Block} (enough : pos < fuel) (start : startOf file reads = pos)
    (within : pos ≤ file.length) (adjoining : Adjoining file reads)
    (kept : contents nodes = joined reads) :
    ∃ out all, seekBlocks following line_size 0 fuel ⟨file, pos⟩ space_num nodes reads =
        some (.written out, all) ∧
      readBlocks following file line_size fuel pos space_num nodes = some (.written out) ∧
      all ≠ [] ∧ Adjoining file all ∧ out <:+ joined all := by
  induction fuel generalizing pos space_num nodes reads with
  | zero => exact absurd enough (Nat.not_lt_zero _)
  | succ fuel inductionHypothesis =>
      have small := stepAt_le pos
      have length := length_blockAt within
      have next : Adjoining file (⟨pos - stepAt pos, blockAt file pos⟩ :: reads) := by
        refine ⟨?_, ?_, adjoining⟩
        · dsimp only
          omega
        · dsimp only
          rw [length, blockAt]
      rw [seekBlocks_succ within, readBlocks_succ within]
      dsimp only
      split
      case isTrue continues =>
        have some_ : 0 < stepAt pos := stepAt_pos (by omega)
        have before : pos - stepAt pos < fuel := by omega
        have inside : pos - stepAt pos ≤ file.length := by omega
        refine inductionHypothesis _ before rfl inside next ?_
        rw [countBlock_continues continues.2, contents_nodeOf, kept]
        rfl
      case isFalse =>
        refine ⟨_, _, rfl, rfl, List.cons_ne_nil _ _, next, ?_⟩
        have suffix := output_suffix (following pos) (blockAt file pos)
          (CInt.wrap (line_size + 1)) space_num nodes
        rwa [kept] at suffix

/-- The loop ends for every file, every number of lines and whatever follows the data in
its buffers; its blocks adjoin one another up to the end of the file, and what it writes is
a suffix of them, and so of the file. -/
theorem tail_reassembles (following : Nat → UInt8) (file : List UInt8) (line_size : Int) :
    ∃ out reads, seekFileAndOutput following file line_size = some (.written out, reads) ∧
      readFileAndOutput following (some file) line_size = some (.written out) ∧
      reads ≠ [] ∧ Adjoining file reads ∧ out <:+ joined reads ∧ out <:+ file := by
  have enough : file.length < file.length + 1 := Nat.lt_succ_self file.length
  have adjoins : Adjoining file [] := trivial
  have kept : contents [] = joined [] := rfl
  obtain ⟨out, reads, sought, ran, some_, adjoining, suffix⟩ :=
    seekBlocks_written following line_size 0 enough rfl (Nat.le_refl file.length) adjoins kept
  refine ⟨out, reads, sought, ran, some_, adjoining, suffix, ?_⟩
  rw [adjoining.joined_eq] at suffix
  exact suffix.trans (List.drop_suffix _ _)

end LinuxProgramming.Files.Tail
