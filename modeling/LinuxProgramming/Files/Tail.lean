import Mathlib.Data.List.Induction
import LinuxProgramming.Library.CInt
import LinuxProgramming.Library.Lines

/-!
Contract: `read_file_and_output` of `my_tail`.

Owns:
- the function on the bytes of a file, which it reads in blocks from the end;
- how one block changes its counter, and where its scan stops;
- for which files and line counts it writes the last lines.

Does not own: the options of `my_tail`. Memory for the blocks is taken to be there.
-/

namespace LinuxProgramming.Files.Tail

open LinuxProgramming.Library
open LinuxProgramming.Library.Lines

def BUFFER_SIZE : Nat := 4096

def newline : UInt8 := 10

/-! ### The function -/

/-- A `struct content_link_node`: its memory from `content` on, and `buffer_len`. -/
structure Node where
  content : List UInt8
  buffer_len : Int

/-- What `write` puts out; the kernel refuses a count beyond `SSIZE_MAX`, which is what a
negative one turns into. -/
def write (memory : List UInt8) (count : Int) : List UInt8 :=
  if count < 0 then [] else memory.take count.toNat

/-- The loop `for (index = buffer_len; index >= 0; index--)`, at the index below the given
one: the final `index` and `space_num`. -/
def countBack (content : List UInt8) (limit : Int) : Nat → Int → Int × Int
  | 0, space_num => (-1, space_num)
  | index + 1, space_num =>
      if content[index]? = some newline then
        if CInt.wrap (space_num + 1) = limit then (index, CInt.wrap (space_num + 1))
        else countBack content limit index (CInt.wrap (space_num + 1))
      else countBack content limit index space_num

/-- The bytes of the nodes, each from its start. -/
def contents (nodes : List Node) : List UInt8 :=
  nodes.flatMap fun node => write node.content node.buffer_len

/-- Both `write` statements at the end. -/
def output (index : Int) : List Node → List UInt8
  | [] => []
  | node :: next => write (node.content.drop index.toNat) node.buffer_len ++ contents next

inductive Outcome where
  | cannotOpen
  | readFailed
  | written (bytes : List UInt8)
deriving DecidableEq

/-- `step`, with the cursor at `pos`. -/
def stepAt (pos : Nat) : Nat :=
  if pos < BUFFER_SIZE then pos else BUFFER_SIZE

/-- The `do` loop, with the cursor at `pos`. The memory of a node goes on behind the data
with the byte `following pos`: a byte of `content` that was never set, or for a full block
the first byte of `buffer_len`. `none` is out of fuel. -/
def readBlocks (following : Nat → UInt8) (file : List UInt8) (line_size : Int) :
    Nat → Nat → Int → List Node → Option Outcome
  | 0, _, _, _ => none
  | fuel + 1, pos, space_num, nodes =>
      let step := stepAt pos
      let buffer := (file.drop (pos - step)).take step
      if buffer.length ≠ step then some .readFailed
      else
        let content := buffer ++ [following pos]
        let space_num :=
          if content[buffer.length]? ≠ some newline then CInt.wrap (space_num + 1) else space_num
        let (index, space_num) :=
          countBack content (CInt.wrap (line_size + 1)) (buffer.length + 1) space_num
        let nodes := ⟨content, buffer.length - index - 1⟩ :: nodes
        if 0 < pos - step ∧ space_num < CInt.wrap (line_size + 1) then
          readBlocks following file line_size fuel (pos - step) space_num nodes
        else some (.written (output (index + 1) nodes))

/-- `read_file_and_output`; a `file` of `none` cannot be opened. -/
def readFileAndOutput (following : Nat → UInt8) (file : Option (List UInt8)) (line_size : Int) :
    Option Outcome :=
  match file with
  | none => some .cannotOpen
  | some file => readBlocks following file line_size (file.length + 1) file.length 0 []

/-! ### One block -/

/-- The block that ends at `pos`. -/
def blockAt (file : List UInt8) (pos : Nat) : List UInt8 :=
  (file.drop (pos - stepAt pos)).take (stepAt pos)

theorem stepAt_le (pos : Nat) : stepAt pos ≤ pos := by
  rw [stepAt]
  split <;> omega

theorem stepAt_pos {pos : Nat} (some_ : 0 < pos) : 0 < stepAt pos := by
  rw [stepAt, BUFFER_SIZE]
  split <;> omega

theorem length_blockAt {file : List UInt8} {pos : Nat} (within : pos ≤ file.length) :
    (blockAt file pos).length = stepAt pos := by
  have small := stepAt_le pos
  rw [blockAt, List.length_take, List.length_drop]
  omega

theorem blockAt_append_drop (file : List UInt8) (pos : Nat) :
    blockAt file pos ++ file.drop pos = file.drop (pos - stepAt pos) := by
  have small := stepAt_le pos
  have joined := List.take_append_drop (stepAt pos) (file.drop (pos - stepAt pos))
  rwa [List.drop_drop, show pos - stepAt pos + stepAt pos = pos by omega] at joined

/-- The counter and the scan of one block. -/
def countBlock (following : UInt8) (block : List UInt8) (limit space_num : Int) : Int × Int :=
  countBack (block ++ [following]) limit (block.length + 1)
    (if following ≠ newline then CInt.wrap (space_num + 1) else space_num)

/-- A block in the list, after the scan stopped at `index`. -/
def nodeOf (following : UInt8) (block : List UInt8) (index : Int) : Node :=
  ⟨block ++ [following], block.length - index - 1⟩

variable {following : Nat → UInt8} {file : List UInt8} {line_size : Int}

theorem readBlocks_succ {pos : Nat} (within : pos ≤ file.length) (fuel : Nat) (space_num : Int)
    (nodes : List Node) :
    readBlocks following file line_size (fuel + 1) pos space_num nodes =
      let limit := CInt.wrap (line_size + 1)
      let counted := countBlock (following pos) (blockAt file pos) limit space_num
      let nodes := nodeOf (following pos) (blockAt file pos) counted.1 :: nodes
      if 0 < pos - stepAt pos ∧ counted.2 < limit then
        readBlocks following file line_size fuel (pos - stepAt pos) counted.2 nodes
      else some (.written (output (counted.1 + 1) nodes)) := by
  have full : ((file.drop (pos - stepAt pos)).take (stepAt pos)).length = stepAt pos :=
    length_blockAt within
  rw [readBlocks]
  simp only [full, ne_eq, not_true_eq_false, if_false, countBlock, nodeOf, blockAt]
  have last : ((file.drop (pos - stepAt pos)).take (stepAt pos) ++ [following pos])[stepAt pos]? =
      some (following pos) := by
    rw [List.getElem?_append_right (by rw [full]), full, Nat.sub_self]
    rfl
  simp only [last, Option.some.injEq]

theorem countBack_append {content : List UInt8} (rest : List UInt8) (limit : Int) {index : Nat}
    (within : index ≤ content.length) (space_num : Int) :
    countBack (content ++ rest) limit index space_num =
      countBack content limit index space_num := by
  induction index generalizing space_num with
  | zero => rfl
  | succ index inductionHypothesis =>
      have smaller : index ≤ content.length := by omega
      rw [countBack, countBack, List.getElem?_append_left (by omega)]
      simp only [inductionHypothesis smaller]

theorem countBack_concat (content : List UInt8) (byte : UInt8) (limit space_num : Int) :
    countBack (content ++ [byte]) limit (content.length + 1) space_num =
      if byte = newline then
        if CInt.wrap (space_num + 1) = limit then ((content.length : Int), limit)
        else countBack content limit content.length (CInt.wrap (space_num + 1))
      else countBack content limit content.length space_num := by
  have last : (content ++ [byte])[content.length]? = some byte := by
    rw [List.getElem?_append_right (Nat.le_refl _), Nat.sub_self]
    rfl
  rw [countBack, last]
  simp only [Option.some.injEq, countBack_append [byte] limit (Nat.le_refl _)]
  by_cases ends : byte = newline
  · by_cases stops : CInt.wrap (space_num + 1) = limit
    · simp only [ends, stops, if_true]
    · simp only [ends, stops, if_true, if_false]
  · simp only [ends, if_false]

/-- Whatever follows the data, it counts once; a newline there is compared as well. -/
theorem countBlock_eq (byte : UInt8) (block : List UInt8) (limit space_num : Int) :
    countBlock byte block limit space_num =
      if byte = newline ∧ CInt.wrap (space_num + 1) = limit then ((block.length : Int), limit)
      else countBack block limit block.length (CInt.wrap (space_num + 1)) := by
  rw [countBlock, countBack_concat]
  by_cases ends : byte = newline
  · by_cases stops : CInt.wrap (space_num + 1) = limit
    · simp [ends, stops]
    · simp [ends, stops]
  · simp [ends]

/-- A scan that never meets its limit counts every newline. -/
theorem countBack_pass {content : List UInt8} {limit space_num : Int}
    (never : ∀ count : Nat, 1 ≤ count → count ≤ content.count newline →
      CInt.wrap (space_num + count) ≠ limit) :
    countBack content limit content.length (CInt.wrap space_num) =
      (-1, CInt.wrap (space_num + content.count newline)) := by
  induction content using List.reverseRecOn generalizing space_num with
  | nil => simp [countBack]
  | append_singleton content byte inductionHypothesis =>
      rw [List.length_append, List.length_singleton, countBack_concat]
      by_cases ends : byte = newline
      · have counted : (content ++ [byte]).count newline = content.count newline + 1 := by
          simp [ends]
        rw [counted] at never ⊢
        have next : CInt.wrap (CInt.wrap space_num + 1) = CInt.wrap (space_num + 1) := by
          rw [CInt.wrap, CInt.wrap, CInt.wrap, Int.bmod_add_bmod]
        have first : CInt.wrap (space_num + 1) ≠ limit := never 1 (by omega) (by omega)
        rw [if_pos ends, next, if_neg first, inductionHypothesis]
        · congr 2
          push_cast
          omega
        · intro count some_ small
          have later := never (count + 1) (by omega) (by omega)
          rwa [show space_num + (count + 1 : Nat) = space_num + 1 + count by push_cast; omega]
            at later
      · have counted : (content ++ [byte]).count newline = content.count newline := by
          simp [List.count_append, ends]
        rw [counted] at never ⊢
        rw [if_neg ends, inductionHypothesis never]

/-- A scan that has enough newlines to meet its limit stops at the newline that meets it. -/
theorem countBack_stop {content : List UInt8} {limit space_num : Int} (low : 0 ≤ space_num)
    (below : space_num < limit) (fits : limit ≤ CInt.INT_MAX)
    (enough : limit ≤ space_num + content.count newline) :
    ∃ before after, content = before ++ newline :: after ∧
      space_num + after.count newline + 1 = limit ∧
      countBack content limit content.length space_num = ((before.length : Int), limit) := by
  induction content using List.reverseRecOn generalizing space_num with
  | nil =>
      simp only [List.count_nil] at enough
      omega
  | append_singleton content byte inductionHypothesis =>
      rw [List.length_append, List.length_singleton, countBack_concat]
      by_cases ends : byte = newline
      · have counted : (content ++ [byte]).count newline = content.count newline + 1 := by
          simp [ends]
        have next : CInt.wrap (space_num + 1) = space_num + 1 :=
          CInt.wrap_of_nonneg (by omega) (by omega)
        rw [if_pos ends, next]
        by_cases stops : space_num + 1 = limit
        · exact ⟨content, [], by rw [ends], by simpa using stops, by rw [if_pos stops]⟩
        · obtain ⟨before, after, split, number, ran⟩ :=
            inductionHypothesis (by omega : 0 ≤ space_num + 1) (by omega)
              (by rw [counted] at enough; push_cast at enough; omega)
          refine ⟨before, after ++ [byte], by rw [split]; simp, ?_, by rw [if_neg stops, ran]⟩
          rw [ends, List.count_append]
          simp only [List.count_cons_self, List.count_nil]
          push_cast
          omega
      · have counted : (content ++ [byte]).count newline = content.count newline := by
          simp [List.count_append, ends]
        rw [counted] at enough
        obtain ⟨before, after, split, number, ran⟩ := inductionHypothesis low below enough
        refine ⟨before, after ++ [byte], by rw [split]; simp, ?_, by rw [if_neg ends, ran]⟩
        simpa [List.count_append, ends] using number

/-! ### What is written -/

/-- The output starts behind `index` and ends where the first block ends. -/
theorem output_nodeOf {block before after : List UInt8} {index : Int}
    (split : block = before ++ after) (behind : index + 1 = before.length) (byte : UInt8)
    (nodes : List Node) :
    output (index + 1) (nodeOf byte block index :: nodes) = after ++ contents nodes := by
  subst split
  have length : (((before ++ after).length : Int) - index - 1) = after.length := by
    rw [List.length_append]
    push_cast
    omega
  have nonnegative : ¬ ((after.length : Int) < 0) := by omega
  simp only [output, nodeOf, length, behind, write, if_neg nonnegative, Int.toNat_natCast,
    List.append_assoc, List.drop_left, List.take_left]

/-- An `index` on the byte behind the data makes the length of the first block negative. -/
theorem output_nodeOf_length (byte : UInt8) (block : List UInt8) (nodes : List Node) :
    output (block.length + 1) (nodeOf byte block block.length :: nodes) = contents nodes := by
  have negative : (nodeOf byte block block.length).buffer_len < 0 := by
    rw [nodeOf]
    dsimp only
    omega
  rw [output, write, if_pos negative, List.nil_append]

theorem contents_nodeOf (byte : UInt8) (block : List UInt8) (nodes : List Node) :
    contents (nodeOf byte block (-1) :: nodes) = block ++ contents nodes := by
  have whole : output (-1 + 1) (nodeOf byte block (-1) :: nodes) = block ++ contents nodes :=
    output_nodeOf (List.nil_append block).symm rfl byte nodes
  simpa [output, contents] using whole

/-- The blocks that are in the list are written whole, whatever comes before them. -/
theorem contents_suffix {fuel pos : Nat} {space_num : Int} {nodes : List Node}
    {out : List UInt8} (within : pos ≤ file.length)
    (ran : readBlocks following file line_size fuel pos space_num nodes = some (.written out)) :
    contents nodes <:+ out := by
  induction fuel generalizing pos space_num nodes with
  | zero => cases ran
  | succ fuel inductionHypothesis =>
      rw [readBlocks_succ within] at ran
      dsimp only at ran
      split at ran
      · have later := inductionHypothesis (Nat.le_trans (Nat.sub_le _ _) within) ran
        exact (List.suffix_append _ _).trans later
      · cases ran
        exact List.suffix_append _ _

/-! ### The three ways through a block -/

section Block

variable {pos : Nat} {space_num : Int} (within : pos ≤ file.length) (nonnegative : 0 ≤ line_size)
  (small : line_size < CInt.INT_MAX) (low : 0 ≤ space_num)

include nonnegative small in
theorem limit_eq : CInt.wrap (line_size + 1) = line_size + 1 :=
  CInt.wrap_of_nonneg (by omega) (by omega)

include within nonnegative small low in
/-- With too few newlines the block is kept whole, and its newlines count with one more. -/
theorem readBlocks_pass
    (few : space_num + 1 + (blockAt file pos).count newline ≤ line_size) (fuel : Nat)
    (nodes : List Node) :
    readBlocks following file line_size (fuel + 1) pos space_num nodes =
      if 0 < pos - stepAt pos then
        readBlocks following file line_size fuel (pos - stepAt pos)
          (space_num + 1 + (blockAt file pos).count newline)
          (nodeOf (following pos) (blockAt file pos) (-1) :: nodes)
      else some (.written (blockAt file pos ++ contents nodes)) := by
  have fits : ∀ count : Nat, count ≤ (blockAt file pos).count newline →
      CInt.wrap (space_num + 1 + count) = space_num + 1 + count :=
    fun count most => CInt.wrap_of_nonneg (by omega) (by omega)
  have counted : countBlock (following pos) (blockAt file pos) (line_size + 1) space_num =
      (-1, space_num + 1 + (blockAt file pos).count newline) := by
    have first := fits 0 (Nat.zero_le _)
    rw [Int.natCast_zero, Int.add_zero] at first
    rw [countBlock_eq, if_neg (by rw [first]; omega), countBack_pass, fits _ (Nat.le_refl _)]
    intro count _ most
    rw [fits count most]
    omega
  rw [readBlocks_succ within, limit_eq nonnegative small]
  dsimp only
  rw [counted]
  by_cases more : 0 < pos - stepAt pos
  · rw [if_pos ⟨more, by dsimp only; omega⟩, if_pos more]
  · rw [if_neg (fun both => more both.1), if_neg more,
      output_nodeOf (List.nil_append _).symm rfl]

include within nonnegative small low in
/-- With enough newlines the scan stops at one, and what is behind it is written. -/
theorem readBlocks_stop (room : space_num < line_size)
    (many : line_size < space_num + 1 + (blockAt file pos).count newline) :
    ∃ before after, blockAt file pos = before ++ newline :: after ∧
      space_num + 1 + after.count newline = line_size ∧
      ∀ following fuel nodes, readBlocks following file line_size (fuel + 1) pos space_num nodes =
        some (.written (after ++ contents nodes)) := by
  have counting : line_size + 1 ≤ space_num + 1 + (blockAt file pos).count newline := by omega
  obtain ⟨before, after, split, number, ran⟩ :=
    countBack_stop (by omega : 0 ≤ space_num + 1) (by omega) (by omega) counting
  refine ⟨before, after, split, by omega, ?_⟩
  intro following fuel nodes
  have first : CInt.wrap (space_num + 1) = space_num + 1 :=
    CInt.wrap_of_nonneg (by omega) (by omega)
  have counted : countBlock (following pos) (blockAt file pos) (line_size + 1) space_num =
      ((before.length : Int), line_size + 1) := by
    rw [countBlock_eq, first, if_neg (by omega), ran]
  rw [readBlocks_succ within, limit_eq nonnegative small]
  dsimp only
  have behind : blockAt file pos = (before ++ [newline]) ++ after := by
    rw [split]
    simp
  rw [counted, if_neg (fun both => Int.lt_irrefl _ both.2), output_nodeOf behind (by simp)]

include within nonnegative small in
/-- When the count is one short, a newline behind the data stops the scan before the block. -/
theorem readBlocks_skip_newline (reached : following pos = newline) (fuel : Nat)
    (nodes : List Node) :
    readBlocks following file line_size (fuel + 1) pos line_size nodes =
      some (.written (contents nodes)) := by
  have counted : countBlock (following pos) (blockAt file pos) (line_size + 1) line_size =
      (((blockAt file pos).length : Int), line_size + 1) := by
    rw [countBlock_eq, if_pos ⟨reached, limit_eq nonnegative small⟩]
  rw [readBlocks_succ within, limit_eq nonnegative small]
  dsimp only
  rw [counted, if_neg (fun both => Int.lt_irrefl _ both.2), output_nodeOf_length]

include within nonnegative small in
/-- Any other byte steps over the limit, and at least the whole block is written. -/
theorem readBlocks_skip_other (some_ : 0 < pos) (missed : following pos ≠ newline) (fuel : Nat)
    (nodes : List Node) :
    readBlocks following file line_size (fuel + 1) pos line_size nodes ≠
      some (.written (contents nodes)) := by
  have length := length_blockAt within
  have notEmpty := stepAt_pos some_
  have atMost : stepAt pos ≤ 4096 := by
    rw [stepAt, BUFFER_SIZE]
    split <;> omega
  have counted : (countBlock (following pos) (blockAt file pos) (line_size + 1) line_size).1 =
      -1 := by
    rw [countBlock_eq, if_neg (fun both => missed both.1), countBack_pass]
    intro count positive most
    have bound := List.count_le_length (a := newline) (l := blockAt file pos)
    rw [CInt.INT_MAX] at small
    rw [CInt.wrap, Int.bmod_def]
    omega
  have longer : ∀ out, blockAt file pos ++ contents nodes <:+ out → out ≠ contents nodes := by
    rintro out suffix rfl
    have lengths := suffix.length_le
    rw [List.length_append] at lengths
    omega
  intro ran
  rw [readBlocks_succ within, limit_eq nonnegative small] at ran
  dsimp only at ran
  rw [counted] at ran
  split at ran
  · have suffix := contents_suffix (Nat.le_trans (Nat.sub_le _ _) within) ran
    rw [contents_nodeOf] at suffix
    exact longer _ suffix rfl
  · rw [output_nodeOf (List.nil_append _).symm rfl] at ran
    exact longer _ (List.suffix_refl _) (Outcome.written.inj (Option.some.inj ran))

end Block

/-! ### The whole loop -/

/-- How often the loop reads, up to `pos`. -/
def blocks (pos : Nat) : Nat :=
  (pos + (BUFFER_SIZE - 1)) / BUFFER_SIZE

theorem blocks_eq {pos : Nat} (some_ : 0 < pos) : blocks pos = blocks (pos - stepAt pos) + 1 := by
  by_cases less : pos < BUFFER_SIZE
  · rw [stepAt, if_pos less]
    simp only [blocks, BUFFER_SIZE] at less ⊢
    omega
  · rw [stepAt, if_neg less]
    simp only [blocks, BUFFER_SIZE] at less ⊢
    omega

theorem count_take_add_count_blockAt (file : List UInt8) (pos : Nat) :
    (file.take (pos - stepAt pos)).count newline + (blockAt file pos).count newline =
      (file.take pos).count newline := by
  have small := stepAt_le pos
  rw [← List.count_append, blockAt, ← List.take_add, show pos - stepAt pos + stepAt pos = pos by
    omega]

theorem count_blockAt_add_count_drop (file : List UInt8) (pos : Nat) :
    (blockAt file pos).count newline + (file.drop pos).count newline =
      (file.drop (pos - stepAt pos)).count newline := by
  rw [← List.count_append, blockAt_append_drop]

/-- The loop writes `out`, whatever follows the data, once it is down to `pos`. -/
def Writes (file : List UInt8) (line_size : Int) (fuel pos : Nat) (space_num : Int)
    (out : List UInt8) : Prop :=
  ∀ following nodes, contents nodes = file.drop pos →
    readBlocks following file line_size fuel pos space_num nodes = some (.written out)

/-- The byte behind the data decides: with a newline there the loop writes what it would
not write with a null byte. -/
def Depends (file : List UInt8) (line_size : Int) (fuel pos : Nat) (space_num : Int) : Prop :=
  ∃ out, ∀ nodes, contents nodes = file.drop pos →
    readBlocks (fun _ => newline) file line_size fuel pos space_num nodes = some (.written out) ∧
    readBlocks (fun _ => 0) file line_size fuel pos space_num nodes ≠ some (.written out)

section Loop

variable (nonnegative : 0 ≤ line_size) (small : line_size < CInt.INT_MAX)

/-- The `done` blocks behind `pos` count once each, and so do their newlines. -/
def counted (file : List UInt8) (pos done : Nat) : Nat :=
  done + (file.drop pos).count newline

theorem counted_next (file : List UInt8) (pos done : Nat) :
    (counted file pos done : Int) + 1 + (blockAt file pos).count newline =
      counted file (pos - stepAt pos) (done + 1) := by
  have joined := count_blockAt_add_count_drop file pos
  rw [counted, counted]
  omega

theorem contents_next {nodes : List Node} {pos : Nat} (collected : contents nodes = file.drop pos)
    (byte : UInt8) :
    contents (nodeOf byte (blockAt file pos) (-1) :: nodes) = file.drop (pos - stepAt pos) := by
  rw [contents_nodeOf, collected, blockAt_append_drop]

include nonnegative small in
/-- As long as the count stays within `line_size`, the whole file is written. -/
theorem writes_whole {fuel pos done : Nat} (enough : pos < fuel) (some_ : 0 < pos)
    (within : pos ≤ file.length)
    (fits : (counted file pos done + blocks pos + (file.take pos).count newline : Int) ≤
      line_size) :
    Writes file line_size fuel pos (counted file pos done) file := by
  induction fuel generalizing pos done with
  | zero => exact absurd enough (Nat.not_lt_zero _)
  | succ fuel inductionHypothesis =>
      intro following nodes collected
      have smaller := stepAt_pos some_
      have step := stepAt_le pos
      have number := blocks_eq some_
      have taken := count_take_add_count_blockAt file pos
      have next := counted_next file pos done
      rw [readBlocks_pass within nonnegative small (by omega) (by omega), next]
      by_cases more : 0 < pos - stepAt pos
      · rw [if_pos more]
        exact inductionHypothesis (by omega) more (by omega) (by omega) following _
          (contents_next collected _)
      · rw [if_neg more, collected, blockAt_append_drop, show pos - stepAt pos = 0 by omega,
          List.drop_zero]

include nonnegative small in
/-- Otherwise the loop stops behind a newline, with one line less for each further block,
or the byte behind the data decides. -/
theorem writes_cut {fuel pos done : Nat} (enough : pos < fuel) (some_ : 0 < pos)
    (within : pos ≤ file.length) (soFar : (counted file pos done : Int) ≤ line_size)
    (exceeds : line_size <
      (counted file pos done + blocks pos + (file.take pos).count newline : Int)) :
    (∃ before after reads, file = before ++ newline :: after ∧ done < reads ∧
      (after.count newline + reads : Int) = line_size ∧
      (reads = done + 1 →
        line_size < counted file pos done + 1 + (blockAt file pos).count newline) ∧
      Writes file line_size fuel pos (counted file pos done) after) ∨
    Depends file line_size fuel pos (counted file pos done) := by
  induction fuel generalizing pos done with
  | zero => exact absurd enough (Nat.not_lt_zero _)
  | succ fuel inductionHypothesis =>
      have smaller := stepAt_pos some_
      have step := stepAt_le pos
      have number := blocks_eq some_
      have taken := count_take_add_count_blockAt file pos
      have next := counted_next file pos done
      by_cases reached : (counted file pos done : Int) = line_size
      · right
        rw [reached]
        refine ⟨file.drop pos, fun nodes collected => ?_⟩
        rw [← collected]
        exact ⟨readBlocks_skip_newline within nonnegative small rfl fuel nodes,
          readBlocks_skip_other within nonnegative small some_ (by decide) fuel nodes⟩
      by_cases many : line_size < counted file pos done + 1 + (blockAt file pos).count newline
      · left
        obtain ⟨before, after, split, lines_, ran⟩ :=
          readBlocks_stop within nonnegative small (by omega) (by omega) many
        refine ⟨file.take (pos - stepAt pos) ++ before, after ++ file.drop pos, done + 1, ?_,
          by omega, ?_, fun _ => many, ?_⟩
        · calc file = file.take (pos - stepAt pos) ++ file.drop (pos - stepAt pos) :=
                (List.take_append_drop _ _).symm
            _ = file.take (pos - stepAt pos) ++
                  ((before ++ newline :: after) ++ file.drop pos) := by
                rw [← split, blockAt_append_drop]
            _ = file.take (pos - stepAt pos) ++ before ++ newline :: (after ++ file.drop pos) := by
                simp
        · rw [List.count_append]
          rw [counted] at lines_
          push_cast at lines_ ⊢
          omega
        · intro following nodes collected
          rw [ran, collected]
      · have more : 0 < pos - stepAt pos := by
          by_contra none_
          rw [show pos - stepAt pos = 0 by omega] at number taken
          rw [show blocks 0 = 0 from rfl] at number
          rw [List.take_zero, List.count_nil] at taken
          omega
        have passes : ∀ following nodes, readBlocks following file line_size (fuel + 1) pos
            (counted file pos done) nodes =
            readBlocks following file line_size fuel (pos - stepAt pos)
              (counted file (pos - stepAt pos) (done + 1))
              (nodeOf (following pos) (blockAt file pos) (-1) :: nodes) := by
          intro following nodes
          rw [readBlocks_pass within nonnegative small (by omega) (by omega), if_pos more, next]
        have soFar_ : (counted file (pos - stepAt pos) (done + 1) : Int) ≤ line_size := by omega
        rcases inductionHypothesis (by omega) more (by omega) soFar_ (by omega) with
          ⟨before, after, reads, split, later, total, -, writes⟩ | ⟨out, decides⟩
        · refine Or.inl ⟨before, after, reads, split, by omega, total, by omega, ?_⟩
          intro following nodes collected
          rw [passes]
          exact writes following _ (contents_next collected _)
        · refine Or.inr ⟨out, fun nodes collected => ?_⟩
          rw [passes, passes]
          exact ⟨(decides _ (contents_next collected _)).1,
            (decides _ (contents_next collected _)).2⟩

end Loop

/-! ### The last lines -/

/-- `out` is the last `number` lines of the file, or all of it if it has no more. -/
structure LastLines (file : List UInt8) (number : Nat) (out : List UInt8) : Prop where
  number_eq : (lines newline out).length = min number (lines newline file).length
  start : ∃ before, file = before ++ out ∧ Closed newline before

/-- The bytes the loop reads first. -/
def lastBlock (file : List UInt8) : List UInt8 :=
  file.drop (file.length - BUFFER_SIZE)

/-- Every block that is read takes one of the lines asked for, so either the file is small
enough for that, or it has all of them in its last block, behind whose unterminated end one
line is missing from the newlines. `INT_MAX` lines overflow the limit, and one block is
all that is read. -/
def TailFits (file : List UInt8) (line_size : Int) : Prop :=
  file = [] ∨
    ((blocks file.length + file.count newline : Int) ≤ line_size ∧
      (line_size < CInt.INT_MAX ∨ file.length ≤ BUFFER_SIZE)) ∨
    (¬ Closed newline file ∧ 1 ≤ line_size ∧ line_size ≤ (lastBlock file).count newline)

instance (file : List UInt8) (line_size : Int) : Decidable (TailFits file line_size) :=
  inferInstanceAs (Decidable (_ ∨ (_ ∧ _) ∨ (_ ∧ _ ∧ _)))

theorem blockAt_length (file : List UInt8) : blockAt file file.length = lastBlock file := by
  have joined := blockAt_append_drop file file.length
  rw [List.drop_length, List.append_nil] at joined
  rw [joined, lastBlock, stepAt, BUFFER_SIZE]
  split
  · rw [Nat.sub_self, Nat.sub_eq_zero_of_le (by omega)]
  · rfl

theorem LastLines.self {file : List UInt8} {number : Nat}
    (few : (lines newline file).length ≤ number) : LastLines file number file :=
  ⟨(Nat.min_eq_right few).symm, [], rfl, closed_nil⟩

/-- The lines of what follows a newline. -/
theorem length_lines_append_cons (before after : List UInt8) :
    (lines newline (before ++ newline :: after)).length =
      before.count newline + 1 + (lines newline after).length := by
  simp only [length_lines, closed_append_cons, List.count_append, List.count_cons_self]
  omega

theorem length_lines_le (text : List UInt8) :
    (lines newline text).length ≤ text.count newline + 1 := by
  rw [length_lines]
  split <;> omega

/-- An empty file is written as it is. -/
theorem writes_nil (following : Nat → UInt8) (line_size : Int) :
    readFileAndOutput following (some []) line_size = some (.written []) := by
  have nothing : blockAt [] 0 = [] := rfl
  have done : ¬ 0 < 0 - stepAt 0 := by omega
  rw [readFileAndOutput, List.length_nil, readBlocks_succ (Nat.zero_le _)]
  dsimp only
  rw [if_neg (fun both => done both.1), nothing, countBlock_eq]
  split
  · exact congrArg (fun out => some (Outcome.written out)) (output_nodeOf_length _ [] [])
  · exact congrArg (fun out => some (Outcome.written out))
      (output_nodeOf (List.append_nil []).symm rfl _ [])

/-- With `INT_MAX` the limit is negative, and the loop ends after one block. -/
theorem writes_lastBlock (following : Nat → UInt8) (file : List UInt8) :
    readFileAndOutput following (some file) CInt.INT_MAX = some (.written (lastBlock file)) := by
  have limit : CInt.wrap (CInt.INT_MAX + 1) = CInt.INT_MIN := by decide
  have atMost : (blockAt file file.length).length ≤ 4096 := by
    rw [length_blockAt (Nat.le_refl _), stepAt, BUFFER_SIZE]
    split <;> omega
  have bound := List.count_le_length (a := newline) (l := blockAt file file.length)
  have fits : ∀ number : Nat, number ≤ (blockAt file file.length).count newline →
      CInt.wrap (1 + number) = 1 + number := by
    intro number most
    apply CInt.wrap_of_nonneg (by omega)
    rw [CInt.INT_MAX]
    omega
  have numbered : countBlock (following file.length) (blockAt file file.length) CInt.INT_MIN 0 =
      (-1, 1 + ((blockAt file file.length).count newline : Int)) := by
    have first : CInt.wrap (0 + 1) ≠ CInt.INT_MIN := by decide
    rw [countBlock_eq, if_neg (fun both => first both.2), Int.zero_add, countBack_pass,
      fits _ (Nat.le_refl _)]
    intro number _ most
    rw [fits number most, CInt.INT_MIN]
    omega
  rw [readFileAndOutput, readBlocks_succ (Nat.le_refl _), limit]
  dsimp only
  rw [numbered, if_neg, output_nodeOf (List.nil_append _).symm rfl, blockAt_length]
  · exact congrArg (fun out => some (Outcome.written out)) (List.append_nil _)
  · rintro ⟨-, below⟩
    rw [CInt.INT_MIN] at below
    dsimp only at below
    omega

/-- The last bytes of a longer file are not all of its lines. -/
theorem not_lastLines_lastBlock {file : List UInt8} (long : BUFFER_SIZE < file.length) :
    ¬ LastLines file CInt.INT_MAX.toNat (lastBlock file) := by
  rintro ⟨number_eq, before, whole, closed⟩
  have length : (lastBlock file).length = BUFFER_SIZE := by
    rw [lastBlock, List.length_drop]
    omega
  have most := length_lines_le (lastBlock file)
  have bound := List.count_le_length (a := newline) (l := lastBlock file)
  have some_ : before ≠ [] := by
    rintro rfl
    have lengths := congrArg List.length whole
    rw [List.nil_append] at lengths
    omega
  obtain ⟨rest, last, rfl⟩ := (List.eq_nil_or_concat before).resolve_left some_
  have ends : last = newline := closed last (by simp)
  have more := length_lines_append_cons rest (lastBlock file)
  rw [ends, List.concat_eq_append, List.append_assoc, List.singleton_append] at whole
  rw [← whole] at more
  rw [BUFFER_SIZE] at length
  rw [show CInt.INT_MAX.toNat = 2147483647 by decide] at number_eq
  omega

theorem counted_start (file : List UInt8) : counted file file.length 0 = 0 := by
  rw [counted, List.drop_length, List.count_nil]

/-- The function starts the loop at the end of the file. -/
theorem Writes.start {file out : List UInt8} {line_size : Int}
    (writes : Writes file line_size (file.length + 1) file.length
      (counted file file.length 0) out) (following : Nat → UInt8) :
    readFileAndOutput following (some file) line_size = some (.written out) := by
  rw [counted_start] at writes
  exact writes following [] List.drop_length.symm

/-- A file in which the count stays within `line_size` is written whole. -/
theorem writes_file {file : List UInt8} {line_size : Int} (nonnegative : 0 ≤ line_size)
    (small : line_size < CInt.INT_MAX) (some_ : file ≠ [])
    (fits : (blocks file.length + file.count newline : Int) ≤ line_size)
    (following : Nat → UInt8) :
    readFileAndOutput following (some file) line_size = some (.written file) := by
  have run : Writes file line_size (file.length + 1) file.length
      (counted file file.length 0) file :=
    writes_whole nonnegative small (Nat.lt_succ_self _) (List.length_pos_iff.mpr some_)
      (Nat.le_refl _) (by rw [counted_start, List.take_length]; omega)
  exact run.start following

/-- A file with enough newlines in its last block is cut there, and the end behind its last
newline makes up for the line that is missing. -/
theorem writes_lastLines {file : List UInt8} {line_size : Int}
    (small : line_size < CInt.INT_MAX) (open_ : ¬ Closed newline file) (positive : 1 ≤ line_size)
    (many : line_size ≤ (lastBlock file).count newline) :
    ∃ out, (∀ following, readFileAndOutput following (some file) line_size =
      some (.written out)) ∧ LastLines file line_size.toNat out := by
  rw [← blockAt_length] at many
  obtain ⟨before, after, split, number, ran⟩ :=
    readBlocks_stop (Nat.le_refl file.length) (by omega) small (Int.le_refl 0) (by omega)
      (by omega)
  obtain ⟨first, whole⟩ : ∃ first, file = (first ++ before) ++ newline :: after := by
    refine ⟨file.take (file.length - stepAt file.length), ?_⟩
    have joined := blockAt_append_drop file file.length
    rw [List.drop_length, List.append_nil] at joined
    rw [List.append_assoc, ← split, joined, List.take_append_drop]
  refine ⟨after, fun following => ?_, ?_, first ++ before ++ [newline], by rw [whole]; simp, ?_⟩
  · rw [readFileAndOutput]
    exact (ran following file.length []).trans (by rw [contents, List.flatMap_nil, List.append_nil])
  · have openAfter : ¬ Closed newline after := by rwa [whole, closed_append_cons] at open_
    rw [whole, length_lines_append_cons, length_lines, if_neg openAfter]
    omega
  · simp [Closed]

/-- One outcome. -/
theorem written_unique {following : Nat → UInt8} {file : List UInt8} {line_size : Int}
    {out other : List UInt8}
    (ran : readFileAndOutput following (some file) line_size = some (.written out))
    (again : readFileAndOutput following (some file) line_size = some (.written other)) :
    out = other :=
  Outcome.written.inj (Option.some.inj (ran.symm.trans again))

/-- Behind a newline that is not the right one there are too few lines, except in the last
block of a file with an unterminated end. -/
theorem lastBlock_of_lastLines {file out : List UInt8} {line_size : Int}
    (nonnegative : 0 ≤ line_size) (small : line_size < CInt.INT_MAX) (some_ : file ≠ [])
    (exceeds : line_size < (blocks file.length + file.count newline : Int))
    (ran : ∀ following, readFileAndOutput following (some file) line_size = some (.written out))
    (last : LastLines file line_size.toNat out) :
    ¬ Closed newline file ∧ 1 ≤ line_size ∧ line_size ≤ (lastBlock file).count newline := by
  have soFar : (counted file file.length 0 : Int) ≤ line_size := by
    rw [counted_start]
    exact nonnegative
  have exceeds_ : line_size < (counted file file.length 0 + blocks file.length +
      (file.take file.length).count newline : Int) := by
    rw [counted_start, List.take_length]
    omega
  have cut := writes_cut nonnegative small (Nat.lt_succ_self file.length)
    (List.length_pos_iff.mpr some_) (Nat.le_refl _) soFar exceeds_
  rcases cut with ⟨before, after, reads, whole, later, total, many, writes⟩ | ⟨other, decides⟩
  · have same : out = after :=
      written_unique (ran fun _ => 0) (writes.start fun _ => 0)
    have number_eq := last.number_eq
    have before_ := length_lines_append_cons before after
    have after_ : (lines newline after).length = _ := length_lines after
    rw [same] at number_eq
    rw [← whole] at before_
    have open_ : ¬ Closed newline after := by
      intro closed
      rw [if_pos closed] at after_
      omega
    rw [if_neg open_] at after_
    have enough := many (by omega)
    rw [blockAt_length, counted_start] at enough
    refine ⟨?_, by omega, by omega⟩
    rwa [whole, closed_append_cons]
  · rw [counted_start] at decides
    obtain ⟨one, two⟩ := decides [] List.drop_length.symm
    have same : out = other := written_unique (ran fun _ => newline) one
    rw [← same] at two
    exact absurd (ran fun _ => 0) two

/-- `read_file_and_output` writes the last `line_size` lines, whatever follows the data in
its buffers, for exactly the files of `TailFits`. -/
theorem readFileAndOutput_correct (file : List UInt8) (line_size : Int)
    (nonnegative : 0 ≤ line_size) (isInt : line_size ≤ CInt.INT_MAX) :
    (∃ out, (∀ following, readFileAndOutput following (some file) line_size =
      some (.written out)) ∧ LastLines file line_size.toNat out) ↔ TailFits file line_size := by
  constructor
  · rintro ⟨out, ran, last⟩
    by_cases empty : file = []
    · exact Or.inl empty
    right
    rcases Int.lt_or_eq_of_le isInt with small | rfl
    · by_cases fits : (blocks file.length + file.count newline : Int) ≤ line_size
      · exact Or.inl ⟨fits, Or.inl small⟩
      · exact Or.inr
          (lastBlock_of_lastLines nonnegative small empty (Int.lt_of_not_ge fits) ran last)
    · left
      have same : out = lastBlock file :=
        written_unique (ran fun _ => 0) (writes_lastBlock _ file)
      have short : file.length ≤ BUFFER_SIZE := by
        by_contra long
        exact not_lastLines_lastBlock (Nat.lt_of_not_le long) (same ▸ last)
      have bound := List.count_le_length (a := newline) (l := file)
      refine ⟨?_, Or.inr short⟩
      rw [BUFFER_SIZE] at short
      rw [CInt.INT_MAX, blocks, BUFFER_SIZE]
      omega
  · rintro (rfl | ⟨fits, room⟩ | ⟨open_, positive, many⟩)
    · exact ⟨[], fun following => writes_nil following line_size, .self (Nat.zero_le _)⟩
    · by_cases empty : file = []
      · subst empty
        exact ⟨[], fun following => writes_nil following line_size, .self (Nat.zero_le _)⟩
      have most := length_lines_le file
      have reads := blocks_eq (List.length_pos_iff.mpr empty)
      have few : (lines newline file).length ≤ line_size.toNat := by omega
      rcases Int.lt_or_eq_of_le isInt with small | rfl
      · exact ⟨file, writes_file nonnegative small empty fits, .self few⟩
      · have short : file.length ≤ BUFFER_SIZE :=
          room.resolve_left (Int.lt_irrefl _)
        have all : lastBlock file = file := by
          rw [lastBlock, Nat.sub_eq_zero_of_le short, List.drop_zero]
        refine ⟨file, fun following => ?_, .self few⟩
        rw [writes_lastBlock, all]
    · have bound := List.count_le_length (a := newline) (l := lastBlock file)
      have length : (lastBlock file).length ≤ 4096 := by
        rw [lastBlock, List.length_drop, BUFFER_SIZE]
        omega
      have small : line_size < CInt.INT_MAX := by
        rw [CInt.INT_MAX]
        omega
      exact writes_lastLines small open_ positive many

/-- The last two of three lines, the last of which is not terminated. -/
theorem readFileAndOutput_correct_three :
    ∃ out, (∀ following, readFileAndOutput following (some [97, 10, 98, 10, 99]) 2 =
      some (.written out)) ∧ LastLines [97, 10, 98, 10, 99] 2 out :=
  (readFileAndOutput_correct [97, 10, 98, 10, 99] 2 (by decide) (by decide)).mpr (by decide)

/-- Of two terminated lines the last one is asked for, and nothing is written. -/
theorem readFileAndOutput_drops_line :
    ¬ ∃ out, (∀ following, readFileAndOutput following (some [97, 10, 98, 10]) 1 =
      some (.written out)) ∧ LastLines [97, 10, 98, 10] 1 out := by
  rintro ⟨out, ran, last⟩
  have nothing : readFileAndOutput (fun _ => 0) (some [97, 10, 98, 10]) 1 = some (.written []) := by
    decide
  have same : out = [] := Outcome.written.inj (Option.some.inj ((ran _).symm.trans nothing))
  exact absurd (same ▸ last.number_eq) (by decide)

end LinuxProgramming.Files.Tail
