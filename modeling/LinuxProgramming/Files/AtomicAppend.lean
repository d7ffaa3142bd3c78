import LinuxProgramming.Library.OpenFile
import LinuxProgramming.Library.Rounds

/-!
Contract: any number of processes that run `atomic_append` on one file, some with `O_APPEND`
and some with `x`.

Owns:
- `main` as a step function of one process, with every call that may fail;
- what the file can contain when all of them are through.

Does not own: the check of the arguments, and the reading of the number.
-/

namespace LinuxProgramming.Files.AtomicAppend

open LinuxProgramming.Library

/-- The arguments of each process: no third one, and the second one as a number. -/
structure Arguments (Process : Type) where
  append : Process → Bool
  byte_nums : Process → Int

/-- Where `main` is. -/
inductive Pc where
  | opening
  /-- `i < byte_nums`. -/
  | looping (i : Nat)
  /-- `write`, after `lseek` to the end. -/
  | writing (i offset : Nat)
  | exited (status : Nat)
deriving DecidableEq, Repr

structure State (Process : Type) where
  pc : Process → Pc
  bytes : List UInt8

variable {Process : Type} [DecidableEq Process]

/-- A process goes on and leaves these bytes in the file. -/
def State.goto (state : State Process) (process : Process) (pc : Pc) (bytes : List UInt8) :
    State Process :=
  ⟨Function.update state.pc process pc, bytes⟩

/-- `write(fd, "x", 1)` at an offset. -/
def writeX (bytes : List UInt8) (offset : Nat) : List UInt8 :=
  (OpenFile.write [0x78] ⟨bytes, offset⟩).bytes

section Runs

variable (arguments : Arguments Process)

/-- The next call of a process, which succeeds or fails. Where the loop ends the file is
closed. With `O_APPEND` a `write` goes to the end of the file. -/
def step : Process × Bool → State Process → Option (State Process)
  | (process, succeeds), state =>
      match state.pc process with
      | .opening =>
          if succeeds then some (state.goto process (.looping 0) state.bytes)
          else some (state.goto process (.exited 1) state.bytes)
      | .looping i =>
          if i < arguments.byte_nums process then
            if succeeds then
              if arguments.append process then
                some (state.goto process (.looping (i + 1))
                  (writeX state.bytes state.bytes.length))
              else some (state.goto process (.writing i state.bytes.length) state.bytes)
            else some (state.goto process (.exited 1) state.bytes)
          else some (state.goto process (.exited 0) state.bytes)
      | .writing i offset =>
          if succeeds then
            some (state.goto process (.looping (i + 1)) (writeX state.bytes offset))
          else some (state.goto process (.exited 1) state.bytes)
      | .exited _ => none

/-- All interleavings, on a file that has some bytes already. -/
def system (old : List UInt8) : TransitionSystem (State Process) :=
  labelled (fun state => state = ⟨fun _ => .opening, old⟩) (step arguments)

/-- The rounds of the loop. -/
def Arguments.count (process : Process) : Nat :=
  (arguments.byte_nums process).toNat

/-- The bytes that are written with `O_APPEND`. -/
def Arguments.appended [Fintype Process] : Nat :=
  ∑ process, if arguments.append process then arguments.count process else 0

/-- The new bytes that a file can have at the end. -/
def Arguments.CanGrow [Fintype Process] (grown : Nat) : Prop :=
  arguments.appended ≤ grown ∧
    (∀ process, ¬ arguments.append process → arguments.count process ≤ grown) ∧
    grown ≤ ∑ process, arguments.count process

end Runs

/-! ### The bytes -/

/-- Old bytes, and then only `x`. -/
def grownFile (old : List UInt8) (grown : Nat) : List UInt8 :=
  old ++ List.replicate grown 0x78

section Bytes

variable {old : List UInt8}

theorem length_grownFile {grown : Nat} : (grownFile old grown).length = old.length + grown := by
  simp [grownFile]

/-- A write among the new bytes changes nothing, a write at the end adds one. -/
theorem writeX_grownFile {grown place : Nat} (inside : place ≤ grown) :
    writeX (grownFile old grown) (old.length + place) = grownFile old (max grown (place + 1)) := by
  obtain ⟨behind, rfl⟩ := Nat.exists_eq_add_of_le inside
  have taken : (grownFile old (place + behind)).take (old.length + place) =
      grownFile old place := by
    rw [grownFile, List.take_length_add_append, List.take_replicate, grownFile]
    simp
  have dropped : (grownFile old (place + behind)).drop (old.length + place + 1) =
      List.replicate (behind - 1) 0x78 := by
    rw [grownFile, Nat.add_assoc, List.drop_length_add_append, List.drop_replicate]
    congr 1
    omega
  simp only [writeX, OpenFile.write, taken, List.length_singleton, dropped, length_grownFile]
  have gap : old.length + place - (old.length + (place + behind)) = 0 := by omega
  rw [gap]
  simp only [grownFile, List.replicate_zero, List.append_nil, List.append_assoc,
    ← List.replicate_one, ← List.replicate_add]
  congr 2
  omega

end Bytes

/-! ### What every run keeps -/

/-- The rounds that are over. -/
def Pc.progress (count : Nat) : Pc → Nat
  | .opening => 0
  | .looping i => i
  | .writing i _ => i
  | .exited _ => count

section Invariant

variable {arguments : Arguments Process} {old : List UInt8} {state after : State Process}
  {process : Process} {pc : Pc} {grown grown' : Nat}

/-- A place in `main`, seen from a file with `grown` new bytes: each round was worth one. -/
def Fine (arguments : Arguments Process) (old : List UInt8) (grown : Nat) (process : Process)
    (pc : Pc) : Prop :=
  pc.progress (arguments.count process) ≤ grown ∧
    match pc with
    | .looping i => i ≤ arguments.count process
    | .writing i offset => arguments.append process = false ∧ i < arguments.count process ∧
        ∃ place, offset = old.length + place ∧ i ≤ place ∧ place ≤ grown
    | .opening | .exited _ => True

def State.progress (arguments : Arguments Process) (state : State Process) (process : Process) :
    Nat :=
  (state.pc process).progress (arguments.count process)

/-- The rounds that are over and that wrote with `O_APPEND`. -/
def State.appended (arguments : Arguments Process) (state : State Process) (process : Process) :
    Nat :=
  if arguments.append process then state.progress arguments process else 0

/-- The new bytes against the rounds of the processes, as long as no call has failed. -/
structure Counts [Fintype Process] (arguments : Arguments Process) (old : List UInt8)
    (state : State Process) (grown : Nat) : Prop where
  bytes : state.bytes = grownFile old grown
  fine : ∀ process, Fine arguments old grown process (state.pc process)
  atMost : grown ≤ ∑ process, state.progress arguments process
  appended : ∑ process, state.appended arguments process ≤ grown

/-- A call has failed, or the bytes are as the rounds say. -/
def Invariant [Fintype Process] (arguments : Arguments Process) (old : List UInt8)
    (state : State Process) : Prop :=
  (∃ process, state.pc process = .exited 1) ∨ ∃ grown, Counts arguments old state grown

omit [DecidableEq Process] in
theorem Fine.mono (fine : Fine arguments old grown process pc) (le : grown ≤ grown') :
    Fine arguments old grown' process pc := by
  obtain ⟨progress, rest⟩ := fine
  refine ⟨progress.trans le, ?_⟩
  cases pc with
  | writing i offset =>
      obtain ⟨mode, more, place, same, low, high⟩ := rest
      exact ⟨mode, more, place, same, low, high.trans le⟩
  | opening | looping | exited => exact rest

/-- A process goes on: what there is to show about it and about the new bytes. -/
theorem Counts.goto [Fintype Process] (counts : Counts arguments old state grown)
    {bytes : List UInt8} (written : bytes = grownFile old grown') (more : grown ≤ grown')
    (fine : Fine arguments old grown' process pc)
    (atMost : grown' + state.progress arguments process ≤
      grown + pc.progress (arguments.count process))
    (appended : arguments.append process → grown + pc.progress (arguments.count process) ≤
      grown' + state.progress arguments process) :
    Counts arguments old (state.goto process pc bytes) grown' := by
  have others : ∀ other, other ≠ process →
      (state.goto process pc bytes).progress arguments other = state.progress arguments other := by
    intro other different
    simp only [State.progress, State.goto, Function.update_of_ne different]
  have own : (state.goto process pc bytes).progress arguments process =
      pc.progress (arguments.count process) := by
    simp only [State.progress, State.goto, Function.update_self]
  have progress := sum_add_eq_sum_add process others
  have share : ∑ other, (state.goto process pc bytes).appended arguments other +
      state.appended arguments process = ∑ other, state.appended arguments other +
        (state.goto process pc bytes).appended arguments process := by
    apply sum_add_eq_sum_add process
    intro other different
    simp only [State.appended, others other different]
  refine ⟨written, ?_, ?_, ?_⟩
  · intro other
    by_cases same : other = process
    · subst same
      simp only [State.goto, Function.update_self]
      exact fine
    · simp only [State.goto, Function.update_of_ne same]
      exact (counts.fine other).mono more
  · have before := counts.atMost
    rw [own] at progress
    omega
  · have before := counts.appended
    simp only [State.appended, own] at share before ⊢
    split_ifs at share with mode
    · have enough := appended mode
      omega
    · omega

/-- A process that neither reads nor writes the file goes on to a place in the same round. -/
theorem Counts.stay [Fintype Process] (counts : Counts arguments old state grown)
    (fine : Fine arguments old grown process pc)
    (same : pc.progress (arguments.count process) = state.progress arguments process) :
    Counts arguments old (state.goto process pc state.bytes) grown :=
  counts.goto counts.bytes (Nat.le_refl grown) fine (by omega) (by omega)

theorem step_counts [Fintype Process] (counts : Counts arguments old state grown)
    {succeeds : Bool} (stepped : step arguments (process, succeeds) state = some after) :
    Invariant arguments old after := by
  have fails : ∀ {bytes}, Invariant arguments old (state.goto process (.exited 1) bytes) :=
    fun {_} => .inl ⟨process, Function.update_self ..⟩
  have fine := counts.fine process
  rw [step] at stepped
  cases place : state.pc process with
  | opening =>
      rw [place] at stepped
      dsimp only at stepped
      split_ifs at stepped <;> cases stepped
      · refine .inr ⟨grown, counts.stay ⟨Nat.zero_le _, Nat.zero_le _⟩ ?_⟩
        rw [State.progress, place]
        rfl
      · exact fails
  | looping i =>
      rw [place] at stepped fine
      obtain ⟨rounds, bound⟩ := fine
      have own : state.progress arguments process = i := by
        rw [State.progress, place]
        rfl
      dsimp only at stepped
      split_ifs at stepped with more succeeded mode <;> cases stepped
      · have next : i + 1 ≤ arguments.count process := by
          rw [Arguments.count]
          omega
        have atEnd : writeX state.bytes state.bytes.length = grownFile old (grown + 1) := by
          rw [counts.bytes, length_grownFile, writeX_grownFile (Nat.le_refl grown),
            Nat.max_eq_right (Nat.le_succ grown)]
        refine .inr ⟨grown + 1, counts.goto atEnd (Nat.le_succ grown)
          ⟨Nat.succ_le_succ rounds, next⟩ ?_ ?_⟩
        · simp only [own, Pc.progress]
          omega
        · simp only [own, Pc.progress]
          omega
      · have next : i < arguments.count process := by
          rw [Arguments.count]
          omega
        have atEnd : state.bytes.length = old.length + grown := by
          rw [counts.bytes, length_grownFile]
        refine .inr ⟨grown, counts.stay ⟨rounds, ?_⟩ own.symm⟩
        exact ⟨by simpa using mode, next, grown, atEnd, rounds, Nat.le_refl grown⟩
      · exact fails
      · have through : i = arguments.count process := by
          rw [Arguments.count] at bound ⊢
          omega
        refine .inr ⟨grown, counts.stay ⟨?_, trivial⟩ ?_⟩
        · rw [Pc.progress, ← through]
          exact rounds
        · rw [own, Pc.progress, through]
  | writing i offset =>
      rw [place] at stepped fine
      obtain ⟨rounds, mode, more, spot, rfl, low, high⟩ := fine
      have own : state.progress arguments process = i := by
        rw [State.progress, place]
        rfl
      dsimp only at stepped
      split_ifs at stepped <;> cases stepped
      · have written : writeX state.bytes (old.length + spot) =
            grownFile old (max grown (spot + 1)) := by
          rw [counts.bytes, writeX_grownFile high]
        refine .inr ⟨_, counts.goto written (Nat.le_max_left ..) ⟨?_, more⟩ ?_ ?_⟩
        · exact (Nat.succ_le_succ low).trans (Nat.le_max_right ..)
        · simp only [own, Pc.progress]
          omega
        · simp [mode]
      · exact fails
  | exited status =>
      rw [place] at stepped
      cases stepped

/-- A process only moves itself, and never from where it has ended. -/
theorem step_others {succeeds : Bool}
    (stepped : step arguments (process, succeeds) state = some after) {other : Process}
    {status : Nat} (ended : state.pc other = .exited status) : after.pc other = .exited status := by
  have different : other ≠ process := by
    rintro rfl
    rw [step, ended] at stepped
    cases stepped
  have moved : ∃ pc bytes, after = state.goto process pc bytes := by
    rw [step] at stepped
    split at stepped <;> (try split_ifs at stepped) <;> cases stepped <;> exact ⟨_, _, rfl⟩
  obtain ⟨pc, bytes, rfl⟩ := moved
  exact (Function.update_of_ne different ..).trans ended

theorem system_inductive [Fintype Process] (arguments : Arguments Process) (old : List UInt8) :
    (system arguments old).Inductive (Invariant arguments old) where
  init := by
    rintro state rfl
    refine .inr ⟨0, (List.append_nil old).symm, fun _ => ⟨Nat.le_refl 0, trivial⟩,
      Nat.zero_le _, ?_⟩
    simp [State.appended, State.progress, Pc.progress]
  step := by
    rintro before after invariant ⟨⟨process, succeeds⟩, -, stepped⟩
    rcases invariant with ⟨failed, ended⟩ | ⟨grown, counts⟩
    · exact .inl ⟨failed, step_others stepped ended⟩
    · exact step_counts counts stepped

omit [DecidableEq Process] in
/-- Where all are through, the new bytes are within the bounds. -/
theorem Counts.canGrow [Fintype Process] (counts : Counts arguments old state grown)
    (through : ∀ process, state.pc process = .exited 0) : arguments.CanGrow grown := by
  have progress : ∀ process, state.progress arguments process = arguments.count process := by
    intro process
    rw [State.progress, through]
    rfl
  refine ⟨?_, ?_, ?_⟩
  · simpa only [Arguments.appended, State.appended, progress] using counts.appended
  · intro process _
    have fine := (counts.fine process).1
    rwa [through] at fine
  · simpa only [progress] using counts.atMost

end Invariant

/-! ### Schedules -/

section Schedules

variable {arguments : Arguments Process} {old : List UInt8} {done : Process → Nat} {grown : Nat}

/-- All processes between two rounds. -/
def between (old : List UInt8) (done : Process → Nat) (grown : Nat) : State Process :=
  ⟨fun process => .looping (done process), grownFile old grown⟩

omit [DecidableEq Process] in
theorem lt_byte_nums {process : Process} (more : done process < arguments.count process) :
    (done process : Int) < arguments.byte_nums process := by
  rw [Arguments.count] at more
  omega

/-- Some have gone to the end of the file. -/
def seeked (old : List UInt8) (done : Process → Nat) (grown : Nat) (chosen : Finset Process)
    (process : Process) : Pc :=
  if process ∈ chosen then .writing (done process) (old.length + grown)
  else .looping (done process)

/-- Some have made a round more. -/
def advanced (done : Process → Nat) (chosen : Finset Process) (process : Process) : Nat :=
  if process ∈ chosen then done process + 1 else done process

/-- Processes without `O_APPEND` go to the end of the file. -/
theorem seek_each (chosen : Finset Process)
    (ready : ∀ process ∈ chosen, arguments.append process = false ∧
      done process < arguments.count process) :
    Relation.ReflTransGen (system arguments old).Step (between old done grown)
      ⟨seeked old done grown chosen, grownFile old grown⟩ := by
  apply run_each (fun places => (⟨places, grownFile old grown⟩ : State Process))
    (fun process => .looping (done process))
    (fun process => .writing (done process) (old.length + grown)) chosen
  · intro process member places place
    obtain ⟨mode, more⟩ := ready process member
    refine ⟨(process, true), trivial, ?_⟩
    simp [step, place, lt_byte_nums more, mode, State.goto, length_grownFile]
  · exact fun _ _ => rfl

/-- They write there, after the file has grown already. -/
theorem overwrite_each (chosen : Finset Process) (places : Process → Pc)
    (ready : ∀ process ∈ chosen, places process = .writing (done process) (old.length + grown)) :
    Relation.ReflTransGen (system arguments old).Step ⟨places, grownFile old (grown + 1)⟩
      ⟨fun process => if process ∈ chosen then .looping (done process + 1) else places process,
        grownFile old (grown + 1)⟩ := by
  apply run_each (fun places => (⟨places, grownFile old (grown + 1)⟩ : State Process))
    (fun process => .writing (done process) (old.length + grown))
    (fun process => .looping (done process + 1)) chosen
  · intro process _ places place
    refine ⟨(process, true), trivial, ?_⟩
    simp [step, place, State.goto, writeX_grownFile (Nat.le_succ grown)]
  · exact ready

/-- The first write at the end of the file, with `O_APPEND` or after `lseek`. -/
theorem first_write (chosen : Finset Process) (first : Process)
    (ready : first ∈ chosen ∨
      arguments.append first = true ∧ done first < arguments.count first) :
    (system arguments old).Step ⟨seeked old done grown chosen, grownFile old grown⟩
      ⟨Function.update (seeked old done grown chosen) first (.looping (done first + 1)),
        grownFile old (grown + 1)⟩ := by
  refine ⟨(first, true), trivial, ?_⟩
  have atEnd : writeX (grownFile old grown) (old.length + grown) = grownFile old (grown + 1) := by
    rw [writeX_grownFile (Nat.le_refl grown), Nat.max_eq_right (Nat.le_succ grown)]
  by_cases member : first ∈ chosen
  · simp [step, seeked, member, State.goto, atEnd]
  · obtain ⟨mode, more⟩ := ready.resolve_left member
    simp [step, seeked, member, mode, lt_byte_nums more, State.goto, length_grownFile, atEnd]

/-- A round: some go to the end of the file, one writes there, and then the others do. -/
theorem round_run (chosen : Finset Process) (first : Process)
    (ready : ∀ process ∈ chosen, arguments.append process = false ∧
      done process < arguments.count process)
    (firstReady : first ∈ chosen ∨
      arguments.append first = true ∧ done first < arguments.count first) :
    Relation.ReflTransGen (system arguments old).Step (between old done grown)
      (between old (advanced done (insert first chosen)) (grown + 1)) := by
  have seeks : Relation.ReflTransGen (system arguments old).Step (between old done grown)
      ⟨seeked old done grown chosen, grownFile old grown⟩ := seek_each chosen ready
  have writes : (system arguments old).Step _ ⟨_, grownFile old (grown + 1)⟩ :=
    first_write chosen first firstReady
  have others : Relation.ReflTransGen (system arguments old).Step
      ⟨Function.update (seeked old done grown chosen) first (.looping (done first + 1)), _⟩ _ :=
    overwrite_each (chosen.erase first) _ (by
      intro process member
      rw [Function.update_of_ne (Finset.ne_of_mem_erase member), seeked,
        if_pos (Finset.mem_of_mem_erase member)])
  have last : ∀ process, (if process ∈ chosen.erase first then .looping (done process + 1)
      else Function.update (seeked old done grown chosen) first (.looping (done first + 1))
        process) = Pc.looping (advanced done (insert first chosen) process) := by
    intro process
    by_cases same : process = first
    · subst same
      simp [advanced]
    · by_cases member : process ∈ chosen <;> simp [same, member, advanced, seeked]
  simp only [last] at others
  exact (seeks.tail writes).trans others

/-- The rounds that are left: those with `O_APPEND` follow each other in one lane, every other
process has a lane of its own. -/
def lanes [Fintype Process] (arguments : Arguments Process) (done : Process → Nat) :
    Option Process → Nat
  | none => ∑ process, if arguments.append process then
      arguments.count process - done process else 0
  | some process =>
      if arguments.append process then 0 else arguments.count process - done process

omit [DecidableEq Process] in
theorem sum_lanes [Fintype Process] : ∑ lane, lanes arguments done lane =
    ∑ process, (arguments.count process - done process) := by
  rw [Fintype.sum_option, lanes, ← Finset.sum_add_distrib]
  apply Finset.sum_congr rfl
  intro process _
  simp only [lanes]
  split_ifs <;> omega

/-- A process that can be the first to write in a round of these lanes. -/
theorem exists_first [Fintype Process] {chosen : Finset (Option Process)}
    (nonempty : chosen.Nonempty) (work : ∀ lane ∈ chosen, 0 < lanes arguments done lane) :
    ∃ first, (none ∈ chosen → arguments.append first = true ∧
        done first < arguments.count first) ∧
      (none ∉ chosen → some first ∈ chosen) := by
  by_cases member : none ∈ chosen
  · have positive := work none member
    rw [lanes] at positive
    obtain ⟨first, -, works⟩ := Finset.exists_ne_zero_of_sum_ne_zero positive.ne'
    split_ifs at works with mode
    · exact ⟨first, fun _ => ⟨mode, by omega⟩, fun absent => absurd member absent⟩
    · exact absurd rfl works
  · obtain ⟨lane, isChosen⟩ := nonempty
    cases lane with
    | none => exact absurd isChosen member
    | some first => exact ⟨first, fun inside => absurd inside member, fun _ => isChosen⟩

/-- The processes of the other lanes that take part. -/
def members [Fintype Process] (chosen : Finset (Option Process)) : Finset Process :=
  Finset.univ.filter fun process => some process ∈ chosen

theorem mem_members [Fintype Process] {chosen : Finset (Option Process)} {process : Process} :
    process ∈ members chosen ↔ some process ∈ chosen := by
  simp [members]

theorem members_ready [Fintype Process] {chosen : Finset (Option Process)}
    (work : ∀ lane ∈ chosen, 0 < lanes arguments done lane) (process : Process)
    (isChosen : process ∈ members chosen) :
    arguments.append process = false ∧ done process < arguments.count process := by
  have positive := work (some process) (mem_members.mp isChosen)
  rw [lanes] at positive
  split_ifs at positive with append
  · exact absurd positive (Nat.lt_irrefl 0)
  · exact ⟨by simpa using append, by omega⟩

/-- A round of some lanes is one less for each of them. -/
theorem lanes_advanced [Fintype Process] {chosen : Finset (Option Process)} {first : Process}
    (work : ∀ lane ∈ chosen, 0 < lanes arguments done lane)
    (appends : none ∈ chosen → arguments.append first = true ∧
      done first < arguments.count first)
    (member : none ∉ chosen → some first ∈ chosen) (lane : Option Process) :
    lanes arguments (advanced done (insert first (members chosen))) lane +
      (if lane ∈ chosen then 1 else 0) = lanes arguments done lane := by
  have ready := members_ready work
  have others : ∀ process, arguments.append process = true → process ≠ first →
      advanced done (insert first (members chosen)) process = done process := by
    intro process append different
    apply if_neg
    rw [Finset.mem_insert, not_or]
    refine ⟨different, fun isChosen => ?_⟩
    rw [(ready process isChosen).1] at append
    cases append
  cases lane with
  | some process =>
      by_cases append : arguments.append process = true
      · have absent : some process ∉ chosen := by
          intro isChosen
          rw [(ready process (mem_members.mpr isChosen)).1] at append
          cases append
        simp [lanes, append, absent]
      · by_cases isChosen : some process ∈ chosen
        · have more := (ready process (mem_members.mpr isChosen)).2
          rw [lanes, lanes, if_neg append, if_neg append, if_pos isChosen, advanced,
            if_pos (Finset.mem_insert_of_mem (mem_members.mpr isChosen))]
          omega
        · have different : process ≠ first := by
            rintro rfl
            exact isChosen (member fun inside => append (appends inside).1)
          simp [lanes, advanced, append, isChosen, different, mem_members]
  | none =>
      have sums : (∑ process, if arguments.append process then arguments.count process -
            advanced done (insert first (members chosen)) process else 0) +
          (if arguments.append first then arguments.count first - done first else 0) =
          (∑ process, if arguments.append process then
            arguments.count process - done process else 0) +
          (if arguments.append first then arguments.count first -
            advanced done (insert first (members chosen)) first else 0) := by
        apply sum_add_eq_sum_add first
        intro process different
        split_ifs with append
        · rw [others process append different]
        · rfl
      simp only [lanes]
      by_cases inside : none ∈ chosen
      · obtain ⟨append, more⟩ := appends inside
        have advance : advanced done (insert first (members chosen)) first = done first + 1 :=
          if_pos (Finset.mem_insert_self ..)
        rw [if_pos append, if_pos append, advance] at sums
        rw [if_pos inside]
        omega
      · have append := (ready first (mem_members.mpr (member inside))).1
        simp only [append, Bool.false_eq_true, if_false] at sums
        rw [if_neg inside]
        omega

/-- All rounds that are left, in as many rounds of some lanes as there is time for. -/
theorem rounds_run [Fintype Process] (rounds : Nat)
    (within : ∀ process, done process ≤ arguments.count process)
    (fits : ∀ lane, lanes arguments done lane ≤ rounds)
    (enough : rounds ≤ ∑ lane, lanes arguments done lane) :
    Relation.ReflTransGen (system arguments old).Step (between old done grown)
      (between old arguments.count (grown + rounds)) := by
  induction rounds generalizing done grown with
  | zero =>
      have through : done = arguments.count := by
        funext process
        have empty := Finset.sum_eq_zero fun lane (_ : lane ∈ Finset.univ) =>
          Nat.le_zero.mp (fits lane)
        rw [sum_lanes, Finset.sum_eq_zero_iff] at empty
        have left := empty process (Finset.mem_univ process)
        have bound := within process
        omega
      rw [through]
      exact .refl
  | succ rounds inductionHypothesis =>
      obtain ⟨chosen, nonempty, work, rest, time⟩ := exists_round fits enough
      obtain ⟨first, appends, member⟩ := exists_first nonempty work
      have less := lanes_advanced work appends member
      have ready := members_ready work
      have firstReady : first ∈ members chosen ∨
          arguments.append first = true ∧ done first < arguments.count first := by
        by_cases inside : none ∈ chosen
        · exact .inr (appends inside)
        · exact .inl (mem_members.mpr (member inside))
      have run : Relation.ReflTransGen (system arguments old).Step (between old done grown) _ :=
        round_run (members chosen) first ready firstReady
      rw [Nat.add_comm rounds 1, ← Nat.add_assoc]
      apply run.trans (inductionHypothesis _ _ _)
      · intro process
        rw [advanced]
        split_ifs with isChosen
        · rcases Finset.mem_insert.mp isChosen with rfl | isChosen
          · exact firstReady.elim (fun inside => (ready process inside).2) fun appends => appends.2
          · exact (ready process isChosen).2
        · exact within process
      · intro lane
        have step := less lane
        have bound := fits lane
        by_cases isChosen : lane ∈ chosen
        · rw [if_pos isChosen] at step
          omega
        · rw [if_neg isChosen] at step
          exact step.le.trans (rest lane isChosen)
      · have card : chosen.card = ∑ lane, if lane ∈ chosen then 1 else 0 := by
          rw [← Finset.card_filter, Finset.filter_univ_mem]
        have total : ∑ lane, lanes arguments (advanced done (insert first (members chosen))) lane +
            chosen.card = ∑ lane, lanes arguments done lane := by
          rw [card, ← Finset.sum_add_distrib]
          exact Finset.sum_congr rfl fun lane _ => less lane
        omega

theorem open_each [Fintype Process] : Relation.ReflTransGen (system arguments old).Step
    ⟨fun _ => .opening, old⟩ (between old (fun _ => 0) 0) := by
  have run : Relation.ReflTransGen (system arguments old).Step ⟨fun _ => .opening, old⟩
      ⟨fun process => if process ∈ Finset.univ then .looping 0 else .opening, old⟩ := by
    apply run_each (fun places => (⟨places, old⟩ : State Process)) (fun _ => .opening)
      (fun _ => .looping 0) Finset.univ
    · intro process _ places place
      refine ⟨(process, true), trivial, ?_⟩
      simp [step, place, State.goto]
    · exact fun _ _ => rfl
  simpa only [Finset.mem_univ, if_true, between, grownFile, List.replicate_zero,
    List.append_nil] using run

theorem exit_each [Fintype Process] : Relation.ReflTransGen (system arguments old).Step
    (between old arguments.count grown) ⟨fun _ => .exited 0, grownFile old grown⟩ := by
  have run : Relation.ReflTransGen (system arguments old).Step
      (between old arguments.count grown)
      ⟨fun process => if process ∈ Finset.univ then .exited 0
        else .looping (arguments.count process), grownFile old grown⟩ := by
    apply run_each (fun places => (⟨places, grownFile old grown⟩ : State Process))
      (fun process => .looping (arguments.count process)) (fun _ => .exited 0) Finset.univ
    · intro process _ places place
      have through : ¬ (arguments.count process : Int) < arguments.byte_nums process := by
        rw [Arguments.count]
        omega
      refine ⟨(process, true), trivial, ?_⟩
      simp [step, place, through, State.goto]
    · exact fun _ _ => rfl
  simpa only [Finset.mem_univ, if_true] using run

end Schedules

/-- What the file can contain when all processes have ended well: the old bytes, and then as
many `x` as were written with `O_APPEND`, as each of the other processes wrote, or more up to
all that were written. -/
theorem bytes_iff_canGrow [Fintype Process] (arguments : Arguments Process)
    (old bytes : List UInt8) :
    (∃ state, (system arguments old).Reachable state ∧
        (∀ process, state.pc process = .exited 0) ∧ state.bytes = bytes) ↔
      ∃ grown, arguments.CanGrow grown ∧ bytes = grownFile old grown := by
  constructor
  · rintro ⟨state, reachable, through, rfl⟩
    rcases (system_inductive arguments old).holds reachable with ⟨failed, ended⟩ | ⟨grown, counts⟩
    · rw [through] at ended
      cases ended
    · exact ⟨grown, counts.canGrow through, counts.bytes⟩
  · rintro ⟨grown, ⟨appended, each, atMost⟩, rfl⟩
    have rounds : Relation.ReflTransGen (system arguments old).Step (between old (fun _ => 0) 0)
        (between old arguments.count (0 + grown)) := by
      apply rounds_run grown
      · exact fun _ => Nat.zero_le _
      · intro lane
        cases lane with
        | none => exact appended
        | some process =>
            rw [lanes]
            split_ifs with append
            · exact Nat.zero_le _
            · exact each process append
      · rw [sum_lanes]
        exact atMost
    rw [Nat.zero_add] at rounds
    exact ⟨_, ⟨_, rfl, (open_each.trans rounds).trans exit_each⟩, fun _ => rfl, rfl⟩

/-- With `O_APPEND` throughout no byte is lost. -/
theorem bytes_of_append [Fintype Process] (arguments : Arguments Process) (old : List UInt8)
    (append : ∀ process, arguments.append process = true) {state : State Process}
    (reachable : (system arguments old).Reachable state)
    (through : ∀ process, state.pc process = .exited 0) :
    state.bytes = grownFile old (∑ process, arguments.count process) := by
  rcases (system_inductive arguments old).holds reachable with ⟨failed, ended⟩ | ⟨grown, counts⟩
  · rw [through] at ended
    cases ended
  · obtain ⟨low, -, high⟩ := counts.canGrow through
    simp only [Arguments.appended, append, if_true] at low
    rw [counts.bytes, Nat.le_antisymm high low]

end LinuxProgramming.Files.AtomicAppend
