import Mathlib.Data.List.GetD
import LinuxProgramming.Processes.ExeclpScript

/-!
Contract: the loop of `my_execlp` that collects its arguments.

Owns:
- the loop with its vector, the size it keeps of it and the pointers that `va_arg` delivers,
  a store or a load outside of the vector being none;
- that all arguments are stored, and the agreement with `collect`.

Does not own: allocations that fail, and what `int` does at its limits.
-/

namespace LinuxProgramming.Processes.Execlp

/-- What the loop does to the vector. -/
inductive Event where
  | store (index argv_size : Nat)
  | realloc (argc : Nat) (before after : Pointers)
deriving DecidableEq, Repr

/-- A store is inside, and a new vector has the entries that were stored. -/
def Event.Ok : Event → Prop
  | .store index argv_size => index < argv_size
  | .realloc argc before after => after.take argc = before.take argc

/-- The variables of the loop. -/
structure Arguments where
  argv_size : Nat
  /-- The elements that are allocated at `argv`. -/
  argv : Pointers
  argc : Nat
  events : List Event
deriving DecidableEq, Repr

/-- `calloc(100, sizeof(void *))`. -/
def allocated : Arguments := ⟨100, List.replicate 100 none, 0, []⟩

/-- `argv[argc] = pointer; argc++`. -/
def Arguments.store? (args : Arguments) (pointer : Option (List UInt8)) : Option Arguments :=
  if args.argc < args.argv.length then
    some
      { args with
        argv := args.argv.set args.argc pointer
        argc := args.argc + 1
        events := args.events ++ [.store args.argc args.argv_size] }
  else none

/-- `realloc` to `size` elements: those of the old vector, then whatever is in memory. -/
def reallocate (memory : Nat → Option (List UInt8)) (argv : Pointers) (size : Nat) : Pointers :=
  (List.range size).map fun j => argv.getD j (memory j)

def Arguments.grow (memory : Nat → Option (List UInt8)) (args : Arguments) : Arguments :=
  if args.argc + 1 ≥ args.argv_size then
    let argv := reallocate memory args.argv (args.argv_size + 100)
    { args with
      argv_size := args.argv_size + 100
      argv
      events := args.events ++ [.realloc args.argc args.argv argv] }
  else args

/-- The loop, with the pointers that are still to be delivered. -/
def collectLoop (memory : Nat → Option (List UInt8)) : Pointers → Arguments → Option Arguments
  | arg_list, args =>
      match args.argv[args.argc - 1]? with
      | none => none
      | some none => some args
      | some (some _) =>
          match arg_list with
          | [] => none
          | next :: rest => ((args.grow memory).store? next).bind (collectLoop memory rest)

/-- The pointers are those that the caller passes behind `filename`, and what `va_arg` would
find behind them. -/
def collectArguments (memory : Nat → Option (List UInt8)) : Pointers → Option Arguments
  | [] => none
  | arg :: arg_list => (allocated.store? arg).bind (collectLoop memory arg_list)

/-! ### What the loop keeps -/

/-- What has been stored, and that nothing went wrong on the way. -/
structure Arguments.Holds (args : Arguments) (stored : Pointers) : Prop where
  collected : Collected stored args.argc args.argv
  size : args.argv.length = args.argv_size
  events : ∀ event ∈ args.events, event.Ok

theorem Collected.length {stored argv : Pointers} {argc : Nat}
    (collected : Collected stored argc argv) : argc = stored.length := by
  rw [← collected.stored_, List.length_take, Nat.min_eq_left (Nat.le_of_lt collected.room)]

/-- The entry that the loop looks at is the one it stored last. -/
theorem Collected.last {stored argv : Pointers} {argc : Nat} {pointer : Option (List UInt8)}
    (collected : Collected (stored ++ [pointer]) argc argv) : argv[argc - 1]? = some pointer := by
  have count : argc = stored.length + 1 := by
    rw [collected.length, List.length_append]
    rfl
  have inside : argc - 1 < argc := by omega
  rw [← List.getElem?_take_of_lt inside, collected.stored_, count, Nat.add_sub_cancel,
    List.getElem?_concat_length]

/-- A larger vector has the old elements in front. -/
theorem reallocate_eq (memory : Nat → Option (List UInt8)) (argv : Pointers) (more : Nat) :
    reallocate memory argv (argv.length + more) =
      argv ++ (List.range more).map fun j => memory (argv.length + j) := by
  rw [reallocate, List.range_add, List.map_append, List.map_map]
  congr 1
  · refine List.ext_getElem (by simp) fun j _ inside => ?_
    rw [List.getElem_map, List.getElem_range, List.getD_eq_getElem argv (memory j) inside]
  · refine List.map_congr_left fun j _ => ?_
    exact List.getD_eq_default argv _ (Nat.le_add_right argv.length j)

theorem Arguments.grow_argv (memory : Nat → Option (List UInt8)) {args : Arguments}
    (size : args.argv.length = args.argv_size) :
    (args.grow memory).argv =
      if args.argc + 1 ≥ args.argv.length then
        args.argv ++ (List.range 100).map fun j => memory (args.argv.length + j)
      else args.argv := by
  rw [Arguments.grow, ← size]
  split
  · exact reallocate_eq memory args.argv 100
  · rfl

@[simp] theorem Arguments.grow_argc (memory : Nat → Option (List UInt8)) (args : Arguments) :
    (args.grow memory).argc = args.argc := by
  rw [Arguments.grow]
  split <;> rfl

theorem Arguments.Holds.grow (memory : Nat → Option (List UInt8)) {args : Arguments}
    {stored : Pointers} (holds : args.Holds stored) : (args.grow memory).Holds stored := by
  have grown := (holds.collected.grow memory).1
  rw [← Arguments.grow_argv memory holds.size] at grown
  unfold Arguments.grow at grown ⊢
  split
  case isFalse => exact holds
  case isTrue full =>
    rw [if_pos full] at grown
    refine ⟨grown, ?_, ?_⟩
    · rw [reallocate, List.length_map, List.length_range]
    · intro event logged
      rcases List.mem_append.mp logged with earlier | last
      · exact holds.events event earlier
      · rw [List.mem_singleton.mp last]
        exact grown.stored_.trans holds.collected.stored_.symm

/-- Behind `grow` there is room for two more entries. -/
theorem Arguments.Holds.room (memory : Nat → Option (List UInt8)) {args : Arguments}
    {stored : Pointers} (holds : args.Holds stored) :
    (args.grow memory).argc + 1 < (args.grow memory).argv.length := by
  have room := (holds.collected.grow memory).2
  rw [← Arguments.grow_argv memory holds.size] at room
  rw [Arguments.grow_argc]
  exact room

theorem Arguments.Holds.store {args : Arguments} {stored : Pointers} (holds : args.Holds stored)
    (room : args.argc + 1 < args.argv.length) (pointer : Option (List UInt8)) :
    ∃ args', args.store? pointer = some args' ∧ args'.Holds (stored ++ [pointer]) ∧
      args'.argc = args.argc + 1 ∧ args'.argv = args.argv.set args.argc pointer := by
  have inside : args.argc < args.argv.length := Nat.lt_of_succ_lt room
  refine ⟨_, if_pos inside, ⟨holds.collected.set room pointer, ?_, ?_⟩, rfl, rfl⟩
  · rw [List.length_set]
    exact holds.size
  · intro event logged
    rcases List.mem_append.mp logged with earlier | last
    · exact holds.events event earlier
    · rw [List.mem_singleton.mp last]
      exact holds.size ▸ inside

theorem allocated_holds : allocated.Holds [] where
  collected := ⟨by decide, rfl⟩
  size := rfl
  events := fun _ logged => absurd logged List.not_mem_nil

/-- One turn: with another argument behind the last one stored, the loop goes on. -/
theorem collectLoop_turn (memory : Nat → Option (List UInt8)) {args : Arguments}
    {stored : Pointers} {bytes : List UInt8} (holds : args.Holds (stored ++ [some bytes]))
    (next : Option (List UInt8)) (rest : Pointers) :
    ∃ args', args'.Holds (stored ++ [some bytes] ++ [next]) ∧
      args'.argc = args.argc + 1 ∧
      args'.argv = (args.grow memory).argv.set args.argc next ∧
      collectLoop memory (next :: rest) args = collectLoop memory rest args' := by
  obtain ⟨args', stored_, holds', argc, argv⟩ :=
    (holds.grow memory).store (holds.room memory) next
  rw [Arguments.grow_argc] at argc argv
  refine ⟨args', holds', argc, argv, ?_⟩
  rw [collectLoop, holds.collected.last]
  dsimp only
  rw [stored_, Option.bind_some]

/-- Behind a null pointer the loop is left. -/
theorem collectLoop_null (memory : Nat → Option (List UInt8)) {args : Arguments}
    {stored : Pointers} (holds : args.Holds (stored ++ [none])) (arg_list : Pointers) :
    collectLoop memory arg_list args = some args := by
  unfold collectLoop
  rw [holds.collected.last]

/-- The induction is on the arguments that are still to come. -/
theorem collectLoop_holds (memory : Nat → Option (List UInt8)) (arguments : List CString)
    (beyond : Pointers) {args : Arguments} {stored : Pointers} {bytes : List UInt8}
    (holds : args.Holds (stored ++ [some bytes])) :
    ∃ args', collectLoop memory (pointersTo arguments ++ none :: beyond) args = some args' ∧
      args'.Holds (stored ++ [some bytes] ++ pointersTo arguments ++ [none]) ∧
      (args'.argc, args'.argv) = collect memory arguments args.argc args.argv := by
  induction arguments generalizing args stored bytes with
  | nil =>
      obtain ⟨args', holds', argc, argv, turn⟩ := collectLoop_turn memory holds none beyond
      refine ⟨args', ?_, ?_, ?_⟩
      · exact turn.trans (collectLoop_null memory holds' beyond)
      · rw [pointersTo, List.map_nil, List.append_nil]
        exact holds'
      · rw [argc, argv, Arguments.grow_argv memory holds.size]
        rfl
  | cons next rest inductionHypothesis =>
      obtain ⟨args', holds', argc, argv, turn⟩ :=
        collectLoop_turn memory holds (some next.bytes) (pointersTo rest ++ none :: beyond)
      obtain ⟨last, run, ends, agrees⟩ := inductionHypothesis holds'
      refine ⟨last, turn.trans run, ?_, ?_⟩
      · rw [List.append_assoc (stored ++ [some bytes])] at ends
        exact ends
      · rw [agrees, argc, argv, Arguments.grow_argv memory holds.size]
        rfl

/-! ### What the loop leaves -/

/-- What the loop has to leave for the pointers up to the null pointer. -/
structure Arguments.Law (pointers : Pointers) (args : Arguments) : Prop where
  entries : args.argv.take args.argc = pointers
  count : args.argc = pointers.length
  valid : args.argc < args.argv_size
  size : args.argv.length = args.argv_size
  events : ∀ event ∈ args.events, event.Ok

theorem Arguments.Holds.law {args : Arguments} {pointers : Pointers}
    (holds : args.Holds pointers) : args.Law pointers where
  entries := holds.collected.stored_
  count := holds.collected.length
  valid := holds.size ▸ holds.collected.room
  size := holds.size
  events := holds.events

theorem collectArguments_holds (memory : Nat → Option (List UInt8)) (arguments : List CString)
    (beyond : Pointers) :
    ∃ args, collectArguments memory (pointersTo arguments ++ none :: beyond) = some args ∧
      args.Holds (pointersTo arguments ++ [none]) ∧
      ∀ environ, (args.argc, args.argv) =
        ((program memory arguments environ).argc, (program memory arguments environ).argv) := by
  have room : allocated.argc + 1 < allocated.argv.length := by decide
  cases arguments with
  | nil =>
      obtain ⟨args, stored_, holds, argc, argv⟩ := allocated_holds.store room none
      refine ⟨args, ?_, holds, fun environ => ?_⟩
      · exact (congrArg (Option.bind · (collectLoop memory beyond)) stored_).trans
          (collectLoop_null memory holds beyond)
      · rw [argc, argv]
        rfl
  | cons arg rest =>
      obtain ⟨args, stored_, holds, argc, argv⟩ := allocated_holds.store room (some arg.bytes)
      obtain ⟨last, run, ends, agrees⟩ := collectLoop_holds memory rest beyond holds
      refine ⟨last, ?_, ends, fun environ => ?_⟩
      · exact (congrArg (Option.bind · (collectLoop memory _)) stored_).trans run
      · rw [agrees, argc, argv]
        rfl

/-- The vector that the loop leaves is the one of `program`. -/
theorem collectArguments_program (memory : Nat → Option (List UInt8))
    (arguments environ : List CString) (beyond : Pointers) :
    (collectArguments memory (pointersTo arguments ++ none :: beyond)).map
        (fun args => (args.argc, args.argv)) =
      some ((program memory arguments environ).argc, (program memory arguments environ).argv) := by
  obtain ⟨args, run, _, agrees⟩ := collectArguments_holds memory arguments beyond
  rw [run, Option.map_some, agrees environ]

/-- Whatever the number of arguments: all of them are stored, and the null pointer behind
them, without a store that is outside. -/
theorem collectArguments_law (memory : Nat → Option (List UInt8)) (arguments : List CString)
    (beyond : Pointers) :
    ∃ args, collectArguments memory (pointersTo arguments ++ none :: beyond) = some args ∧
      args.Law (pointersTo arguments ++ [none]) := by
  obtain ⟨args, run, holds, _⟩ := collectArguments_holds memory arguments beyond
  exact ⟨args, run, holds.law⟩

end LinuxProgramming.Processes.Execlp
