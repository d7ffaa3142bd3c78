import LinuxProgramming.Library.TransitionSystem
import Mathlib.Data.List.Infix
import Mathlib.Logic.Function.Basic

/-!
Contract: processes that copy bytes between streams, each in both directions with one
buffer, and wait with `select` for either direction.

Owns:
- the network: who reads and who writes a stream, how much of it is buffered;
- the loop of a relay, one call at a time, and what the outside does;
- what arrives in a stream of what was written to another one.

Does not own: any particular network.
-/

namespace LinuxProgramming.Library

namespace Relays

/-! ### The network -/

/-- The two directions of a relay, in the order its loop handles them. -/
inductive Port where
  | first
  | second
deriving DecidableEq, Repr

/-- For each direction the stream read and the stream written. -/
structure Relay (Stream : Type) where
  source : Port → Stream
  sink : Port → Stream
  bufSize : Nat

/-- Relays and streams. A stream without a reader or writer among the relays is read or
written from outside. No capacity means that writing never blocks. -/
structure Network (Name Stream : Type) where
  relay : Name → Relay Stream
  reader : Stream → Option Name
  writer : Stream → Option Name
  capacity : Stream → Option Nat
  /-- The streams that are connections, which may be reset. -/
  connection : Stream → Bool
  reader_source : ∀ name port, reader ((relay name).source port) = some name
  writer_sink : ∀ name port, writer ((relay name).sink port) = some name
  source_injective : ∀ name, Function.Injective (relay name).source
  sink_injective : ∀ name, Function.Injective (relay name).sink
  bufSize_pos : ∀ name, 0 < (relay name).bufSize

/-- Where a relay is in its loop. `also` says that the second direction is ready as well.
A relay that has ended carries the direction in which it found the end of a stream. -/
inductive Turn (α : Type) where
  | selecting
  | reading (port : Port) (also : Bool)
  | writing (port : Port) (also : Bool) (buf : List α)
  | exited (atEnd : Option Port)
deriving DecidableEq, Repr

namespace Turn

variable {α : Type}

/-- The bytes a relay has read in a direction and not yet written. -/
def carried : Turn α → Port → List α
  | writing port _ buf, direction => if port = direction then buf else []
  | _, _ => []

def isExited : Turn α → Bool
  | exited _ => true
  | _ => false

/-- Behind a direction. -/
def next (also : Bool) : Turn α :=
  if also then reading .second false else selecting

@[simp] theorem carried_selecting (port : Port) : (selecting : Turn α).carried port = [] := rfl

@[simp] theorem carried_reading (port direction : Port) (also : Bool) :
    (reading port also : Turn α).carried direction = [] := rfl

@[simp] theorem carried_exited (atEnd : Option Port) (port : Port) :
    (exited atEnd : Turn α).carried port = [] := rfl

@[simp] theorem carried_next (also : Bool) (port : Port) :
    (next also : Turn α).carried port = [] := by
  cases also <;> rfl

@[simp] theorem isExited_next (also : Bool) : (next also : Turn α).isExited = false := by
  cases also <;> rfl

end Turn

/-- The streams: what is buffered, and everything ever written to them and read from
them; a partial or failed write is reported for the stream. -/
structure State (Name Stream α : Type) where
  turn : Name → Turn α
  queue : Stream → List α
  ended : Stream → Bool
  written : Stream → List α
  taken : Stream → List α
  short : Stream → Bool

/-- The calls of the relays, and what happens outside them. -/
inductive Action (Name Stream α : Type) where
  | call (name : Name) (count : Nat)
  | fail (name : Name)
  | kill (name : Name)
  | arrive (stream : Stream) (symbols : List α)
  | finish (stream : Stream)
  | accept (stream : Stream) (count : Nat)
  | reset (stream : Stream) (kept : Nat)
deriving DecidableEq, Repr

variable {Name Stream α : Type}

namespace State

/-- A read does not block. -/
def Readable (state : State Name Stream α) (stream : Stream) : Prop :=
  state.queue stream ≠ [] ∨ state.ended stream = true

instance (state : State Name Stream α) (stream : Stream) : Decidable (state.Readable stream) :=
  inferInstanceAs (Decidable (state.queue stream ≠ [] ∨ state.ended stream = true))

section Turns

variable [DecidableEq Name]

def goto (state : State Name Stream α) (name : Name) (turn : Turn α) : State Name Stream α :=
  { state with turn := Function.update state.turn name turn }

@[simp] theorem goto_turn (state : State Name Stream α) (name other : Name) (turn : Turn α) :
    (state.goto name turn).turn other = if other = name then turn else state.turn other :=
  Function.update_apply ..

end Turns

section Streams

variable [DecidableEq Stream]

/-- The first bytes of a stream are read. -/
def take (state : State Name Stream α) (stream : Stream) (count : Nat) : State Name Stream α :=
  { state with
    queue := Function.update state.queue stream ((state.queue stream).drop count)
    taken := Function.update state.taken stream
      (state.taken stream ++ (state.queue stream).take count) }

/-- Bytes are written to a stream. -/
def put (state : State Name Stream α) (stream : Stream) (symbols : List α) :
    State Name Stream α :=
  { state with
    queue := Function.update state.queue stream (state.queue stream ++ symbols)
    written := Function.update state.written stream (state.written stream ++ symbols) }

/-- No more is written to a stream. -/
def close (state : State Name Stream α) (stream : Stream) : State Name Stream α :=
  { state with ended := Function.update state.ended stream true }

/-- The end of a stream is lost. -/
def cut (state : State Name Stream α) (stream : Stream) (kept : Nat) : State Name Stream α :=
  { state with
    queue := Function.update state.queue stream ((state.queue stream).take kept) }

/-- A partial or failed write to a stream is reported. -/
def report (state : State Name Stream α) (stream : Stream) : State Name Stream α :=
  { state with short := Function.update state.short stream true }

variable (state : State Name Stream α) (stream other : Stream) (count : Nat) (symbols : List α)

@[simp] theorem close_ended : (state.close stream).ended other =
    if other = stream then true else state.ended other := Function.update_apply ..

@[simp] theorem cut_queue : (state.cut stream count).queue other =
    if other = stream then (state.queue stream).take count else state.queue other :=
  Function.update_apply ..

@[simp] theorem report_short : (state.report stream).short other =
    if other = stream then true else state.short other := Function.update_apply ..

@[simp] theorem take_queue : (state.take stream count).queue other =
    if other = stream then (state.queue stream).drop count else state.queue other :=
  Function.update_apply ..

@[simp] theorem take_taken : (state.take stream count).taken other =
    if other = stream then state.taken stream ++ (state.queue stream).take count
    else state.taken other := Function.update_apply ..

@[simp] theorem put_queue : (state.put stream symbols).queue other =
    if other = stream then state.queue stream ++ symbols else state.queue other :=
  Function.update_apply ..

@[simp] theorem put_written : (state.put stream symbols).written other =
    if other = stream then state.written stream ++ symbols else state.written other :=
  Function.update_apply ..

end Streams

end State

variable [DecidableEq Name] [DecidableEq Stream] (network : Network Name Stream)

/-- The end of a relay closes the streams it writes. -/
def exit (state : State Name Stream α) (name : Name) (atEnd : Option Port) :
    State Name Stream α :=
  { state.goto name (.exited atEnd) with
    ended := fun stream => state.ended stream || decide (network.writer stream = some name) }

omit [DecidableEq Stream] in
@[simp] theorem exit_turn (state : State Name Stream α) (name other : Name)
    (atEnd : Option Port) : (exit network state name atEnd).turn other =
      if other = name then .exited atEnd else state.turn other := State.goto_turn ..

/-- There is room for so many bytes. -/
def Room (state : State Name Stream α) (stream : Stream) (count : Nat) : Prop :=
  ∀ capacity, network.capacity stream = some capacity →
    (state.queue stream).length + count ≤ capacity

instance (state : State Name Stream α) (stream : Stream) (count : Nat) :
    Decidable (Room network state stream count) :=
  match capacity : network.capacity stream with
  | none => isTrue fun _ bounded => by rw [capacity] at bounded; cases bounded
  | some bound =>
      decidable_of_iff ((state.queue stream).length + count ≤ bound)
        ⟨fun fits _ bounded => by rw [capacity] at bounded; cases bounded; exact fits,
          fun fits => fits bound capacity⟩

/-- A call of a relay that does not fail. A `write` goes on until all is written. -/
def call (name : Name) (count : Nat) (state : State Name Stream α) :
    Option (State Name Stream α) :=
  let relay := network.relay name
  match state.turn name with
  | .selecting =>
      if state.Readable (relay.source .first) then
        some (state.goto name (.reading .first (decide (state.Readable (relay.source .second)))))
      else if state.Readable (relay.source .second) then
        some (state.goto name (.reading .second false))
      else none
  | .reading port also =>
      if state.queue (relay.source port) = [] then
        if state.ended (relay.source port) then some (exit network state name (some port)) else none
      else if 0 < count ∧ count ≤ relay.bufSize ∧
          count ≤ (state.queue (relay.source port)).length then
        some ((state.take (relay.source port) count).goto name
          (.writing port also ((state.queue (relay.source port)).take count)))
      else none
  | .writing port also buf =>
      if 0 < count ∧ count ≤ buf.length ∧ Room network state (relay.sink port) count then
        some ((state.put (relay.sink port) (buf.take count)).goto name
          (if count = buf.length then .next also else .writing port also (buf.drop count)))
      else none
  | .exited _ => none

/-- A call that fails. What a `write` has not written is dropped. -/
def fail (name : Name) (state : State Name Stream α) : Option (State Name Stream α) :=
  match state.turn name with
  | .selecting => some (exit network state name none)
  | .reading _ _ => some (exit network state name none)
  | .writing port also _ =>
      some ((state.goto name (.next also)).report ((network.relay name).sink port))
  | .exited _ => none

def step : Action Name Stream α → State Name Stream α → Option (State Name Stream α)
  | .call name count, state => call network name count state
  | .fail name, state => fail network name state
  | .kill name, state =>
      if (state.turn name).isExited then none else some (exit network state name none)
  | .arrive stream symbols, state =>
      if network.writer stream = none ∧ state.ended stream = false ∧
          Room network state stream symbols.length then
        some (state.put stream symbols)
      else none
  | .finish stream, state =>
      if network.writer stream = none ∧ state.ended stream = false then
        some (state.close stream)
      else none
  | .accept stream count, state =>
      if network.reader stream = none ∧ count ≤ (state.queue stream).length then
        some (state.take stream count)
      else none
  | .reset stream kept, state =>
      -- a connection whose writer has gone loses the end of what was sent
      if network.connection stream ∧ state.ended stream then
        some (state.cut stream kept)
      else none

/-- Every relay waits, and nothing has been written. -/
def started : State Name Stream α where
  turn _ := .selecting
  queue _ := []
  ended _ := false
  written _ := []
  taken _ := []
  short _ := false

def system : TransitionSystem (State Name Stream α) :=
  labelled (· = started) (step network)

/-! ### What has gone through -/

/-- Nothing is invented, doubled or reordered. A stream is read from its start and in
order; while its writer is there, nothing of it is lost. What a relay has written in a
direction and still carries is what it has read there, less what partial writes dropped. -/
structure Sound (state : State Name Stream α) : Prop where
  kept : ∀ stream, state.taken stream ++ state.queue stream <+: state.written stream
  whole : ∀ stream, state.ended stream = false →
    state.taken stream ++ state.queue stream = state.written stream
  ended : ∀ stream name, network.writer stream = some name →
    state.ended stream = (state.turn name).isExited
  passed : ∀ name port, (state.written ((network.relay name).sink port) ++
    (state.turn name).carried port).Sublist (state.taken ((network.relay name).source port))
  lossless : ∀ name port, state.short ((network.relay name).sink port) = false →
    (state.turn name).isExited = false →
    state.written ((network.relay name).sink port) ++ (state.turn name).carried port =
      state.taken ((network.relay name).source port)
  gone : ∀ name port, state.short ((network.relay name).sink port) = false →
    (state.turn name).isExited = true →
    state.written ((network.relay name).sink port) <+:
      state.taken ((network.relay name).source port)

section Steps

variable {network} {state : State Name Stream α} {name : Name} {port : Port} {stream : Stream}

omit [DecidableEq Name] [DecidableEq Stream] in
theorem started_sound : Sound network (started : State Name Stream α) where
  kept _ := List.prefix_rfl
  whole _ _ := rfl
  ended _ _ _ := rfl
  passed _ _ := List.Sublist.refl _
  lossless _ _ _ _ := rfl
  gone _ _ _ _ := List.prefix_rfl

omit [DecidableEq Name] [DecidableEq Stream] in
/-- Without partial writes nothing is left out. -/
theorem Sound.gapless (sound : Sound network state) (name : Name) (port : Port)
    (isWhole : state.short ((network.relay name).sink port) = false) :
    state.written ((network.relay name).sink port) <+:
      state.taken ((network.relay name).source port) := by
  cases isThere : (state.turn name).isExited with
  | false =>
      rw [← sound.lossless name port isWhole isThere]
      exact List.prefix_append _ _
  | true => exact sound.gone name port isWhole isThere

omit [DecidableEq Name] [DecidableEq Stream] in
theorem Network.source_ne {other : Name} (different : other ≠ name) (port port' : Port) :
    (network.relay other).source port ≠ (network.relay name).source port' := by
  intro same
  have reads := network.reader_source other port
  rw [same, network.reader_source] at reads
  exact different (Option.some.inj reads).symm

omit [DecidableEq Name] [DecidableEq Stream] in
theorem Network.sink_ne {other : Name} (different : other ≠ name) (port port' : Port) :
    (network.relay other).sink port ≠ (network.relay name).sink port' := by
  intro same
  have writes := network.writer_sink other port
  rw [same, network.writer_sink] at writes
  exact different (Option.some.inj writes).symm

omit [DecidableEq Stream] in
/-- A relay that moves on without bytes. -/
theorem Sound.goto (sound : Sound network state) {turn : Turn α}
    (carried : turn.carried = (state.turn name).carried)
    (same : turn.isExited = (state.turn name).isExited) :
    Sound network (state.goto name turn) := by
  have carries (other : Name) :
      ((state.goto name turn).turn other).carried = (state.turn other).carried := by
    rw [State.goto_turn]
    split
    case isTrue isName => rw [isName, carried]
    case isFalse => rfl
  have exits (other : Name) :
      ((state.goto name turn).turn other).isExited = (state.turn other).isExited := by
    rw [State.goto_turn]
    split
    case isTrue isName => rw [isName, same]
    case isFalse => rfl
  exact {
    kept := sound.kept
    whole := sound.whole
    ended := fun stream other writes => (sound.ended stream other writes).trans (exits other).symm
    passed := fun other port => by
      rw [carries]
      exact sound.passed other port
    lossless := fun other port isWhole stays => by
      rw [carries]
      rw [exits] at stays
      exact sound.lossless other port isWhole stays
    gone := fun other port isWhole left => by
      rw [exits] at left
      exact sound.gone other port isWhole left }

omit [DecidableEq Stream] in
/-- A relay that ends drops what it carries. -/
theorem Sound.exit (sound : Sound network state) (atEnd : Option Port) :
    Sound network (exit network state name atEnd) := by
  exact {
    kept := sound.kept
    whole := fun stream open_ => sound.whole stream (Bool.or_eq_false_iff.mp open_).1
    ended := fun stream other writes => by
      rw [exit_turn]
      have before := sound.ended stream other writes
      show (state.ended stream || decide (network.writer stream = some name)) = _
      by_cases isName : other = name
      · rw [if_pos isName, writes, isName, decide_eq_true rfl, Bool.or_true]
        rfl
      · rw [if_neg isName, before, writes,
          decide_eq_false (fun same => isName (Option.some.inj same)), Bool.or_false]
    passed := fun other port => by
      have before := sound.passed other port
      rw [exit_turn]
      split
      · rw [Turn.carried_exited, List.append_nil]
        exact (List.sublist_append_left _ _).trans before
      · exact before
    lossless := fun other port isWhole stays => by
      rw [exit_turn] at stays ⊢
      split at stays
      · cases stays
      case isFalse isOther =>
        rw [if_neg isOther]
        exact sound.lossless other port isWhole stays
    gone := fun other port isWhole _ => sound.gapless other port isWhole }

/-- Bytes of a stream are read; they are carried now. -/
theorem Sound.fetch (sound : Sound network state) (count : Nat) {turn : Turn α}
    (carried : ∀ other, turn.carried other =
      if other = port then (state.queue ((network.relay name).source port)).take count else [])
    (carriedNothing : (state.turn name).carried = fun _ => [])
    (stays : (state.turn name).isExited = false) (stays' : turn.isExited = false) :
    Sound network ((state.take ((network.relay name).source port) count).goto name turn) := by
  let after := (state.take ((network.relay name).source port) count).goto name turn
  have exits (other : Name) : (after.turn other).isExited = (state.turn other).isExited := by
    rw [State.goto_turn]
    split
    case isTrue isName => rw [isName, stays, stays']
    case isFalse => rfl
  have divided (stream : Stream) :
      after.taken stream ++ after.queue stream = state.taken stream ++ state.queue stream := by
    show (state.take _ count).taken stream ++ (state.take _ count).queue stream = _
    rw [State.take_taken, State.take_queue]
    split
    case isTrue same => rw [List.append_assoc, List.take_append_drop, same]
    case isFalse => rfl
  -- what is carried more has been read more
  have mine (direction : Port) :
      after.taken ((network.relay name).source direction) =
        state.taken ((network.relay name).source direction) ++ turn.carried direction := by
    show (state.take _ count).taken _ = _
    rw [State.take_taken, carried]
    by_cases here : direction = port
    · rw [if_pos here, here, if_pos rfl]
    · rw [if_neg here, if_neg fun same => here (network.source_injective name same),
        List.append_nil]
  have others {other : Name} (isOther : other ≠ name) (direction : Port) :
      after.taken ((network.relay other).source direction) =
        state.taken ((network.relay other).source direction) := by
    show (state.take _ count).taken _ = _
    rw [State.take_taken, if_neg (network.source_ne isOther direction port)]
  have turns (other : Name) : after.turn other = if other = name then turn else state.turn other :=
    State.goto_turn ..
  exact {
    kept := fun stream => (divided stream).symm ▸ sound.kept stream
    whole := fun stream open_ => (divided stream).trans (sound.whole stream open_)
    ended := fun stream other writes => (sound.ended stream other writes).trans (exits other).symm
    passed := fun other direction => by
      have before := sound.passed other direction
      rw [turns]
      split
      case isTrue isName =>
        subst isName
        rw [carriedNothing, List.append_nil] at before
        rw [mine]
        exact before.append (List.Sublist.refl _)
      case isFalse isOther =>
        rw [others isOther]
        exact before
    lossless := fun other direction isWhole isThere => by
      rw [exits] at isThere
      have before := sound.lossless other direction isWhole isThere
      rw [turns]
      split
      case isTrue isName =>
        subst isName
        rw [carriedNothing, List.append_nil] at before
        rw [mine, ← before]
        rfl
      case isFalse isOther =>
        rw [others isOther]
        exact before
    gone := fun other direction isWhole left => by
      rw [exits] at left
      have isOther : other ≠ name := by
        intro isName
        rw [isName, stays] at left
        cases left
      rw [others isOther]
      exact sound.gone other direction isWhole left }

/-- Carried bytes are written. -/
theorem Sound.store (sound : Sound network state) {count : Nat} {buf : List α} {turn : Turn α}
    (before : ∀ other, (state.turn name).carried other = if other = port then buf else [])
    (after : ∀ other, turn.carried other = if other = port then buf.drop count else [])
    (stays : (state.turn name).isExited = false) (stays' : turn.isExited = false) :
    Sound network ((state.put ((network.relay name).sink port) (buf.take count)).goto name
      turn) := by
  let later := (state.put ((network.relay name).sink port) (buf.take count)).goto name turn
  have exits (other : Name) : (later.turn other).isExited = (state.turn other).isExited := by
    rw [State.goto_turn]
    split
    case isTrue isName => rw [isName, stays, stays']
    case isFalse => rfl
  have open_ : state.ended ((network.relay name).sink port) = false :=
    (sound.ended _ name (network.writer_sink name port)).trans stays
  have added (stream : Stream) : ∃ symbols,
      (state.put ((network.relay name).sink port) (buf.take count)).queue stream =
          state.queue stream ++ symbols ∧
        (state.put ((network.relay name).sink port) (buf.take count)).written stream =
          state.written stream ++ symbols ∧
        (state.ended stream = true → symbols = []) := by
    rw [State.put_queue, State.put_written]
    split
    case isTrue same =>
      subst same
      exact ⟨_, rfl, rfl, fun closed => by rw [open_] at closed; cases closed⟩
    case isFalse =>
      exact ⟨[], (List.append_nil _).symm, (List.append_nil _).symm, fun _ => rfl⟩
  have total (other : Name) (direction : Port) :
      later.written ((network.relay other).sink direction) ++ (later.turn other).carried direction =
        state.written ((network.relay other).sink direction) ++
          (state.turn other).carried direction := by
    show (state.put _ _).written _ ++ _ = _
    rw [State.put_written, State.goto_turn]
    by_cases isName : other = name
    · subst isName
      rw [if_pos rfl, before, after]
      by_cases here : direction = port
      · rw [if_pos here, if_pos here, if_pos (by rw [here]), here, List.append_assoc,
          List.take_append_drop]
      · rw [if_neg here, if_neg here, if_neg fun same => here (network.sink_injective other same)]
    · rw [if_neg isName, if_neg (network.sink_ne isName direction port)]
      rfl
  exact {
    kept := fun stream => by
      obtain ⟨symbols, queue, written, closed⟩ := added stream
      show state.taken stream ++ (state.put _ _).queue stream <+: (state.put _ _).written stream
      rw [queue, written, ← List.append_assoc]
      cases isOpen : state.ended stream with
      | false => exact sound.whole stream isOpen ▸ List.prefix_rfl
      | true =>
          rw [closed isOpen, List.append_nil, List.append_nil]
          exact sound.kept stream
    whole := fun stream isOpen => by
      obtain ⟨symbols, queue, written, _⟩ := added stream
      show state.taken stream ++ (state.put _ _).queue stream = (state.put _ _).written stream
      rw [queue, written, ← List.append_assoc, sound.whole stream isOpen]
    ended := fun stream other writes => (sound.ended stream other writes).trans (exits other).symm
    passed := fun other direction => (total other direction).symm ▸ sound.passed other direction
    lossless := fun other direction isWhole isThere => by
      rw [exits] at isThere
      exact (total other direction).trans (sound.lossless other direction isWhole isThere)
    gone := fun other direction isWhole left => by
      rw [exits] at left
      have isOther : other ≠ name := by
        intro isName
        rw [isName, stays] at left
        cases left
      have same := total other direction
      rw [State.goto_turn, if_neg isOther] at same
      have written := List.append_cancel_right same
      show later.written _ <+: _
      rw [written]
      exact sound.gone other direction isWhole left }

/-- A write that fails is reported; what is left of it is dropped. -/
theorem Sound.shorten (sound : Sound network state) {turn : Turn α}
    (others : ∀ other, other ≠ port → turn.carried other = (state.turn name).carried other)
    (dropped : turn.carried port = []) (stays : (state.turn name).isExited = false)
    (stays' : turn.isExited = false) :
    Sound network ((state.goto name turn).report ((network.relay name).sink port)) := by
  let after := (state.goto name turn).report ((network.relay name).sink port)
  have turns (other : Name) : after.turn other = if other = name then turn else state.turn other :=
    State.goto_turn ..
  have exits (other : Name) : (after.turn other).isExited = (state.turn other).isExited := by
    rw [turns]
    split
    case isTrue isName => rw [isName, stays, stays']
    case isFalse => rfl
  have reported (stream : Stream) (isWhole : after.short stream = false) :
      stream ≠ (network.relay name).sink port ∧ state.short stream = false := by
    rw [State.report_short] at isWhole
    split at isWhole
    · cases isWhole
    case isFalse different => exact ⟨different, isWhole⟩
  have carries (other : Name) (direction : Port)
      (isWhole : after.short ((network.relay other).sink direction) = false) :
      (after.turn other).carried direction = (state.turn other).carried direction := by
    rw [turns]
    split
    case isTrue isName =>
      subst isName
      exact others direction fun same => (reported _ isWhole).1 (by rw [same])
    case isFalse => rfl
  exact {
    kept := sound.kept
    whole := sound.whole
    ended := fun stream other writes => (sound.ended stream other writes).trans (exits other).symm
    passed := fun other direction => by
      have before := sound.passed other direction
      rw [turns]
      split
      case isTrue isName =>
        subst isName
        by_cases here : direction = port
        · rw [here] at before ⊢
          rw [dropped, List.append_nil]
          exact (List.sublist_append_left _ _).trans before
        · rw [others direction here]
          exact before
      case isFalse => exact before
    lossless := fun other direction isWhole isThere => by
      rw [exits] at isThere
      rw [carries other direction isWhole]
      exact sound.lossless other direction (reported _ isWhole).2 isThere
    gone := fun other direction isWhole left => by
      rw [exits] at left
      exact sound.gone other direction (reported _ isWhole).2 left }

omit [DecidableEq Name] in
/-- Bytes come from outside. -/
theorem Sound.arrive (sound : Sound network state) (outside : network.writer stream = none)
    (isOpen : state.ended stream = false) (symbols : List α) :
    Sound network (state.put stream symbols) := by
  have relayed (other : Name) (direction : Port) :
      (state.put stream symbols).written ((network.relay other).sink direction) =
        state.written ((network.relay other).sink direction) := by
    rw [State.put_written, if_neg]
    intro same
    rw [← same, network.writer_sink] at outside
    cases outside
  exact {
    kept := fun other => by
      have before := sound.kept other
      show state.taken other ++ (state.put _ _).queue other <+: _
      rw [State.put_queue, State.put_written]
      split
      case isTrue same =>
        rw [same, ← List.append_assoc, sound.whole stream isOpen]
      case isFalse => exact before
    whole := fun other isOpen' => by
      have before := sound.whole other isOpen'
      show state.taken other ++ (state.put _ _).queue other = _
      rw [State.put_queue, State.put_written]
      split
      case isTrue same => rw [same, ← List.append_assoc, sound.whole stream isOpen]
      case isFalse => exact before
    ended := sound.ended
    passed := fun other direction => (relayed other direction).symm ▸ sound.passed other direction
    lossless := fun other direction isWhole isThere =>
      (relayed other direction).symm ▸ sound.lossless other direction isWhole isThere
    gone := fun other direction isWhole left =>
      (relayed other direction).symm ▸ sound.gone other direction isWhole left }

omit [DecidableEq Name] in
/-- No more comes from outside. -/
theorem Sound.finish (sound : Sound network state) (outside : network.writer stream = none) :
    Sound network (state.close stream) where
  kept := sound.kept
  whole other isOpen := by
    rw [State.close_ended] at isOpen
    split at isOpen
    · cases isOpen
    · exact sound.whole other isOpen
  ended other name writes := by
    have before := sound.ended other name writes
    rw [State.close_ended, if_neg]
    · exact before
    · rintro rfl
      rw [outside] at writes
      cases writes
  passed := sound.passed
  lossless := sound.lossless
  gone := sound.gone

omit [DecidableEq Name] in
/-- Bytes are read outside. -/
theorem Sound.accept (sound : Sound network state) (outside : network.reader stream = none)
    (count : Nat) : Sound network (state.take stream count) := by
  have divided (other : Stream) : (state.take stream count).taken other ++
      (state.take stream count).queue other = state.taken other ++ state.queue other := by
    rw [State.take_taken, State.take_queue]
    split
    case isTrue same => rw [List.append_assoc, List.take_append_drop, same]
    case isFalse => rfl
  have relayed (other : Name) (direction : Port) :
      (state.take stream count).taken ((network.relay other).source direction) =
        state.taken ((network.relay other).source direction) := by
    rw [State.take_taken, if_neg]
    intro same
    rw [← same, network.reader_source] at outside
    cases outside
  exact {
    kept := fun other => (divided other).symm ▸ sound.kept other
    whole := fun other isOpen => (divided other).trans (sound.whole other isOpen)
    ended := sound.ended
    passed := fun other direction => (relayed other direction).symm ▸ sound.passed other direction
    lossless := fun other direction isWhole isThere =>
      (sound.lossless other direction isWhole isThere).trans (relayed other direction).symm
    gone := fun other direction isWhole left =>
      (relayed other direction).symm ▸ sound.gone other direction isWhole left }

omit [DecidableEq Name] in
/-- A connection is reset. -/
theorem Sound.reset (sound : Sound network state) (closed : state.ended stream = true)
    (kept : Nat) : Sound network (state.cut stream kept) where
  kept other := by
    have before := sound.kept other
    show state.taken other ++ (state.cut stream kept).queue other <+: state.written other
    rw [State.cut_queue]
    split
    case isTrue same =>
      subst same
      exact ((List.prefix_append_right_inj _).mpr (List.take_prefix _ _)).trans before
    case isFalse => exact before
  whole other isOpen := by
    have before := sound.whole other isOpen
    show state.taken other ++ (state.cut stream kept).queue other = state.written other
    rw [State.cut_queue, if_neg]
    · exact before
    · rintro rfl
      rw [show (state.cut other kept).ended other = state.ended other from rfl, closed] at isOpen
      cases isOpen
  ended := sound.ended
  passed := sound.passed
  lossless := sound.lossless
  gone := sound.gone

/-- What a call of a relay can do. -/
inductive Called (network : Network Name Stream) (name : Name) (count : Nat)
    (state : State Name Stream α) : State Name Stream α → Prop where
  | selected {port also} : state.turn name = .selecting →
      state.Readable ((network.relay name).source port) →
      (also = true → port = .first ∧ state.Readable ((network.relay name).source .second)) →
      Called network name count state (state.goto name (.reading port also))
  | atEnd {port also} : state.turn name = .reading port also →
      state.queue ((network.relay name).source port) = [] →
      state.ended ((network.relay name).source port) = true →
      Called network name count state (exit network state name (some port))
  | fetched {port also} : state.turn name = .reading port also → 0 < count →
      count ≤ (state.queue ((network.relay name).source port)).length →
      Called network name count state
        ((state.take ((network.relay name).source port) count).goto name
          (.writing port also ((state.queue ((network.relay name).source port)).take count)))
  | stored {port also buf} : state.turn name = .writing port also buf → 0 < count →
      count ≤ buf.length →
      Called network name count state
        ((state.put ((network.relay name).sink port) (buf.take count)).goto name
          (if count = buf.length then .next also else .writing port also (buf.drop count)))

theorem call_cases {count : Nat} {after : State Name Stream α}
    (called : call network name count state = some after) :
    Called network name count state after := by
  rw [Relays.call] at called
  cases place : state.turn name with
  | selecting =>
      rw [place] at called
      dsimp only at called
      split at called
      case isTrue ready =>
        cases called
        exact .selected place ready fun also => ⟨rfl, of_decide_eq_true also⟩
      case isFalse =>
        split at called
        case isTrue ready =>
          cases called
          exact .selected place ready nofun
        case isFalse => cases called
  | reading port also =>
      rw [place] at called
      dsimp only at called
      split at called
      case isTrue empty =>
        obtain ⟨closed, rfl⟩ :=
          Option.ite_none_right_eq_some.mp called |>.imp_right Option.some.inj
        exact .atEnd place empty closed
      case isFalse =>
        obtain ⟨fits, rfl⟩ :=
          Option.ite_none_right_eq_some.mp called |>.imp_right Option.some.inj
        exact .fetched place fits.1 fits.2.2
  | writing port also buf =>
      rw [place] at called
      obtain ⟨fits, rfl⟩ :=
        Option.ite_none_right_eq_some.mp called |>.imp_right Option.some.inj
      exact .stored place fits.1 fits.2.1
  | exited atEnd =>
      rw [place] at called
      cases called

/-- What a relay carries that writes in a direction. -/
theorem Turn.carried_writing (port direction : Port) (also : Bool) (buf : List α) :
    (Turn.writing port also buf).carried direction = if direction = port then buf else [] := by
  by_cases here : direction = port
  · rw [here, if_pos rfl]
    exact if_pos rfl
  · rw [if_neg here]
    exact if_neg fun same => here same.symm

/-- The step lemma for the calls of a relay. -/
theorem Sound.call (sound : Sound network state) {count : Nat} {after : State Name Stream α}
    (called : call network name count state = some after) : Sound network after := by
  cases call_cases called with
  | selected place => exact sound.goto (by rw [place]; rfl) (by rw [place]; rfl)
  | atEnd => exact sound.exit _
  | fetched place =>
      exact sound.fetch count (fun other => Turn.carried_writing ..) (by rw [place]; rfl)
        (by rw [place]; rfl) rfl
  | stored place =>
      refine sound.store (fun other => by rw [place, Turn.carried_writing]) (fun other => ?_)
        (by rw [place]; rfl) ?_
      · split
        case isTrue isAll => rw [Turn.carried_next, isAll, List.drop_length, ite_self]
        case isFalse => rw [Turn.carried_writing]
      · split
        · exact Turn.isExited_next _
        · rfl

/-- The step lemma. -/
theorem Sound.step (sound : Sound network state) {action : Action Name Stream α}
    {after : State Name Stream α} (stepped : step network action state = some after) :
    Sound network after := by
  cases action with
  | call name count => exact sound.call stepped
  | fail name =>
      rw [Relays.step, Relays.fail] at stepped
      cases place : state.turn name with
      | selecting => rw [place] at stepped; cases stepped; exact sound.exit _
      | reading port also => rw [place] at stepped; cases stepped; exact sound.exit _
      | writing port also buf =>
          rw [place] at stepped
          cases stepped
          refine sound.shorten (fun other different => ?_) (Turn.carried_next ..)
            (by rw [place]; rfl) (Turn.isExited_next also)
          rw [place, Turn.carried_writing, if_neg different, Turn.carried_next]
      | exited atEnd => rw [place] at stepped; cases stepped
  | kill name =>
      obtain ⟨_, rfl⟩ := Option.ite_none_left_eq_some.mp stepped |>.imp_right Option.some.inj
      exact sound.exit _
  | arrive stream symbols =>
      obtain ⟨⟨outside, isOpen, _⟩, rfl⟩ :=
        Option.ite_none_right_eq_some.mp stepped |>.imp_right Option.some.inj
      exact sound.arrive outside isOpen symbols
  | finish stream =>
      obtain ⟨⟨outside, _⟩, rfl⟩ :=
        Option.ite_none_right_eq_some.mp stepped |>.imp_right Option.some.inj
      exact sound.finish outside
  | accept stream count =>
      obtain ⟨⟨outside, _⟩, rfl⟩ :=
        Option.ite_none_right_eq_some.mp stepped |>.imp_right Option.some.inj
      exact sound.accept outside count
  | reset stream kept =>
      obtain ⟨⟨_, closed⟩, rfl⟩ :=
        Option.ite_none_right_eq_some.mp stepped |>.imp_right Option.some.inj
      exact sound.reset closed kept

end Steps

/-- In every run, whatever fails. -/
theorem sound_inductive : (system network).Inductive (Sound (α := α) network) where
  init := by
    rintro state rfl
    exact started_sound
  step := by
    rintro before after sound ⟨action, _, stepped⟩
    exact sound.step stepped

section Hops

variable {network} {state : State Name Stream α}

omit [DecidableEq Name] [DecidableEq Stream] in
/-- What has been read was written before. -/
theorem Sound.taken_prefix (sound : Sound network state) (stream : Stream) :
    state.taken stream <+: state.written stream :=
  (List.prefix_append _ _).trans (sound.kept stream)

omit [DecidableEq Name] [DecidableEq Stream] in
/-- One relay further there is nothing else, and nothing in another order. -/
theorem Sound.hop (sound : Sound network state) (name : Name) (port : Port) :
    (state.written ((network.relay name).sink port)).Sublist
      (state.written ((network.relay name).source port)) :=
  ((List.sublist_append_left _ _).trans (sound.passed name port)).trans
    (sound.taken_prefix _).sublist

omit [DecidableEq Name] [DecidableEq Stream] in
/-- Without partial writes one relay further there is a first part. -/
theorem Sound.hop_prefix (sound : Sound network state) (name : Name) (port : Port)
    (isWhole : state.short ((network.relay name).sink port) = false) :
    state.written ((network.relay name).sink port) <+:
      state.written ((network.relay name).source port) :=
  (sound.gapless name port isWhole).trans (sound.taken_prefix _)

end Hops

end Relays

end LinuxProgramming.Library
