import Mathlib.Logic.Function.Basic
import Mathlib.Tactic.SplitIfs
import LinuxProgramming.Library.TransitionSystem

/-!
Contract: `one_time_init`, called by any number of threads on one control.

Owns:
- the function, one statement at a time, with the outcomes of the mutex calls;
- the abstract control, which is claimed once, and the simulation by it;
- how often `init` is called;
- in which runs no call returns 0 before `init` has been executed.

Does not own: the body of `init`, or the implementation of the mutex. A failing
`pthread_mutex_lock` or `pthread_mutex_unlock` leaves the mutex as it was.
-/

namespace LinuxProgramming.Threads

open LinuxProgramming.Library

/-! ### The function -/

/-- Where a thread is in `one_time_init`; `status` is its copy of `control->status`. -/
inductive Pc where
  /-- In no call. -/
  | outside
  /-- `pthread_mutex_lock`. -/
  | lock
  /-- `status = control->status`. -/
  | readStatus
  /-- `if (control->status == 0)`. -/
  | testStatus (status : Int)
  /-- `control->status = 1`. -/
  | setStatus (status : Int)
  /-- `pthread_mutex_unlock`. -/
  | unlock (status : Int)
  /-- `if (status == 0)`. -/
  | testCopy (status : Int)
  /-- In `init()`. -/
  | init
  /-- `return s`. -/
  | leave (s : Int)
deriving DecidableEq, Repr

/-- The control and the threads. `calls`, `started`, `finished` and `returned` record the
calls of `one_time_init`, those of `init` that have begun and that have ended, and the
values returned. -/
structure State (τ : Type) where
  status : Int
  owner : Option τ
  pc : τ → Pc
  calls : Nat
  started : Nat
  finished : Nat
  returned : List Int

variable {τ : Type} [DecidableEq τ]

def State.goTo (state : State τ) (thread : τ) (pc : Pc) : State τ :=
  { state with pc := Function.update state.pc thread pc }

/-- One step of a thread; `s` is what a mutex call returns in it. A thread outside of a
call begins one. -/
def step : τ × Int → State τ → Option (State τ)
  | (thread, s), state =>
      match state.pc thread with
      | .outside => some { state.goTo thread .lock with calls := state.calls + 1 }
      | .lock =>
          if s ≠ 0 then some (state.goTo thread (.leave s))
          else if state.owner.isNone then
            some { state.goTo thread .readStatus with owner := some thread }
          else none
      | .readStatus => some (state.goTo thread (.testStatus state.status))
      | .testStatus status =>
          if state.status = 0 then some (state.goTo thread (.setStatus status))
          else some (state.goTo thread (.unlock status))
      | .setStatus status => some { state.goTo thread (.unlock status) with status := 1 }
      | .unlock status =>
          if s ≠ 0 then some (state.goTo thread (.leave s))
          else some { state.goTo thread (.testCopy status) with owner := none }
      | .testCopy status =>
          if status = 0 then
            some { state.goTo thread .init with started := state.started + 1 }
          else some (state.goTo thread (.leave 0))
      | .init => some { state.goTo thread (.leave 0) with finished := state.finished + 1 }
      | .leave s =>
          some { state.goTo thread .outside with returned := s :: state.returned }

def initial : State τ where
  status := 0
  owner := none
  pc := fun _ => .outside
  calls := 0
  started := 0
  finished := 0
  returned := []

/-- All interleavings of the threads. -/
def oneTimeInit (τ : Type) [DecidableEq τ] : TransitionSystem (State τ) :=
  labelled (· = initial) step

/-! ### The abstract control -/

/-- Nobody has claimed the call of `init`; a thread has; it is in `init`; `init` has been
executed; the thread has given up, because it could not unlock. -/
inductive Phase (τ : Type) where
  | unclaimed
  | claimed (thread : τ)
  | running (thread : τ)
  | executed
  | abandoned

inductive Phase.Step : Phase τ → Phase τ → Prop where
  | stay (phase : Phase τ) : Step phase phase
  | claim (thread : τ) : Step .unclaimed (.claimed thread)
  | start (thread : τ) : Step (.claimed thread) (.running thread)
  | finish (thread : τ) : Step (.running thread) .executed
  | abandon (thread : τ) : Step (.claimed thread) .abandoned

def once (τ : Type) : TransitionSystem (Phase τ) where
  Init := (· = .unclaimed)
  Step := Phase.Step

def Phase.started : Phase τ → Nat
  | .unclaimed | .claimed _ | .abandoned => 0
  | .running _ | .executed => 1

def Phase.finished : Phase τ → Nat
  | .executed => 1
  | _ => 0

/-- What a thread has to do with the call of `init`. -/
inductive Token where
  | none
  | claim
  | run
deriving DecidableEq

def Phase.token (phase : Phase τ) (thread : τ) : Token :=
  match phase with
  | .claimed claimer => if thread = claimer then .claim else .none
  | .running runner => if thread = runner then .run else .none
  | _ => .none

theorem Phase.eq_claimed {phase : Phase τ} {thread : τ} (token : phase.token thread = .claim) :
    phase = .claimed thread := by
  cases phase <;> grind [Phase.token]

theorem Phase.eq_running {phase : Phase τ} {thread : τ} (token : phase.token thread = .run) :
    phase = .running thread := by
  cases phase <;> grind [Phase.token]

/-- A thread that has read 0 and set the status to 1 is to call `init`. -/
def Pc.token : Pc → Token
  | .unlock status | .testCopy status => if status = 0 then .claim else .none
  | .init => .run
  | _ => .none

/-! ### The control refines the abstract one -/

@[simp] theorem State.goTo_pc (state : State τ) (thread : τ) (pc : Pc) :
    (state.goTo thread pc).pc thread = pc :=
  Function.update_self ..

theorem State.goTo_pc_other (state : State τ) {thread other : τ} (pc : Pc)
    (different : other ≠ thread) : (state.goTo thread pc).pc other = state.pc other :=
  Function.update_of_ne different ..

/-- What holds of the control while a thread is at some point of a call. -/
def Assertion (state : State τ) (thread : τ) : Pc → Prop
  | .outside | .lock => True
  | .readStatus => state.owner = some thread
  | .testStatus status => state.owner = some thread ∧ status = state.status
  | .setStatus status => state.owner = some thread ∧ status = 0 ∧ state.status = 0
  | .unlock _ => state.owner = some thread ∧ state.status ≠ 0
  | .testCopy _ | .init => state.status ≠ 0
  | .leave s => s = 0 → state.status ≠ 0

omit [DecidableEq τ] in
/-- The other threads leave the mutex to its owner, and set the status only while they own
the mutex themselves. -/
theorem Assertion.interference {before after : State τ} {thread : τ} {pc : Pc}
    (assertion : Assertion before thread pc)
    (owner : before.owner = some thread → after.owner = some thread)
    (status : after.status = before.status ∨
      after.status ≠ 0 ∧ before.owner ≠ some thread) :
    Assertion after thread pc := by
  cases pc <;> grind [Assertion]

/-- How a control and its threads stand for an abstract control. -/
structure Related (state : State τ) (phase : Phase τ) : Prop where
  thread : ∀ thread, Assertion state thread (state.pc thread)
  token : ∀ thread, (state.pc thread).token = phase.token thread
  unclaimed : state.status = 0 ↔ phase = .unclaimed
  started : state.started = phase.started
  finished : state.finished = phase.finished
  /-- Whoever gives up returns an error. -/
  abandoned : phase = .abandoned →
    (∃ thread s, state.pc thread = .leave s ∧ s ≠ 0) ∨ ∃ s ∈ state.returned, s ≠ 0
  returned : 0 ∈ state.returned → state.status ≠ 0
  calls : 0 < state.calls → state.returned ≠ [] ∨ ∃ thread, state.pc thread ≠ .outside

theorem initial_related : Related (initial : State τ) .unclaimed where
  thread _ := trivial
  token _ := rfl
  unclaimed := ⟨fun _ => rfl, fun _ => rfl⟩
  started := rfl
  finished := rfl
  abandoned := nofun
  returned := nofun
  calls := nofun

section Steps

variable {before after : State τ} {thread : τ} {phase : Phase τ}

/-- What holds of every thread after one of them has moved. -/
theorem forall_pc (Holds : τ → Pc → Prop) {pc : Pc}
    (pcs : after.pc = Function.update before.pc thread pc) (moved : Holds thread pc)
    (others : ∀ other ≠ thread, Holds other (before.pc other)) (other : τ) :
    Holds other (after.pc other) := by
  rw [pcs]
  exact (Function.forall_update_iff before.pc Holds).mpr ⟨moved, others⟩ other

/-- A step within a call that changes neither the status nor what the thread has to do with
the call of `init`. -/
theorem Related.quiet (related : Related before phase) {old : Pc}
    (isPc : before.pc thread = old) (pc : Pc)
    (pcs : after.pc = Function.update before.pc thread pc)
    (status : after.status = before.status) (started : after.started = before.started)
    (finished : after.finished = before.finished) (returned : after.returned = before.returned)
    (owner : ∀ other ≠ thread, before.owner = some other → after.owner = some other)
    (assertion : Assertion after thread pc) (token : pc.token = old.token)
    (stays : ∀ s, old ≠ .leave s) (inside : pc ≠ .outside) : Related after phase where
  thread := by
    apply forall_pc (Assertion after) pcs assertion
    intro other different
    exact (related.thread other).interference (owner other different) (.inl status)
  token := by
    apply forall_pc (fun other pc => pc.token = phase.token other) pcs
    · rw [token, ← isPc]
      exact related.token thread
    · intro other _
      exact related.token other
  unclaimed := by
    rw [status]
    exact related.unclaimed
  started := started.trans related.started
  finished := finished.trans related.finished
  abandoned isAbandoned := by
    rcases related.abandoned isAbandoned with ⟨other, s, leaves, failed⟩ | recorded
    · refine .inl ⟨other, s, ?_, failed⟩
      rw [pcs, Function.update_of_ne]
      · exact leaves
      · rintro rfl
        exact stays s (isPc.symm.trans leaves)
    · rw [returned]
      exact .inr recorded
  returned := by
    rw [returned, status]
    exact related.returned
  calls _ := by
    refine .inr ⟨thread, ?_⟩
    rw [pcs, Function.update_self]
    exact inside

/-- A step that passes the call of `init` on, in the abstract control as well. -/
theorem Related.pass (related : Related before phase) (pc : Pc) {phase' : Phase τ}
    (pcs : after.pc = Function.update before.pc thread pc)
    (status : after.status = before.status ∨
      after.status ≠ 0 ∧ before.owner = some thread)
    (claimed : after.status ≠ 0) (notUnclaimed : phase' ≠ .unclaimed)
    (started : after.started = phase'.started) (finished : after.finished = phase'.finished)
    (owner : after.owner = before.owner) (assertion : Assertion after thread pc)
    (token : pc.token = phase'.token thread)
    (tokens : ∀ other ≠ thread, phase'.token other = phase.token other)
    (abandoned : phase' = .abandoned → ∃ s, pc = .leave s ∧ s ≠ 0) (inside : pc ≠ .outside) :
    Related after phase' where
  thread := by
    apply forall_pc (Assertion after) pcs assertion
    intro other different
    apply (related.thread other).interference (owner ▸ id) (status.imp id _)
    rintro ⟨isSet, isOwner⟩
    refine ⟨isSet, fun isOther => different ?_⟩
    exact Option.some.inj (isOther.symm.trans isOwner)
  token := by
    apply forall_pc (fun other pc => pc.token = phase'.token other) pcs token
    intro other different
    rw [tokens other different]
    exact related.token other
  unclaimed := ⟨fun zero => absurd zero claimed, fun isUnclaimed => absurd isUnclaimed notUnclaimed⟩
  started := started
  finished := finished
  abandoned isAbandoned := by
    obtain ⟨s, rfl, failed⟩ := abandoned isAbandoned
    refine .inl ⟨thread, s, ?_, failed⟩
    rw [pcs, Function.update_self]
  returned _ := claimed
  calls _ := by
    refine .inr ⟨thread, ?_⟩
    rw [pcs, Function.update_self]
    exact inside

/-- The thread that sets the status has claimed the call of `init`. -/
theorem Related.claim (related : Related before phase)
    (isPc : before.pc thread = .setStatus 0) :
    ∃ phase', (once τ).Step phase phase' ∧
      Related { before.goTo thread (.unlock 0) with status := 1 } phase' := by
  obtain ⟨isOwner, -, zero⟩ : Assertion before thread (.setStatus 0) :=
    isPc ▸ related.thread thread
  have isUnclaimed := related.unclaimed.mp zero
  subst isUnclaimed
  refine ⟨.claimed thread, .claim thread, related.pass (.unlock 0) rfl (.inr ⟨?_, isOwner⟩) ?_
    nofun related.started related.finished rfl ⟨isOwner, ?_⟩ ?_ ?_ nofun nofun⟩
  · exact Int.one_ne_zero
  · exact Int.one_ne_zero
  · exact Int.one_ne_zero
  · exact (if_pos rfl).symm
  · intro other different
    exact if_neg different

/-- The claimer leaves with an error, and nobody will call `init`. -/
theorem Related.abandon (related : Related before phase) {s : Int}
    (isPc : before.pc thread = .unlock 0) (failed : s ≠ 0) :
    ∃ phase', (once τ).Step phase phase' ∧ Related (before.goTo thread (.leave s)) phase' := by
  obtain ⟨-, claimed⟩ : Assertion before thread (.unlock 0) := isPc ▸ related.thread thread
  have token := related.token thread
  rw [isPc, Pc.token, if_pos rfl] at token
  have isClaimed := Phase.eq_claimed token.symm
  subst isClaimed
  refine ⟨.abandoned, .abandon thread, related.pass (.leave s) rfl (.inl rfl) claimed nofun
    related.started related.finished rfl (fun zero => absurd zero failed) rfl ?_
    (fun _ => ⟨s, rfl, failed⟩) nofun⟩
  intro other different
  exact (if_neg different).symm

/-- The claimer enters `init`. -/
theorem Related.start (related : Related before phase)
    (isPc : before.pc thread = .testCopy 0) :
    ∃ phase', (once τ).Step phase phase' ∧
      Related { before.goTo thread .init with started := before.started + 1 } phase' := by
  have claimed : Assertion before thread (.testCopy 0) := isPc ▸ related.thread thread
  have token := related.token thread
  rw [isPc, Pc.token, if_pos rfl] at token
  have isClaimed := Phase.eq_claimed token.symm
  subst isClaimed
  refine ⟨.running thread, .start thread, related.pass .init rfl (.inl rfl) claimed nofun
    ?_ related.finished rfl claimed (if_pos rfl).symm ?_ nofun nofun⟩
  · show before.started + 1 = 1
    rw [related.started]
    rfl
  · intro other different
    exact (if_neg different).trans (if_neg different).symm

/-- `init` has been executed. -/
theorem Related.finish (related : Related before phase) (isPc : before.pc thread = .init) :
    ∃ phase', (once τ).Step phase phase' ∧
      Related { before.goTo thread (.leave 0) with finished := before.finished + 1 } phase' := by
  have claimed : Assertion before thread .init := isPc ▸ related.thread thread
  have token := related.token thread
  rw [isPc] at token
  have isRunning := Phase.eq_running token.symm
  subst isRunning
  refine ⟨.executed, .finish thread, related.pass (.leave 0) rfl (.inl rfl) claimed nofun
    related.started ?_ rfl (fun _ => claimed) rfl ?_ nofun nofun⟩
  · show before.finished + 1 = 1
    rw [related.finished]
    rfl
  · intro other different
    exact (if_neg different).symm

/-- The end of a call. -/
theorem Related.leave (related : Related before phase) {s : Int}
    (leaves : before.pc thread = .leave s) :
    Related { before.goTo thread .outside with returned := s :: before.returned } phase where
  thread := by
    apply forall_pc (Assertion _) rfl
    · trivial
    · intro other _
      exact (related.thread other).interference id (.inl rfl)
  token := by
    apply forall_pc (fun other pc => pc.token = phase.token other) rfl
    · have token := related.token thread
      rw [leaves] at token
      exact token
    · intro other _
      exact related.token other
  unclaimed := related.unclaimed
  started := related.started
  finished := related.finished
  abandoned isAbandoned := by
    rcases related.abandoned isAbandoned with ⟨other, s', leaves', failed⟩ | ⟨s', member, failed⟩
    · by_cases same : other = thread
      · rw [same, leaves] at leaves'
        cases leaves'
        exact .inr ⟨s, List.mem_cons_self, failed⟩
      · exact .inl ⟨other, s', by rwa [State.goTo_pc_other _ _ same], failed⟩
    · exact .inr ⟨s', List.mem_cons_of_mem s member, failed⟩
  returned zero := by
    rcases List.mem_cons.mp zero with isZero | earlier
    · have assertion := related.thread thread
      rw [leaves] at assertion
      exact assertion isZero.symm
    · exact related.returned earlier
  calls _ := .inl (List.cons_ne_nil _ _)

end Steps

/-- One step of a thread is a step of the abstract control. -/
theorem step_related {before after : State τ} {phase : Phase τ} {label : τ × Int}
    (related : Related before phase) (stepped : step label before = some after) :
    ∃ phase', (once τ).Step phase phase' ∧ Related after phase' := by
  obtain ⟨thread, s⟩ := label
  have assertion := related.thread thread
  rw [step] at stepped
  cases isPc : before.pc thread with
  | outside =>
      rw [isPc] at stepped
      cases stepped
      exact ⟨phase, .stay phase,
        related.quiet isPc .lock rfl rfl rfl rfl rfl (fun _ _ => id) trivial rfl nofun nofun⟩
  | lock =>
      rw [isPc] at stepped
      dsimp only at stepped
      refine ⟨phase, .stay phase, ?_⟩
      split_ifs at stepped with failed free
      · cases stepped
        exact related.quiet isPc (.leave s) rfl rfl rfl rfl rfl (fun _ _ => id)
          (fun zero => absurd zero failed) rfl nofun nofun
      · cases stepped
        refine related.quiet isPc .readStatus rfl rfl rfl rfl rfl ?_ rfl rfl nofun nofun
        intro other _ isOwner
        rw [isOwner] at free
        cases free
  | readStatus =>
      rw [isPc] at stepped assertion
      cases stepped
      exact ⟨phase, .stay phase, related.quiet isPc (.testStatus before.status) rfl rfl rfl rfl rfl
        (fun _ _ => id) ⟨assertion, rfl⟩ rfl nofun nofun⟩
  | testStatus status =>
      rw [isPc] at stepped assertion
      dsimp only at stepped
      obtain ⟨isOwner, isCopy⟩ := assertion
      refine ⟨phase, .stay phase, ?_⟩
      split_ifs at stepped with zero
      · cases stepped
        exact related.quiet isPc (.setStatus status) rfl rfl rfl rfl rfl (fun _ _ => id)
          ⟨isOwner, isCopy.trans zero, zero⟩ rfl nofun nofun
      · cases stepped
        exact related.quiet isPc (.unlock status) rfl rfl rfl rfl rfl (fun _ _ => id)
          ⟨isOwner, zero⟩ (if_neg fun isZero => zero (isCopy.symm.trans isZero)) nofun nofun
  | setStatus status =>
      rw [isPc] at stepped assertion
      obtain ⟨-, rfl, -⟩ := assertion
      cases stepped
      exact related.claim isPc
  | unlock status =>
      rw [isPc] at stepped assertion
      dsimp only at stepped
      obtain ⟨isOwner, claimed⟩ := assertion
      split_ifs at stepped with failed
      · cases stepped
        by_cases isZero : status = 0
        · exact related.abandon (isZero ▸ isPc) failed
        · exact ⟨phase, .stay phase, related.quiet isPc (.leave s) rfl rfl rfl rfl rfl
            (fun _ _ => id) (fun zero => absurd zero failed) (if_neg isZero).symm nofun nofun⟩
      · cases stepped
        refine ⟨phase, .stay phase, related.quiet isPc (.testCopy status) rfl rfl rfl rfl rfl ?_
          claimed rfl nofun nofun⟩
        intro other different isOther
        exact absurd (Option.some.inj (isOther.symm.trans isOwner)) different
  | testCopy status =>
      rw [isPc] at stepped assertion
      dsimp only at stepped
      split_ifs at stepped with isZero
      · cases stepped
        exact related.start (isZero ▸ isPc)
      · cases stepped
        exact ⟨phase, .stay phase, related.quiet isPc (.leave 0) rfl rfl rfl rfl rfl
          (fun _ _ => id) (fun _ => assertion) (if_neg isZero).symm nofun nofun⟩
  | init =>
      rw [isPc] at stepped
      cases stepped
      exact related.finish isPc
  | leave s =>
      rw [isPc] at stepped
      cases stepped
      exact ⟨phase, .stay phase, related.leave isPc⟩

/-- The abstract control simulates every run. -/
theorem oneTimeInit_simulation :
    TransitionSystem.Simulation (oneTimeInit τ) (once τ) Related where
  init state isInitial := ⟨.unclaimed, rfl, isInitial ▸ initial_related⟩
  step before after phase _ related stepped := by
    obtain ⟨label, -, stepped⟩ := stepped
    exact step_related related stepped

/-! ### How often `init` is called -/

variable {state : State τ}

theorem exists_related (reachable : (oneTimeInit τ).Reachable state) :
    ∃ phase, Related state phase := by
  obtain ⟨phase, -, related⟩ := oneTimeInit_simulation.reachable reachable
  exact ⟨phase, related⟩

omit [DecidableEq τ] in
theorem Phase.bounds (phase : Phase τ) :
    phase.finished ≤ phase.started ∧ phase.started ≤ 1 := by
  cases phase <;> simp [Phase.started, Phase.finished]

/-- Once all calls have returned 0, `init` has been called and has returned. -/
theorem Related.executed {phase : Phase τ} (related : Related state phase)
    (called : 0 < state.calls) (ended : ∀ thread, state.pc thread = .outside)
    (succeeded : ∀ s ∈ state.returned, s = 0) : phase = .executed := by
  have noToken (thread : τ) : phase.token thread = .none := by
    rw [← related.token thread, ended thread]
    rfl
  cases phase with
  | unclaimed =>
      rcases related.calls called with nonempty | ⟨thread, inside⟩
      · obtain ⟨s, member⟩ := List.exists_mem_of_ne_nil _ nonempty
        have zero := succeeded s member
        subst zero
        exact absurd (related.unclaimed.mpr rfl) (related.returned member)
      · exact absurd (ended thread) inside
  | claimed claimer =>
      have token := noToken claimer
      rw [Phase.token, if_pos rfl] at token
      cases token
  | running runner =>
      have token := noToken runner
      rw [Phase.token, if_pos rfl] at token
      cases token
  | executed => rfl
  | abandoned =>
      rcases related.abandoned rfl with ⟨thread, s, leaves, -⟩ | ⟨s, member, failed⟩
      · rw [ended thread] at leaves
        cases leaves
      · exact absurd (succeeded s member) failed

/-- `init` is called at most once; and if calls were made and all have returned 0, exactly
once. -/
theorem oneTimeInit_once (reachable : (oneTimeInit τ).Reachable state) :
    state.started ≤ 1 ∧
      (0 < state.calls → (∀ thread, state.pc thread = .outside) →
        (∀ s ∈ state.returned, s = 0) → state.started = 1) := by
  obtain ⟨phase, related⟩ := exists_related reachable
  constructor
  · rw [related.started]
    exact phase.bounds.2
  · intro called ended succeeded
    rw [related.started, related.executed called ended succeeded]
    rfl

/-- A schedule of two threads that both call the function once. -/
def twoCalls : List (Bool × Int) :=
  List.replicate 5 (false, 0) ++ [(true, 0)] ++ List.replicate 4 (false, 0) ++
    List.replicate 6 (true, 0)

theorem oneTimeInit_once_twoCalls :
    ∃ state : State Bool, runLabels step twoCalls initial = some state ∧
      state.returned = [0, 0] ∧ state.started = 1 := by
  refine ⟨_, rfl, rfl, ?_⟩
  have ran : runLabels step twoCalls (initial : State Bool) = some _ := rfl
  refine (oneTimeInit_once (runLabels_reachable labelled_step (.of_init rfl) ran)).2 ?_ ?_ ?_
  · decide
  · decide
  · decide

/-! ### Waiting for `init` -/

/-- The thread is about to go around `init()`, since its copy of the status is not 0. -/
def Pc.goesAround : Pc → Bool
  | .testCopy status => status ≠ 0
  | _ => false

/-- A thread goes around `init()` only after it has been executed. -/
def Late (label : τ × Int) (state : State τ) : Prop :=
  (state.pc label.1).goesAround = true → state.finished = 1

instance (label : τ × Int) (state : State τ) : Decidable (Late label state) :=
  inferInstanceAs (Decidable (_ → _))

/-- The runs in which every step meets this condition. -/
def patient (τ : Type) [DecidableEq τ] : TransitionSystem (State τ) :=
  labelledWhen (· = initial) step Late

theorem Pc.goesAround_iff {pc : Pc} :
    pc.goesAround ↔ ∃ status, pc = .testCopy status ∧ status ≠ 0 := by
  cases pc <;> simp [Pc.goesAround]

/-- No call has returned 0 before the execution of `init` has finished. -/
def Waits (state : State τ) : Prop :=
  0 ∈ state.returned → state.started = 1 ∧ state.finished = 1

/-- What a step can do to the counters that tell whether a call returns too early. -/
theorem step_cases {before after : State τ} {thread : τ} {s : Int}
    (stepped : step (thread, s) before = some after) :
    ∃ pc, after.pc = Function.update before.pc thread pc ∧ before.finished ≤ after.finished ∧
      (pc = .leave 0 → (before.pc thread).goesAround ∨ after.finished = before.finished + 1) ∧
      (0 ∈ after.returned → 0 ∈ before.returned ∨ before.pc thread = .leave 0) := by
  rw [step] at stepped
  cases isPc : before.pc thread with
  | outside | readStatus | setStatus =>
      rw [isPc] at stepped
      cases stepped
      exact ⟨_, rfl, Nat.le_refl _, nofun, .inl⟩
  | lock | unlock =>
      rw [isPc] at stepped
      dsimp only at stepped
      split_ifs at stepped with failed
      all_goals
        cases stepped
        refine ⟨_, rfl, Nat.le_refl _, ?_, .inl⟩
      all_goals grind
  | testStatus =>
      rw [isPc] at stepped
      dsimp only at stepped
      split_ifs at stepped <;> cases stepped <;> exact ⟨_, rfl, Nat.le_refl _, nofun, .inl⟩
  | testCopy status =>
      rw [isPc] at stepped
      dsimp only at stepped
      split_ifs at stepped with zero
      · cases stepped
        exact ⟨_, rfl, Nat.le_refl _, nofun, .inl⟩
      · cases stepped
        exact ⟨_, rfl, Nat.le_refl _, fun _ => .inl (decide_eq_true zero), .inl⟩
  | init =>
      rw [isPc] at stepped
      cases stepped
      exact ⟨_, rfl, Nat.le_succ _, fun _ => .inr rfl, .inl⟩
  | leave value =>
      rw [isPc] at stepped
      cases stepped
      refine ⟨_, rfl, Nat.le_refl _, nofun, fun zero => ?_⟩
      rcases List.mem_cons.mp zero with isZero | earlier
      · exact .inr (isZero ▸ rfl)
      · exact .inl earlier

/-- In a run of patient threads, a call that is about to return 0, or has done so, finds
`init` executed. -/
structure Patient (state : State τ) : Prop where
  related : ∃ phase, Related state phase
  leaving : ∀ thread, state.pc thread = .leave 0 → state.finished = 1
  returned : 0 ∈ state.returned → state.finished = 1

theorem patient_inductive : (patient τ).Inductive Patient where
  init state isInitial := by
    cases isInitial
    exact ⟨⟨_, initial_related⟩, nofun, nofun⟩
  step before after patient stepped := by
    obtain ⟨⟨thread, s⟩, allowed, stepped⟩ := stepped
    obtain ⟨phase, related⟩ := patient.related
    obtain ⟨phase', -, related'⟩ := step_related related stepped
    obtain ⟨pc, pcs, grows, leaves, returns⟩ := step_cases stepped
    have bound := phase'.bounds
    rw [← related'.finished] at bound
    have kept (executed : before.finished = 1) : after.finished = 1 := by omega
    refine ⟨⟨phase', related'⟩, ?_, ?_⟩
    · apply forall_pc (fun _ pc => pc = .leave 0 → after.finished = 1) pcs
      · intro leaving
        rcases leaves leaving with around | finishes
        · exact kept (allowed around)
        · omega
      · intro other _ leaving
        exact kept (patient.leaving other leaving)
    · intro zero
      rcases returns zero with earlier | leaving
      · exact kept (patient.returned earlier)
      · exact kept (patient.leaving thread leaving)

/-- A thread that goes around `init()` too early returns 0 too early, if it is the next to
move. -/
theorem returns_early {label : τ × Int} (reachable : (oneTimeInit τ).Reachable state)
    (early : ¬ Late label state) :
    ∃ after, (oneTimeInit τ).Reachable after ∧ ¬ Waits after := by
  obtain ⟨thread, s⟩ := label
  obtain ⟨around, unfinished⟩ := Classical.not_imp.mp early
  obtain ⟨status, isPc, notZero⟩ := Pc.goesAround_iff.mp around
  have first : step (thread, 0) state = some (state.goTo thread (.leave 0)) := by
    rw [step, isPc]
    exact if_neg notZero
  have second : step (thread, 0) (state.goTo thread (.leave 0)) =
      some { (state.goTo thread (.leave 0)).goTo thread .outside with
        returned := 0 :: state.returned } := by
    rw [step, State.goTo_pc]
    rfl
  refine ⟨_, (reachable.tail (labelled_step _ _ _ first)).tail (labelled_step _ _ _ second), ?_⟩
  intro waits
  exact unfinished (waits List.mem_cons_self).2

/-- The first thread is in `init` when the second one comes to its test. -/
def overtaking : List (Bool × Int) :=
  List.replicate 7 (false, 0) ++ List.replicate 5 (true, 0)

end LinuxProgramming.Threads
