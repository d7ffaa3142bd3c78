import Mathlib.Data.List.Basic

/-!
Contract: the child that passes messages of a queue on to a pipe.

Owns:
- `child_func` for every sequence of results of `msgrcv` and `write`;
- for which partial writes the loop goes on until the whole message is in the pipe;
- what is in the pipe after any number of messages.

Does not own: the parent, and what a reader makes of the pipe.
-/

namespace LinuxProgramming.Messages.SelectPipe

abbrev Errno := Nat

def BUF_SIZE : Nat := 1024

/-- `sizeof(long)`. -/
def sizeofLong : Nat := 8

/-- `sizeof(struct mymsg)`. -/
def sizeofMymsg : Nat := sizeofLong + BUF_SIZE

/-- The bytes of a `struct mymsg`. -/
structure Mymsg where
  bytes : List UInt8
  length_eq : bytes.length = sizeofMymsg

/-- A message that `msgrcv` accepts: its type and its text. -/
structure Message where
  mtype : List UInt8
  mtext : List UInt8
  mtype_length : mtype.length = sizeofLong
  mtext_length : mtext.length ≤ BUF_SIZE

theorem length_received (buf : Mymsg) (message : Message) :
    (message.mtype ++ message.mtext ++
      buf.bytes.drop (sizeofLong + message.mtext.length)).length = sizeofMymsg := by
  have fits := message.mtext_length
  simp only [List.length_append, List.length_drop, message.mtype_length, buf.length_eq]
  unfold sizeofMymsg
  omega

/-- `buf` after `msgrcv`: behind a short text the old bytes stay. -/
def received (buf : Mymsg) (message : Message) : Mymsg where
  bytes := message.mtype ++ message.mtext ++ buf.bytes.drop (sizeofLong + message.mtext.length)
  length_eq := length_received buf message

/-- What `write` gives: `EINTR`, another error, or how many bytes it takes. -/
inductive WriteResult where
  | interrupted
  | failed (errno : Errno)
  | took (count : Nat)
deriving DecidableEq, Repr

/-- How the inner loop ends, with the pipe after it. -/
inductive Passed where
  | next (pipe : List UInt8)
  /-- `perror` of "write". -/
  | exits (pipe : List UInt8)
  /-- The results are used up: the child waits in `write`. -/
  | waits (pipe : List UInt8)
deriving DecidableEq, Repr

/-- The inner loop. -/
def writeLoop (buf : List UInt8) :
    List WriteResult → Int → Int → Nat → List UInt8 → Passed
  | results, num_write, n, buf_p, pipe =>
      if num_write < n then
        match results with
        | [] => .waits pipe
        | .interrupted :: rest => writeLoop buf rest (-1) n buf_p pipe
        | .failed _ :: _ => .exits pipe
        | .took count :: rest =>
            writeLoop buf rest count (n - count) (buf_p + count)
              (pipe ++ (buf.drop buf_p).take count)
      else .next pipe

/-- A message is written to the pipe. -/
def writeMessage (buf : Mymsg) (results : List WriteResult) (pipe : List UInt8) : Passed :=
  writeLoop buf.bytes results 0 sizeofMymsg 0 pipe

/-- What `msgrcv` gives; a message comes with the results of the writes after it. -/
inductive Receipt where
  | interrupted
  | failed (errno : Errno)
  | message (message : Message) (results : List WriteResult)

inductive Ending where
  /-- `perror` of "msgrcv". -/
  | msgrcvFails
  /-- `perror` of "write". -/
  | writeFails
  | waits
deriving DecidableEq, Repr

/-- `child_func`, with the bytes in the pipe. -/
def childFunc : List Receipt → Mymsg → List UInt8 → Ending × List UInt8
  | [], _, pipe => (.waits, pipe)
  | .interrupted :: rest, buf, pipe => childFunc rest buf pipe
  | .failed _ :: _, _, pipe => (.msgrcvFails, pipe)
  | .message message results :: rest, buf, pipe =>
      match writeMessage (received buf message) results pipe with
      | .next pipe => childFunc rest (received buf message) pipe
      | .exits pipe => (.writeFails, pipe)
      | .waits pipe => (.waits, pipe)

/-! ### The results of the writes -/

/-- Results that take so many bytes: each takes at least one and no more than are left, and
there may be interruptions before it. -/
def Drains : Nat → List WriteResult → Prop
  | left, [] => left = 0
  | left, .interrupted :: rest => 0 < left ∧ Drains left rest
  | _, .failed _ :: _ => False
  | left, .took count :: rest => 0 < count ∧ count ≤ left ∧ Drains (left - count) rest

/-- Each result takes all that is left, or fewer bytes than it leaves. -/
def KeepsGoing : Nat → List WriteResult → Prop
  | left, .took count :: rest =>
      (count = left ∨ count < left - count) ∧ KeepsGoing (left - count) rest
  | left, _ :: rest => KeepsGoing left rest
  | _, [] => True

theorem keepsGoing_of_drains_zero {results : List WriteResult} (drains : Drains 0 results) :
    KeepsGoing 0 results := by
  cases results with
  | nil => trivial
  | cons result rest =>
      cases result with
      | interrupted => exact absurd drains.1 (Nat.lt_irrefl 0)
      | failed errno => exact drains.elim
      | took count => exact absurd (Nat.lt_of_lt_of_le drains.1 drains.2.1) (Nat.lt_irrefl 0)

/-- The inner loop writes a first part of what is left, and all of it exactly if each write
takes all or leaves more than it takes. -/
theorem writeLoop_drains (buf : List UInt8) {results : List WriteResult} {left buf_p : Nat}
    {num_write : Int} (pipe : List UInt8) (drains : Drains left results) (positive : 0 < left)
    (continues : num_write < left) (remaining : (buf.drop buf_p).length = left) :
    ∃ written, writeLoop buf results num_write left buf_p pipe = .next (pipe ++ written) ∧
      (written = buf.drop buf_p ↔ KeepsGoing left results) := by
  induction results generalizing left buf_p num_write pipe with
  | nil => exact absurd drains (Nat.ne_of_gt positive)
  | cons result rest inductionHypothesis =>
      unfold writeLoop
      rw [if_pos continues]
      cases result with
      | failed errno => exact drains.elim
      | interrupted =>
          -- `num_write` is `-1`, which is less than `n`.
          exact inductionHypothesis pipe drains.2 positive (by omega) remaining
      | took count =>
          obtain ⟨_, within, drainsRest⟩ := drains
          have leftAfter : ((left : Int) - count) = (left - count : Nat) := by omega
          have remainingAfter : (buf.drop (buf_p + count)).length = left - count := by
            rw [← List.drop_drop, List.length_drop, remaining]
          show ∃ written, writeLoop buf rest count (left - count) (buf_p + count) _ = _ ∧ _
          rw [leftAfter]
          by_cases goesOn : count < left - count
          · obtain ⟨written, ends, writtenIff⟩ := @inductionHypothesis (left - count)
              (buf_p + count) count (pipe ++ (buf.drop buf_p).take count) drainsRest (by omega)
              (by omega) remainingAfter
            refine ⟨(buf.drop buf_p).take count ++ written, by rw [ends, List.append_assoc], ?_⟩
            have split := List.take_append_drop count (buf.drop buf_p)
            rw [List.drop_drop] at split
            constructor
            · intro whole
              have same := List.append_cancel_left (whole.trans split.symm)
              exact ⟨Or.inr goesOn, writtenIff.mp same⟩
            · intro keepsGoing
              rw [writtenIff.mpr keepsGoing.2, split]
          · refine ⟨(buf.drop buf_p).take count, ?_, ?_⟩
            · have stops : ¬ (count : Int) < (left - count : Nat) := by omega
              unfold writeLoop
              rw [if_neg stops]
            · constructor
              · intro whole
                have length := congrArg List.length whole
                rw [List.length_take, remaining] at length
                have all : count = left := by omega
                subst all
                rw [Nat.sub_self] at drainsRest
                exact ⟨Or.inl rfl, (Nat.sub_self count).symm ▸ keepsGoing_of_drains_zero drainsRest⟩
              · intro keepsGoing
                have all : count = left := keepsGoing.1.resolve_right goesOn
                rw [all, ← remaining, List.take_length]

theorem writeMessage_drains (buf : Mymsg) {results : List WriteResult}
    (drains : Drains sizeofMymsg results) (pipe : List UInt8) :
    ∃ written, writeMessage buf results pipe = .next (pipe ++ written) ∧
      (written = buf.bytes ↔ KeepsGoing sizeofMymsg results) :=
  writeLoop_drains buf.bytes pipe drains (by decide) (by decide) buf.length_eq

theorem zeros_length : (List.replicate sizeofMymsg (0 : UInt8)).length = sizeofMymsg :=
  List.length_replicate

def zeros : Mymsg := ⟨List.replicate sizeofMymsg 0, zeros_length⟩

/-- The messages that are received, as they stand in `buf`. -/
def images : List Receipt → Mymsg → List (List UInt8)
  | [], _ => []
  | .message message _ :: rest, buf =>
      (received buf message).bytes :: images rest (received buf message)
  | _ :: rest, buf => images rest buf

/-- A receipt after which the child goes on, with all of the message in the pipe. -/
def Receipt.Passes : Receipt → Prop
  | .interrupted => True
  | .failed _ => False
  | .message _ results => Drains sizeofMymsg results ∧ KeepsGoing sizeofMymsg results

/-- After any number of messages that pass, the pipe has them all, each once and in order. -/
theorem childFunc_passes {receipts : List Receipt} (passes : ∀ receipt ∈ receipts, receipt.Passes)
    (buf : Mymsg) (pipe : List UInt8) :
    childFunc receipts buf pipe = (.waits, pipe ++ (images receipts buf).flatten) := by
  induction receipts generalizing buf pipe with
  | nil => simp [childFunc, images]
  | cons receipt rest inductionHypothesis =>
      have passesRest := inductionHypothesis fun other member =>
        passes other (List.mem_cons_of_mem _ member)
      have first := passes receipt List.mem_cons_self
      cases receipt with
      | interrupted => exact passesRest buf pipe
      | failed errno => exact first.elim
      | message message results =>
          obtain ⟨written, ends, writtenIff⟩ :=
            writeMessage_drains (received buf message) first.1 pipe
          rw [childFunc, ends, writtenIff.mpr first.2]
          show childFunc rest (received buf message) _ = _
          rw [passesRest, images, List.flatten_cons, List.append_assoc]

end LinuxProgramming.Messages.SelectPipe
