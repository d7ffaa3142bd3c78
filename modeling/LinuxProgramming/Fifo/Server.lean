import LinuxProgramming.Library.CInt
import LinuxProgramming.Library.OpenFile
import LinuxProgramming.Library.Ranges

/-!
Contract: the sequence server `fifo_server` with its backup file, over any
number of lifetimes.

Owns:
- `Server`, the start of a lifetime and the request loop;
- what a lifetime grants and leaves in the backup file;
- exactly which runs grant no number twice.

Does not own: the client, or lifetimes that end inside an iteration.
-/

namespace LinuxProgramming.Fifo

open LinuxProgramming.Library
open CInt

/-- `struct request`. -/
structure Request where
  pid : Int
  seq_len : Int
deriving DecidableEq, Repr

/-- What the server reads next: too few bytes, or a request, whose client FIFO can be
opened or not. -/
inductive Incoming where
  | malformed
  | request (req : Request) (opens : Bool)
deriving DecidableEq, Repr

/-- What `main` keeps across requests: `seq_num` and the open backup file. -/
structure Server where
  seq_num : Int
  file : OpenFile
deriving DecidableEq, Repr

/-- A response: `resp.seq_num`, written to the FIFO of the client `req.pid`, which asked
for `req.seq_len` numbers. -/
structure Grant where
  req : Request
  seq_num : Int
deriving DecidableEq, Repr

/-- Open the backup file and read `seq_num` from it. A short read sets its first bytes
only. -/
def startServer (backup : List UInt8) : Server :=
  let (data, file) := OpenFile.read INT_SIZE ⟨backup, 0⟩
  let seq_num := ofBytes (data ++ (toBytes 0).drop data.length)
  if data.length = 0 then ⟨0, file⟩ else ⟨seq_num, file⟩

/-- One iteration of the loop. -/
def handle (incoming : Incoming) (server : Server) : Option Grant × Server :=
  match incoming with
  | .malformed => (none, server)
  | .request req opens =>
      if opens then
        let seq_num := wrap (server.seq_num + req.seq_len)
        (some ⟨req, server.seq_num⟩,
          ⟨seq_num, (server.file.write (toBytes seq_num)).seek 0⟩)
      else (none, server)

/-- The loop of one lifetime, until the server waits for a request that does not come. -/
def requestLoop : List Incoming → Server → List Grant × Server
  | [], server => ([], server)
  | incoming :: rest, server =>
      let (grant, server) := handle incoming server
      let (grants, server) := requestLoop rest server
      (grant.toList ++ grants, server)

/-- One lifetime on a backup file: what it grants, and the file it leaves. -/
def lifetime (incoming : List Incoming) (backup : List UInt8) : List Grant × List UInt8 :=
  let (grants, server) := requestLoop incoming (startServer backup)
  (grants, server.file.bytes)

/-- Any number of lifetimes, one after the other, on the same file. -/
def lifetimes : List (List Incoming) → List UInt8 → List Grant × List UInt8
  | [], backup => ([], backup)
  | incoming :: rest, backup =>
      let (grants, backup) := lifetime incoming backup
      let (later, backup) := lifetimes rest backup
      (grants ++ later, backup)

/-! ### One lifetime -/

/-- The request an iteration answers. -/
def served : Incoming → Option Request
  | .request req true => some req
  | _ => none

/-- How many numbers each answered request asks for. -/
def asked (incoming : List Incoming) : List Int :=
  (incoming.filterMap served).map Request.seq_len

/-- The numbers a grant hands out. -/
def Grant.range (grant : Grant) : Range :=
  ⟨grant.seq_num, grant.req.seq_len⟩

/-- `seq_num += req.seq_len` stays an `int`. -/
def Grant.Fits (grant : Grant) : Prop :=
  grant.seq_num + grant.req.seq_len ≤ INT_MAX

instance (grant : Grant) : Decidable grant.Fits :=
  inferInstanceAs (Decidable (_ ≤ _))

/-- The server after it has answered a request. -/
def Server.next (server : Server) (req : Request) : Server :=
  let seq_num := wrap (server.seq_num + req.seq_len)
  ⟨seq_num, (server.file.write (toBytes seq_num)).seek 0⟩

theorem requestLoop_skip {incoming : Incoming} (skipped : served incoming = none)
    (rest : List Incoming) (server : Server) :
    requestLoop (incoming :: rest) server = requestLoop rest server := by
  match incoming, skipped with
  | .malformed, _ => rfl
  | .request _ false, _ => rfl

theorem requestLoop_served {incoming : Incoming} {req : Request}
    (answered : served incoming = some req) (rest : List Incoming) (server : Server) :
    requestLoop (incoming :: rest) server =
      (⟨req, server.seq_num⟩ :: (requestLoop rest (server.next req)).1,
        (requestLoop rest (server.next req)).2) := by
  match incoming, answered with
  | .request _ true, rfl => rfl

theorem asked_skip {incoming : Incoming} (skipped : served incoming = none)
    (rest : List Incoming) : asked (incoming :: rest) = asked rest := by
  rw [asked, List.filterMap_cons_none skipped]
  rfl

theorem asked_served {incoming : Incoming} {req : Request}
    (answered : served incoming = some req) (rest : List Incoming) :
    asked (incoming :: rest) = req.seq_len :: asked rest := by
  rw [asked, List.filterMap_cons_some answered]
  rfl

/-- Lengths are positive and no addition overflows. -/
structure Proper (lengths : List Int) (grants : List Grant) : Prop where
  positive : ∀ length ∈ lengths, 0 < length
  fits : ∀ grant ∈ grants, grant.Fits

theorem next_seq_num {server : Server} (isInt : IsInt server.seq_num) {req : Request}
    (positive : 0 < req.seq_len) (fits : Grant.Fits ⟨req, server.seq_num⟩) :
    (server.next req).seq_num = server.seq_num + req.seq_len := by
  refine wrap_eq ⟨?_, fits⟩
  have := isInt.1
  omega

/-- The counter and the grants of the loop, whatever the file holds. -/
theorem requestLoop_grants {incoming : List Incoming} {server : Server}
    (isInt : IsInt server.seq_num)
    (proper : Proper (asked incoming) (requestLoop incoming server).1) :
    (requestLoop incoming server).1.map Grant.range =
        Range.consecutive server.seq_num (asked incoming) ∧
      (requestLoop incoming server).2.seq_num = server.seq_num + (asked incoming).sum ∧
      IsInt (requestLoop incoming server).2.seq_num := by
  induction incoming generalizing server with
  | nil => exact ⟨rfl, (Int.add_zero _).symm, isInt⟩
  | cons first rest inductionHypothesis =>
      cases answered : served first with
      | none =>
          rw [requestLoop_skip answered, asked_skip answered] at *
          exact inductionHypothesis isInt proper
      | some req =>
          rw [requestLoop_served answered, asked_served answered] at *
          have positive := proper.positive _ List.mem_cons_self
          have fits := proper.fits _ List.mem_cons_self
          have counts := next_seq_num isInt positive fits
          have isInt' : IsInt (server.next req).seq_num := isInt_wrap _
          obtain ⟨ranges, final, isIntFinal⟩ := inductionHypothesis isInt'
            ⟨fun length member => proper.positive length (List.mem_cons_of_mem _ member),
              fun grant member => proper.fits grant (List.mem_cons_of_mem _ member)⟩
          refine ⟨?_, ?_, isIntFinal⟩
          · rw [List.map_cons, ranges, counts]
            rfl
          · rw [final, counts, List.sum_cons, Int.add_assoc]

theorem requestLoop_idle {incoming : List Incoming} (idle : asked incoming = [])
    (server : Server) : requestLoop incoming server = ([], server) := by
  induction incoming generalizing server with
  | nil => rfl
  | cons first rest inductionHypothesis =>
      cases answered : served first with
      | none =>
          rw [asked_skip answered] at idle
          rw [requestLoop_skip answered, inductionHypothesis idle]
      | some req =>
          rw [asked_served answered] at idle
          cases idle

/-- The file holds the counter at its start. -/
def Server.Saved (server : Server) : Prop :=
  server.file.bytes.take INT_SIZE = toBytes server.seq_num

/-- A write at the start of the file saves the counter. -/
theorem Server.saved_next {server : Server} (atStart : server.file.offset = 0)
    (req : Request) : (server.next req).Saved := by
  obtain ⟨seq_num, bytes, offset⟩ := server
  cases atStart
  rw [Saved, next, OpenFile.seek, OpenFile.write_start]
  rfl

/-- From the start of the file on, every answered request saves the counter. -/
theorem requestLoop_saves {incoming : List Incoming} {server : Server}
    (atStart : server.file.offset = 0) (busy : asked incoming ≠ [] ∨ server.Saved) :
    (requestLoop incoming server).2.Saved := by
  induction incoming generalizing server with
  | nil => exact busy.resolve_left fun nonempty => nonempty rfl
  | cons first rest inductionHypothesis =>
      cases answered : served first with
      | none =>
          rw [asked_skip answered] at busy
          rw [requestLoop_skip answered]
          exact inductionHypothesis atStart busy
      | some req =>
          rw [requestLoop_served answered]
          exact inductionHypothesis rfl (.inr (server.saved_next atStart req))

/-- The second answered request saves the counter in any case. -/
theorem requestLoop_saves_second {incoming : List Incoming} {server : Server}
    (two : 2 ≤ (asked incoming).length) : (requestLoop incoming server).2.Saved := by
  induction incoming with
  | nil => exact absurd two (by decide)
  | cons first rest inductionHypothesis =>
      cases answered : served first with
      | none =>
          rw [asked_skip answered] at two
          rw [requestLoop_skip answered]
          exact inductionHypothesis two
      | some req =>
          rw [asked_served answered, List.length_cons] at two
          rw [requestLoop_served answered]
          refine requestLoop_saves rfl (.inl ?_)
          rintro none_
          rw [none_] at two
          exact absurd two (by decide)

/-- The only answered request of a lifetime is written where the file stands. -/
theorem requestLoop_single {incoming : List Incoming} {server : Server}
    (one : (asked incoming).length = 1) :
    ∃ req, (requestLoop incoming server).2 = server.next req := by
  induction incoming with
  | nil => exact absurd one (by decide)
  | cons first rest inductionHypothesis =>
      cases answered : served first with
      | none =>
          rw [asked_skip answered] at one
          rw [requestLoop_skip answered]
          exact inductionHypothesis one
      | some req =>
          rw [asked_served answered, List.length_cons, Nat.add_eq_right,
            List.length_eq_zero_iff] at one
          rw [requestLoop_served answered, requestLoop_idle one]
          exact ⟨req, rfl⟩

/-! ### The backup file between lifetimes -/

/-- The number a lifetime starts with. -/
def resume (backup : List UInt8) : Int := (startServer backup).seq_num

theorem startServer_file (backup : List UInt8) :
    (startServer backup).file = ⟨backup, min INT_SIZE backup.length⟩ := by
  simp only [startServer, OpenFile.read, List.drop_zero, List.length_take, Nat.zero_add]
  split <;> rfl

/-- The counter as it comes out of the file. -/
theorem resume_eq (backup : List UInt8) :
    resume backup = if backup = [] then 0
      else ofBytes (backup.take INT_SIZE ++ (toBytes 0).drop (backup.take INT_SIZE).length) := by
  cases backup with
  | nil => rfl
  | cons byte rest =>
      have some_ : ((byte :: rest).take INT_SIZE).length ≠ 0 := by simp [INT_SIZE]
      rw [if_neg (List.cons_ne_nil _ _)]
      simp only [resume, startServer, OpenFile.read, List.drop_zero, if_neg some_]

theorem isInt_resume (backup : List UInt8) : IsInt (resume backup) := by
  rw [resume_eq]
  split
  · exact isInt_zero
  · exact isInt_ofBytes _

/-- Only the first bytes count. -/
theorem resume_congr {backup backup' : List UInt8}
    (same : backup.take INT_SIZE = backup'.take INT_SIZE) : resume backup = resume backup' := by
  have empty : backup = [] ↔ backup' = [] := by
    have positive : INT_SIZE ≠ 0 := by decide
    constructor
    · rintro rfl
      simpa [positive] using same.symm
    · rintro rfl
      simpa [positive] using same
  rw [resume_eq, resume_eq, same]
  simp only [empty]

theorem resume_saved {backup : List UInt8} {value : Int} (isInt : IsInt value)
    (saved : backup.take INT_SIZE = toBytes value) : resume backup = value := by
  have nonempty : backup ≠ [] := by
    rintro rfl
    cases saved
  have whole : (toBytes 0).drop INT_SIZE = [] := rfl
  rw [resume_eq, if_neg nonempty, saved, length_toBytes, whole, List.append_nil,
    ofBytes_toBytes isInt]

theorem lifetime_eq (incoming : List Incoming) (backup : List UInt8) :
    lifetime incoming backup = ((requestLoop incoming (startServer backup)).1,
      (requestLoop incoming (startServer backup)).2.file.bytes) := rfl

theorem next_length (server : Server) (req : Request) :
    server.file.bytes.length ≤ (server.next req).file.bytes.length ∧
      INT_SIZE ≤ (server.next req).file.bytes.length :=
  ⟨OpenFile.length_le_write _ _,
    OpenFile.length_data_le_write server.file (toBytes (wrap (server.seq_num + req.seq_len)))⟩

/-- The file never shrinks, and holds a counter once a request was answered. -/
theorem requestLoop_length (incoming : List Incoming) (server : Server) :
    server.file.bytes.length ≤ (requestLoop incoming server).2.file.bytes.length ∧
      (asked incoming ≠ [] → INT_SIZE ≤ (requestLoop incoming server).2.file.bytes.length) := by
  induction incoming generalizing server with
  | nil => exact ⟨Nat.le_refl _, fun busy => absurd rfl busy⟩
  | cons first rest inductionHypothesis =>
      cases answered : served first with
      | none =>
          rw [requestLoop_skip answered, asked_skip answered]
          exact inductionHypothesis server
      | some req =>
          rw [requestLoop_served answered]
          have longer := (inductionHypothesis (server.next req)).1
          obtain ⟨kept, holds⟩ := next_length server req
          exact ⟨kept.trans longer, fun _ => holds.trans longer⟩

/-- What a lifetime grants, and which number the next one starts with. -/
structure LifetimeSpec (lengths : List Int) (backup : List UInt8) (grants : List Grant)
    (left : List UInt8) : Prop where
  ranges : grants.map Grant.range = Range.consecutive (resume backup) lengths
  idle : lengths = [] → left = backup
  longer : backup.length ≤ left.length
  holds : lengths ≠ [] → INT_SIZE ≤ left.length
  saves : lengths ≠ [] → backup = [] ∨ lengths.length ≠ 1 →
    resume left = resume backup + lengths.sum
  stale : lengths.length = 1 → INT_SIZE ≤ backup.length → resume left = resume backup

/-- A lifetime saves its counter unless it answers exactly one request and the backup
file was not empty. -/
theorem lifetime_spec {incoming : List Incoming} {backup : List UInt8}
    (proper : Proper (asked incoming) (lifetime incoming backup).1) :
    LifetimeSpec (asked incoming) backup (lifetime incoming backup).1
      (lifetime incoming backup).2 := by
  have isInt := isInt_resume backup
  obtain ⟨ranges, final, isIntFinal⟩ := requestLoop_grants isInt proper
  have file := startServer_file backup
  have lengths := requestLoop_length incoming (startServer backup)
  have resumesSaved (saved : (requestLoop incoming (startServer backup)).2.Saved) :
      resume (lifetime incoming backup).2 = resume backup + (asked incoming).sum :=
    (resume_saved isIntFinal saved).trans final
  rw [file] at lengths
  refine ⟨ranges, ?_, lengths.1, lengths.2, ?_, ?_⟩
  · intro idle
    rw [lifetime_eq, requestLoop_idle idle, file]
  · intro busy first
    apply resumesSaved
    obtain rfl | several := first
    · exact requestLoop_saves rfl (.inl busy)
    · refine requestLoop_saves_second ?_
      have := List.length_pos_of_ne_nil busy
      omega
  · intro one complete
    obtain ⟨req, left⟩ : ∃ req, (requestLoop incoming (startServer backup)).2 =
        (startServer backup).next req := requestLoop_single one
    apply resume_congr
    rw [lifetime_eq, left]
    have behind : INT_SIZE ≤ (startServer backup).file.offset := by
      rw [file]
      exact Nat.le_min.mpr ⟨Nat.le_refl _, complete⟩
    have written : ((startServer backup).next req).file.bytes =
        ((startServer backup).file.write (toBytes ((startServer backup).next req).seq_num)).bytes :=
      rfl
    rw [written, OpenFile.take_write behind (by rw [file]; exact complete), file]

namespace LifetimeSpec

variable {lengths : List Int} {backup left : List UInt8} {grants : List Grant}

theorem used (spec : LifetimeSpec lengths backup grants left) (leftUsed : left ≠ []) :
    backup ≠ [] ∨ lengths ≠ [] := by
  by_contra neither
  obtain ⟨empty, idle⟩ := not_or.mp neither
  rw [spec.idle (not_not.mp idle)] at leftUsed
  exact empty leftUsed

theorem goesOn (spec : LifetimeSpec lengths backup grants left)
    (several : ¬ (lengths.length = 1 ∧ backup ≠ [])) :
    resume left = resume backup + lengths.sum := by
  by_cases idle : lengths = []
  · rw [spec.idle idle, idle, List.sum_nil, Int.add_zero]
  · refine spec.saves idle ?_
    by_contra neither
    obtain ⟨nonempty, one⟩ := not_or.mp neither
    exact several ⟨not_not.mp one, nonempty⟩

/-- The first number granted is the one stored in the backup file. -/
theorem first_grant (spec : LifetimeSpec lengths backup grants left)
    (proper : Proper lengths grants) (busy : lengths ≠ []) :
    ∃ grant ∈ grants, grant.seq_num = resume backup ∧ 0 < grant.req.seq_len := by
  have ranges := spec.ranges
  cases lengths with
  | nil => exact absurd rfl busy
  | cons length more =>
      rw [Range.consecutive, List.map_eq_cons_iff] at ranges
      obtain ⟨grant, others, rfl, range, -⟩ := ranges
      have asksFor : grant.req.seq_len = length := congrArg Range.length range
      refine ⟨grant, List.mem_cons_self, congrArg Range.first range, ?_⟩
      rw [asksFor]
      exact proper.positive length List.mem_cons_self

end LifetimeSpec

/-! ### All lifetimes -/

/-- Numbers and grants of a whole run are proper: lengths are positive and no addition
overflows. -/
def ProperRun (run : List (List Incoming)) (backup : List UInt8) : Prop :=
  (∀ incoming ∈ run, ∀ length ∈ asked incoming, 0 < length) ∧
    ∀ grant ∈ (lifetimes run backup).1, grant.Fits

/-- No two grants of a run share a number. -/
def NoOverlap (grants : List Grant) : Prop :=
  (grants.map Grant.range).Pairwise Range.Disjoint

/-- A lifetime that answers exactly one request, on a backup file that was not empty, is
not followed by a lifetime that answers any. -/
def Resumes (run : List (List Incoming)) (backup : List UInt8) : Prop :=
  ∀ earlier incoming later, run = earlier ++ incoming :: later → (asked incoming).length = 1 →
    (backup ≠ [] ∨ ∃ other ∈ earlier, asked other ≠ []) → ∀ other ∈ later, asked other = []

theorem lifetimes_cons (incoming : List Incoming) (rest : List (List Incoming))
    (backup : List UInt8) :
    lifetimes (incoming :: rest) backup =
      ((lifetime incoming backup).1 ++ (lifetimes rest (lifetime incoming backup).2).1,
        (lifetimes rest (lifetime incoming backup).2).2) := rfl

theorem ProperRun.head {incoming : List Incoming} {rest : List (List Incoming)}
    {backup : List UInt8} (proper : ProperRun (incoming :: rest) backup) :
    Proper (asked incoming) (lifetime incoming backup).1 :=
  ⟨proper.1 incoming List.mem_cons_self, fun grant member =>
    proper.2 grant (List.mem_append_left _ member)⟩

theorem ProperRun.tail {incoming : List Incoming} {rest : List (List Incoming)}
    {backup : List UInt8} (proper : ProperRun (incoming :: rest) backup) :
    ProperRun rest (lifetime incoming backup).2 :=
  ⟨fun other member => proper.1 other (List.mem_cons_of_mem _ member), fun grant member =>
    proper.2 grant (List.mem_append_right _ member)⟩

theorem Resumes.tail {incoming : List Incoming} {rest : List (List Incoming)}
    {backup left : List UInt8} (resumes : Resumes (incoming :: rest) backup)
    (used : left ≠ [] → backup ≠ [] ∨ asked incoming ≠ []) : Resumes rest left := by
  rintro earlier other later rfl single started
  refine resumes (incoming :: earlier) other later rfl single ?_
  obtain leftUsed | ⟨busy, member, isBusy⟩ := started
  · exact (used leftUsed).imp_right fun isBusy => ⟨incoming, List.mem_cons_self, isBusy⟩
  · exact .inr ⟨busy, List.mem_cons_of_mem _ member, isBusy⟩

theorem lifetimes_idle {run : List (List Incoming)} (idle : ∀ incoming ∈ run, asked incoming = [])
    (backup : List UInt8) : (lifetimes run backup).1 = [] := by
  induction run generalizing backup with
  | nil => rfl
  | cons incoming rest inductionHypothesis =>
      have none_ := idle incoming List.mem_cons_self
      rw [lifetimes_cons, inductionHypothesis fun other member =>
        idle other (List.mem_cons_of_mem _ member), lifetime_eq, requestLoop_idle none_]
      rfl

/-- The grants of a run that resumes are in order, from the stored number on. -/
theorem lifetimes_ordered {run : List (List Incoming)} {backup : List UInt8}
    (proper : ProperRun run backup) (resumes : Resumes run backup) :
    ((lifetimes run backup).1.map Grant.range).Pairwise Range.Before ∧
      ∀ grant ∈ (lifetimes run backup).1, resume backup ≤ grant.seq_num := by
  induction run generalizing backup with
  | nil => exact ⟨.nil, fun _ member => by cases member⟩
  | cons incoming rest inductionHypothesis =>
      have spec := lifetime_spec proper.head
      have nonneg : ∀ length ∈ asked incoming, 0 ≤ length := fun length member =>
        Int.le_of_lt (proper.head.positive length member)
      obtain ⟨ordered, above⟩ := inductionHypothesis proper.tail (resumes.tail spec.used)
      -- Either nothing comes later, or the next lifetime goes on where this one ends.
      have goesOn : ∀ grant ∈ (lifetimes rest (lifetime incoming backup).2).1,
          resume backup + (asked incoming).sum ≤ grant.seq_num := by
        intro grant member
        by_cases single : (asked incoming).length = 1 ∧ backup ≠ []
        · rw [lifetimes_idle (resumes [] incoming rest rfl single.1 (.inl single.2))] at member
          cases member
        · rw [← spec.goesOn single]
          exact above grant member
      rw [lifetimes_cons, List.map_append, spec.ranges]
      constructor
      · refine List.pairwise_append.mpr ⟨Range.consecutive_ordered _ nonneg, ordered, ?_⟩
        intro left inLeft right inRight
        obtain ⟨grant, member, rfl⟩ := List.mem_map.mp inRight
        exact (Range.finish_le_of_mem_consecutive nonneg inLeft).trans (goesOn grant member)
      · intro grant member
        obtain now | later := List.mem_append.mp member
        · have inRanges : grant.range ∈ Range.consecutive (resume backup) (asked incoming) :=
            spec.ranges ▸ List.mem_map_of_mem now
          exact Range.first_le_of_mem_consecutive nonneg inRanges
        · have := List.sum_nonneg nonneg
          have := goesOn grant later
          omega

theorem NoOverlap.of_ordered {grants : List Grant}
    (ordered : (grants.map Grant.range).Pairwise Range.Before) : NoOverlap grants :=
  ordered.imp Range.Before.disjoint

/-! ### A lifetime that does not save -/

/-- A run that answers some request grants the number stored in its backup file first. -/
theorem exists_first_grant {run : List (List Incoming)} {backup : List UInt8}
    (proper : ProperRun run backup) (busy : ∃ incoming ∈ run, asked incoming ≠ []) :
    ∃ grant ∈ (lifetimes run backup).1, grant.seq_num = resume backup ∧
      0 < grant.req.seq_len := by
  induction run with
  | nil =>
      obtain ⟨incoming, member, -⟩ := busy
      cases member
  | cons incoming rest inductionHypothesis =>
      have spec := lifetime_spec proper.head
      rw [lifetimes_cons]
      by_cases idle : asked incoming = []
      · have tail := proper.tail
        rw [spec.idle idle] at tail ⊢
        obtain ⟨other, member, isBusy⟩ := busy
        obtain rfl | inRest := List.mem_cons.mp member
        · exact absurd idle isBusy
        · obtain ⟨grant, granted, first⟩ := inductionHypothesis tail ⟨other, inRest, isBusy⟩
          exact ⟨grant, List.mem_append_right _ granted, first⟩
      · obtain ⟨grant, granted, first⟩ := spec.first_grant proper.head idle
        exact ⟨grant, List.mem_append_left _ granted, first⟩

/-- The backup file holds a whole counter, or nothing yet. -/
def Complete (backup : List UInt8) : Prop :=
  backup = [] ∨ INT_SIZE ≤ backup.length

theorem LifetimeSpec.complete {lengths : List Int} {backup left : List UInt8}
    {grants : List Grant} (spec : LifetimeSpec lengths backup grants left)
    (complete : Complete backup) : Complete left := by
  by_cases idle : lengths = []
  · rw [spec.idle idle]
    exact complete
  · exact .inr (spec.holds idle)

/-- A run without overlap resumes. -/
theorem Resumes.of_noOverlap {run : List (List Incoming)} {backup : List UInt8}
    (complete : Complete backup) (proper : ProperRun run backup)
    (disjoint : NoOverlap (lifetimes run backup).1) : Resumes run backup := by
  induction run generalizing backup with
  | nil =>
      intro earlier incoming later split
      cases earlier <;> cases split
  | cons incoming rest inductionHypothesis =>
      have spec := lifetime_spec proper.head
      rw [lifetimes_cons, NoOverlap, List.map_append, List.pairwise_append] at disjoint
      obtain ⟨-, disjointRest, apart⟩ := disjoint
      rintro (_ | ⟨first, earlier⟩) other later split single started
      · cases split
        have nonempty : backup ≠ [] := started.resolve_right (by simp)
        have full : INT_SIZE ≤ backup.length := complete.resolve_left nonempty
        by_contra busy
        push Not at busy
        obtain ⟨again, againIn, againFirst, againSome⟩ := exists_first_grant proper.tail busy
        have isBusy : asked incoming ≠ [] := by
          intro idle
          rw [idle] at single
          cases single
        obtain ⟨grant, grantIn, grantFirst, grantSome⟩ := spec.first_grant proper.head isBusy
        rw [spec.stale single full] at againFirst
        exact Range.not_disjoint_of_first_eq (grantFirst.trans againFirst.symm) grantSome againSome
          (apart _ (List.mem_map_of_mem grantIn) _ (List.mem_map_of_mem againIn))
      · cases split
        refine inductionHypothesis (spec.complete complete) proper.tail disjointRest earlier other
          later rfl single ?_
        obtain nonempty | ⟨busy, member, isBusy⟩ := started
        · left
          rintro gone
          have := spec.longer
          rw [gone] at this
          exact nonempty (List.length_eq_zero_iff.mp (Nat.le_zero.mp this))
        · obtain rfl | inRest := List.mem_cons.mp member
          · left
            rintro gone
            have := spec.holds isBusy
            rw [gone] at this
            exact absurd this (by decide)
          · exact .inr ⟨busy, inRest, isBusy⟩

/-- Over all lifetimes no number is granted twice if, and on a backup file without a torn
counter only if, no lifetime that answers exactly one request on a file already written
comes before another that answers any. -/
theorem lifetimes_noOverlap (run : List (List Incoming)) (backup : List UInt8)
    (proper : ProperRun run backup) :
    (Resumes run backup → NoOverlap (lifetimes run backup).1) ∧
      (Complete backup → NoOverlap (lifetimes run backup).1 → Resumes run backup) :=
  ⟨fun resumes => .of_ordered (lifetimes_ordered proper resumes).1,
    fun complete disjoint => .of_noOverlap complete proper disjoint⟩

/-- The server is started three times on a new file; the second lifetime answers two
requests. -/
theorem lifetimes_noOverlap_three :
    NoOverlap (lifetimes [[.request ⟨100, 5⟩ true],
      [.malformed, .request ⟨101, 2⟩ true, .request ⟨102, 3⟩ false, .request ⟨103, 4⟩ true],
      [.request ⟨104, 1⟩ true]] []).1 := by
  refine (lifetimes_noOverlap _ [] ⟨by decide, by decide +kernel⟩).1 ?_
  rintro (_ | ⟨_, _ | ⟨_, _ | ⟨_, _⟩⟩⟩) incoming later split single started
  · exact absurd started (by simp)
  · cases split
    exact absurd single (by decide)
  · cases split
    simp
  · simp at split

/-- Three lifetimes with one request each: the third grants what the second granted. -/
theorem lifetimes_grant_twice :
    (lifetimes [[.request ⟨100, 5⟩ true], [.request ⟨101, 5⟩ true], [.request ⟨102, 5⟩ true]]
        []).1.map Grant.range = [⟨0, 5⟩, ⟨5, 5⟩, ⟨5, 5⟩] ∧
      ¬ NoOverlap (lifetimes [[.request ⟨100, 5⟩ true], [.request ⟨101, 5⟩ true],
        [.request ⟨102, 5⟩ true]] []).1 := by
  have grants : (lifetimes [[.request ⟨100, 5⟩ true], [.request ⟨101, 5⟩ true],
      [.request ⟨102, 5⟩ true]] []).1.map Grant.range = [⟨0, 5⟩, ⟨5, 5⟩, ⟨5, 5⟩] := by
    decide +kernel
  refine ⟨grants, ?_⟩
  rw [NoOverlap, grants]
  intro disjoint
  exact Range.not_disjoint_of_first_eq rfl (by decide) (by decide)
    (List.rel_of_pairwise_cons (List.Pairwise.of_cons disjoint) List.mem_cons_self)

end LinuxProgramming.Fifo
