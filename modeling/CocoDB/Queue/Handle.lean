import CocoDB.Queue.Places

/-!
# The public handle

`queue/queue.go` and `queue/options.go`: the options of a call and the message
that `Queue.Enqueue` makes of them.  A call asks for a deduplication window of
its own, which the message has no field for: the engine goes by the window it
was configured with.
-/

namespace CocoDB.Queue

open Lib

/-! ## Options -/

structure Options where
  visibilityTimeout : Int64
  maxRetries : Int
  dedupID : Bytes
  dedupWindow : Int64
  priority : UInt8
  delay : Int64
  ttl : Int64
  enableDLQ : Bool
deriving DecidableEq, Repr

def defaultOptions : Options where
  visibilityTimeout := 30000000000
  maxRetries := 5
  dedupID := []
  dedupWindow := 600000000000
  priority := 128
  delay := 0
  ttl := 0
  enableDLQ := true

/-- `Option`; a deduplication window may be left out. -/
inductive CallOption where
  | withVisibilityTimeout (duration : Int64)
  | withMaxRetries (count : Int)
  | withDedupID (id : Bytes) (window : Option Int64)
  | withPriority (priority : UInt8)
  | withDelay (duration : Int64)
  | withTTL (ttl : Int64)
  | withDLQ (enabled : Bool)

def CallOption.apply (options : Options) : CallOption → Options
  | .withVisibilityTimeout duration =>
      { options with visibilityTimeout := duration }
  | .withMaxRetries count => { options with maxRetries := count }
  | .withDedupID id window =>
      { options with
        dedupID := id
        dedupWindow := window.getD options.dedupWindow }
  | .withPriority priority => { options with priority := priority }
  | .withDelay duration => { options with delay := duration }
  | .withTTL ttl => { options with ttl := ttl }
  | .withDLQ enabled => { options with enableDLQ := enabled }

/-- A call of `Queue.Enqueue`.  The handle reads the clock before the engine
does. -/
structure Submission where
  payload : Bytes
  opts : List CallOption
  asked : Int64
  now : Int64

namespace Submission

def cfg (call : Submission) : Options :=
  call.opts.foldl CallOption.apply defaultOptions

def request (call : Submission) : Request where
  payload := call.payload
  priority := call.cfg.priority
  dedupID := call.cfg.dedupID
  maxRetries := call.cfg.maxRetries
  visibleAt :=
    if 0 < call.cfg.delay then call.asked + call.cfg.delay else call.asked
  expireAt := if 0 < call.cfg.ttl then call.asked + call.cfg.ttl else 0

def enqueue {τ : Type} [Shelf τ] (call : Submission) (engine : Engine τ) :
    Except QueueError Message × Engine τ :=
  engine.enqueue call.request.message call.now

end Submission

namespace Deduplicator

variable {dedup : Deduplicator} {id : Bytes} {expireAt now : Int64}

theorem blocks_cleanupLocked {later : Int64} (after : now ≤ later) :
    (dedup.cleanupLocked now).Blocks id later ↔ dedup.Blocks id later := by
  constructor
  · rintro ⟨expireAt, held, early⟩
    exact ⟨expireAt, lookup_of_erased _ _ held, early⟩
  · rintro ⟨expireAt, held, early⟩
    exact ⟨expireAt, lookup_cleanupLocked held
      (Int64.lt_of_le_of_lt after early), early⟩

theorem blocks_record {recorded : Bytes} {until' later : Int64}
    (after : now ≤ later) :
    (dedup.record recorded until' now).Blocks id later ↔
      if id = recorded then later < until' else dedup.Blocks id later := by
  have inserted : Blocks id later ⟨dedup.entries.insert recorded until'⟩ ↔
      if id = recorded then later < until' else dedup.Blocks id later := by
    split
    · rename_i same
      rw [same]
      constructor
      · rintro ⟨expireAt, held, early⟩
        rw [AList.lookup_insert] at held
        rwa [Option.some.inj held]
      · intro early
        exact ⟨until', AList.lookup_insert _, early⟩
    · rename_i different
      simp only [Blocks, AList.lookup_insert_ne different]
  simp only [record]
  split
  · rw [blocks_cleanupLocked after]
    exact inserted
  · exact inserted

theorem checkOrSet_blocked (given : id ≠ []) (blocked : dedup.Blocks id now)
    (window : Int64) : dedup.checkOrSet id window now = (false, dedup) := by
  obtain ⟨expireAt, held, early⟩ := blocked
  exact checkOrSet_held given held early window

theorem checkOrSet_free (given : id ≠ []) (free : ¬ dedup.Blocks id now)
    (window : Int64) :
    dedup.checkOrSet id window now =
      (true, dedup.record id (now + window) now) := by
  rw [checkOrSet, if_neg given]
  cases found : dedup.entries.lookup id with
  | none => rfl
  | some expireAt =>
      simp only
      rw [if_neg fun early => free ⟨expireAt, found, early⟩]

end Deduplicator

/-! ## Sequences of calls -/

structure Accepted where
  dedupID : Bytes
  window : Int64
  time : Int64

/-- An engine and the calls it has accepted. -/
structure Intake (τ : Type) where
  engine : Engine τ
  accepted : List Accepted

namespace Intake

variable {τ : Type} [Shelf τ]

/-- The call is rejected with `ErrDuplicateMessage`. -/
def rejects (call : Submission) (intake : Intake τ) : Bool :=
  decide ((call.enqueue intake.engine).1 = .error .duplicateMessage)

def submit (intake : Intake τ) (call : Submission) : Intake τ where
  engine := (call.enqueue intake.engine).2
  accepted :=
    match (call.enqueue intake.engine).1 with
    | .error _ => intake.accepted
    | .ok _ =>
        ⟨call.cfg.dedupID, call.cfg.dedupWindow, call.now⟩ :: intake.accepted

/-- An earlier accepted call of the same identifier is less than its own
window ago. -/
def Asked (call : Submission) (intake : Intake τ) : Prop :=
  ∃ earlier, earlier ∈ intake.accepted ∧
    earlier.dedupID = call.cfg.dedupID ∧
    call.now.toInt - earlier.time.toInt < earlier.window.toInt

/-- An earlier accepted call of the same identifier is less than the window
of the engine ago, in the arithmetic of the engine. -/
def Configured (call : Submission) (intake : Intake τ) : Prop :=
  ∃ earlier, earlier ∈ intake.accepted ∧
    earlier.dedupID = call.cfg.dedupID ∧
    call.now < earlier.time + intake.engine.cfg.dedupWindow

def Honoured (call : Submission) (intake : Intake τ) : Prop :=
  intake.rejects call = true ↔ call.cfg.dedupID ≠ [] ∧ intake.Asked call

/-- The entries of the engine are those of the accepted calls, from a time
on. -/
structure Remembers (from' : Int64) (intake : Intake τ) : Prop where
  opened : intake.engine.closed = false
  blocks : ∀ id, id ≠ [] → ∀ now, from' ≤ now →
    (intake.engine.dedup.Blocks id now ↔
      ∃ earlier, earlier ∈ intake.accepted ∧ earlier.dedupID = id ∧
        now < earlier.time + intake.engine.cfg.dedupWindow)

variable {intake : Intake τ} {call : Submission} {from' : Int64}

theorem submit_blocked (given : call.cfg.dedupID ≠ [])
    (blocked : intake.engine.dedup.Blocks call.cfg.dedupID call.now) :
    intake.rejects call = true ∧ intake.submit call = intake := by
  have checked := Deduplicator.checkOrSet_blocked given blocked
    intake.engine.cfg.dedupWindow
  have outcome : call.enqueue intake.engine =
      (.error .duplicateMessage, intake.engine) := by
    simp only [Submission.enqueue, Engine.enqueue, Submission.request,
      Request.message, checked, if_true]
  simp only [rejects, submit, outcome, decide_true, true_and]

theorem submit_free (opened : intake.engine.closed = false)
    {dedup : Deduplicator}
    (checked : intake.engine.dedup.checkOrSet call.cfg.dedupID
      intake.engine.cfg.dedupWindow call.now = (true, dedup)) :
    intake.rejects call = false ∧
    (intake.submit call).engine.closed = false ∧
    (intake.submit call).engine.dedup = dedup ∧
    (intake.submit call).engine.cfg = intake.engine.cfg ∧
    (intake.submit call).accepted =
      ⟨call.cfg.dedupID, call.cfg.dedupWindow, call.now⟩ ::
        intake.accepted := by
  simp only [rejects, submit, Submission.enqueue, Engine.enqueue,
    Submission.request, Request.message, checked, opened, if_true]
  exact ⟨rfl, rfl, rfl, rfl, rfl⟩

theorem Remembers.rejects_iff (remembers : intake.Remembers from')
    (later : from' ≤ call.now) :
    intake.rejects call = true ↔
      call.cfg.dedupID ≠ [] ∧ intake.Configured call := by
  by_cases given : call.cfg.dedupID = []
  · have checked : intake.engine.dedup.checkOrSet call.cfg.dedupID
        intake.engine.cfg.dedupWindow call.now =
          (true, intake.engine.dedup) := by
      rw [Deduplicator.checkOrSet, if_pos given]
    rw [(submit_free remembers.opened checked).1]
    exact ⟨fun rejected => absurd rejected Bool.false_ne_true,
      fun both => absurd given both.1⟩
  · have known := remembers.blocks _ given _ later
    by_cases blocked : intake.engine.dedup.Blocks call.cfg.dedupID call.now
    · rw [(submit_blocked given blocked).1]
      exact ⟨fun _ => ⟨given, known.mp blocked⟩, fun _ => rfl⟩
    · rw [(submit_free remembers.opened
        (Deduplicator.checkOrSet_free given blocked _)).1]
      exact ⟨fun rejected => absurd rejected Bool.false_ne_true,
        fun both => absurd (known.mpr both.2) blocked⟩

theorem Remembers.submit (remembers : intake.Remembers from')
    (later : from' ≤ call.now) :
    (intake.submit call).Remembers call.now := by
  by_cases given : call.cfg.dedupID = []
  · have checked : intake.engine.dedup.checkOrSet call.cfg.dedupID
        intake.engine.cfg.dedupWindow call.now =
          (true, intake.engine.dedup) := by
      rw [Deduplicator.checkOrSet, if_pos given]
    obtain ⟨_, opened, dedup, cfg, accepted⟩ :=
      submit_free remembers.opened checked
    refine ⟨opened, fun id named now past => ?_⟩
    rw [dedup, cfg, accepted,
      remembers.blocks id named now (Int64.le_trans later past)]
    simp only [List.exists_mem_cons_iff]
    exact ⟨.inr, fun either => either.resolve_left fun same =>
      named (same.1.symm.trans given)⟩
  by_cases blocked : intake.engine.dedup.Blocks call.cfg.dedupID call.now
  · rw [(submit_blocked given blocked).2]
    exact ⟨remembers.opened, fun id named now past =>
      remembers.blocks id named now (Int64.le_trans later past)⟩
  · obtain ⟨_, opened, dedup, cfg, accepted⟩ := submit_free remembers.opened
      (Deduplicator.checkOrSet_free given blocked
        intake.engine.cfg.dedupWindow)
    refine ⟨opened, fun id named now past => ?_⟩
    rw [dedup, cfg, accepted, Deduplicator.blocks_record past]
    simp only [List.exists_mem_cons_iff]
    have before := remembers.blocks id named now (Int64.le_trans later past)
    split
    · rename_i same
      -- what was over at this call stays over
      have none : ¬ intake.engine.dedup.Blocks id now := by
        rw [same]
        rintro ⟨expireAt, held, early⟩
        exact blocked ⟨expireAt, held, Int64.lt_of_le_of_lt past early⟩
      exact ⟨fun early => .inl ⟨same.symm, early⟩, fun either =>
        either.elim And.right fun old => absurd (before.mpr old) none⟩
    · rename_i different
      exact before.trans ⟨.inr, fun either =>
        either.resolve_left fun same => different same.1.symm⟩

omit [Shelf τ] in
theorem Remembers.mono (remembers : intake.Remembers from') {later : Int64}
    (past : from' ≤ later) : intake.Remembers later :=
  ⟨remembers.opened, fun id named now after =>
    remembers.blocks id named now (Int64.le_trans past after)⟩

theorem Remembers.submit_accepted (remembers : intake.Remembers from')
    (call : Submission) :
    (intake.submit call).engine.cfg = intake.engine.cfg ∧
    (intake.submit call).accepted =
      if intake.rejects call then intake.accepted
      else ⟨call.cfg.dedupID, call.cfg.dedupWindow, call.now⟩ ::
        intake.accepted := by
  by_cases blocked : call.cfg.dedupID ≠ [] ∧
      intake.engine.dedup.Blocks call.cfg.dedupID call.now
  · have stopped := submit_blocked blocked.1 blocked.2
    rw [stopped.1, stopped.2]
    exact ⟨rfl, rfl⟩
  · have checked : ∃ dedup, intake.engine.dedup.checkOrSet call.cfg.dedupID
        intake.engine.cfg.dedupWindow call.now = (true, dedup) := by
      by_cases given : call.cfg.dedupID = []
      · rw [Deduplicator.checkOrSet, if_pos given]
        exact ⟨_, rfl⟩
      · rw [Deduplicator.checkOrSet_free given
          fun blocks => blocked ⟨given, blocks⟩]
        exact ⟨_, rfl⟩
    obtain ⟨dedup, checked⟩ := checked
    obtain ⟨passed, _, _, cfg, accepted⟩ :=
      submit_free remembers.opened checked
    rw [passed]
    exact ⟨cfg, accepted⟩

theorem Remembers.run {calls : List Submission} {until' : Int64}
    (remembers : intake.Remembers from') (past : from' ≤ until')
    (timed : calls.Pairwise fun first second => first.now ≤ second.now)
    (begins : ∀ call, call ∈ calls → from' ≤ call.now)
    (ends : ∀ call, call ∈ calls → call.now ≤ until') :
    (calls.foldl Intake.submit intake).Remembers until' := by
  induction calls generalizing intake from' with
  | nil => exact remembers.mono past
  | cons call rest inductionHypothesis =>
      obtain ⟨ordered, timed⟩ := List.pairwise_cons.mp timed
      exact inductionHypothesis (remembers.submit (begins _ List.mem_cons_self))
        (ends _ List.mem_cons_self) timed ordered
        fun other member => ends other (List.mem_cons_of_mem _ member)

def verdicts (id : Bytes) : List Submission → Intake τ → List Bool
  | [], _ => []
  | call :: rest, intake =>
      if call.cfg.dedupID = id then
        intake.rejects call :: verdicts id rest (intake.submit call)
      else verdicts id rest (intake.submit call)

def acceptedOf (id : Bytes) (intake : Intake τ) : List Accepted :=
  intake.accepted.filter fun earlier => earlier.dedupID = id

omit [Shelf τ] in
theorem configured_congr {other : Intake τ}
    (cfg : other.engine.cfg = intake.engine.cfg)
    (same : other.acceptedOf call.cfg.dedupID =
      intake.acceptedOf call.cfg.dedupID) :
    other.Configured call ↔ intake.Configured call := by
  have listed : ∀ intake : Intake τ, intake.Configured call ↔
      ∃ earlier, earlier ∈ intake.acceptedOf call.cfg.dedupID ∧
        call.now < earlier.time + intake.engine.cfg.dedupWindow := by
    intro intake
    simp only [Configured, acceptedOf, List.mem_filter, decide_eq_true_eq,
      and_assoc]
  rw [listed, listed, cfg, same]

theorem verdicts_filter {calls : List Submission} {other : Intake τ}
    (id : Bytes) (remembers : intake.Remembers from')
    (others : other.Remembers from')
    (cfg : other.engine.cfg = intake.engine.cfg)
    (same : other.acceptedOf id = intake.acceptedOf id)
    (timed : calls.Pairwise fun first second => first.now ≤ second.now)
    (begins : ∀ call, call ∈ calls → from' ≤ call.now) :
    verdicts id calls intake =
      verdicts id (calls.filter fun call => call.cfg.dedupID = id) other := by
  induction calls generalizing intake other from' with
  | nil => rfl
  | cons call rest inductionHypothesis =>
      obtain ⟨ordered, timed⟩ := List.pairwise_cons.mp timed
      have begun := begins call List.mem_cons_self
      have next := remembers.submit begun
      obtain ⟨nextCfg, nextAccepted⟩ := remembers.submit_accepted call
      by_cases mine : call.cfg.dedupID = id
      · obtain ⟨otherCfg, otherAccepted⟩ := others.submit_accepted call
        have verdict : other.rejects call = intake.rejects call := by
          rw [Bool.eq_iff_iff, others.rejects_iff begun,
            remembers.rejects_iff begun,
            configured_congr cfg (by rw [mine]; exact same)]
        rw [List.filter_cons_of_pos (by simpa using mine)]
        simp only [verdicts, if_pos mine, verdict]
        rw [inductionHypothesis next (others.submit begun)
          (by rw [otherCfg, nextCfg, cfg]) _ timed ordered]
        simp only [acceptedOf] at same ⊢
        rw [otherAccepted, nextAccepted, verdict]
        split
        · exact same
        · rw [List.filter_cons, List.filter_cons, same]
      · rw [List.filter_cons_of_neg (by simpa using mine)]
        simp only [verdicts, if_neg mine]
        rw [inductionHypothesis next (others.mono begun)
          (by rw [nextCfg, cfg]) _ timed ordered]
        simp only [acceptedOf] at same ⊢
        rw [nextAccepted]
        split
        · exact same
        · rw [List.filter_cons_of_neg (by simpa using mine), same]

omit [Shelf τ] in
theorem remembers_fresh {engine : Engine τ}
    (fresh : engine.dedup = .newDeduplicator) (opened : engine.closed = false)
    (from' : Int64) : Remembers from' ⟨engine, []⟩ := by
  refine ⟨opened, fun id named now past => ?_⟩
  constructor
  · rintro ⟨expireAt, held, _⟩
    rw [fresh] at held
    cases held
  · rintro ⟨earlier, member, _⟩
    cases member

/-- In a sequence of calls the windows asked for are honoured exactly when, at
every call with an identifier, an earlier accepted call with that identifier is
within the window it asked for if and only if one is within the window of the
engine.  Calls with other identifiers never matter. -/
theorem honoured_iff {engine : Engine τ} {calls : List Submission}
    (fresh : engine.dedup = .newDeduplicator) (opened : engine.closed = false)
    (timed : calls.Pairwise fun first second => first.now ≤ second.now) :
    ((∀ front call back, calls = front ++ call :: back →
        (front.foldl submit ⟨engine, []⟩).Honoured call) ↔
      ∀ front call back, calls = front ++ call :: back →
        call.cfg.dedupID ≠ [] →
        ((front.foldl submit ⟨engine, []⟩).Asked call ↔
          (front.foldl submit ⟨engine, []⟩).Configured call)) ∧
    ∀ id, verdicts id calls ⟨engine, []⟩ =
      verdicts id (calls.filter fun call => call.cfg.dedupID = id)
        ⟨engine, []⟩ := by
  constructor
  · apply forall_congr'
    intro front
    apply forall_congr'
    intro call
    apply forall_congr'
    intro back
    apply forall_congr'
    intro shape
    rw [shape] at timed
    have ordered := List.pairwise_append.mp timed
    have remembers : (front.foldl submit ⟨engine, []⟩).Remembers call.now := by
      apply Remembers.run (remembers_fresh fresh opened
        (front.head?.elim call.now Submission.now))
      · cases front with
        | nil => exact Int64.le_refl _
        | cons first rest =>
            exact ordered.2.2 first List.mem_cons_self call List.mem_cons_self
      · exact ordered.1
      · cases front with
        | nil => exact nofun
        | cons first rest =>
            intro other member
            rcases List.mem_cons.mp member with rfl | later
            · exact Int64.le_refl _
            · exact (List.pairwise_cons.mp ordered.1).1 other later
      · intro other member
        exact ordered.2.2 other member call List.mem_cons_self
    rw [Honoured, remembers.rejects_iff (Int64.le_refl _)]
    constructor
    · intro equal given
      exact ⟨fun asked => (equal.mpr ⟨given, asked⟩).2,
        fun configured => (equal.mp ⟨given, configured⟩).2⟩
    · intro agrees
      exact ⟨fun both => ⟨both.1, (agrees both.1).mpr both.2⟩,
        fun both => ⟨both.1, (agrees both.1).mp both.2⟩⟩
  · intro id
    cases calls with
    | nil => rfl
    | cons first rest =>
        apply verdicts_filter id (remembers_fresh fresh opened first.now)
          (remembers_fresh fresh opened first.now) rfl rfl timed
        intro call member
        rcases List.mem_cons.mp member with rfl | later
        · exact Int64.le_refl _
        · exact (List.pairwise_cons.mp timed).1 call later

/-! ### Two calls with the same identifier -/

def dedupQueue : Engine Unit := .newEngine [113] defaultConfig ()

/-- A call with the identifier `a` and a window. -/
def dedupCall (window now : Int64) : Submission where
  payload := []
  opts := [.withDedupID [97] (some window)]
  asked := now
  now := now

/-- The second call comes after the window of the first. -/
theorem shortWindow_rejected :
    let intake := submit ⟨dedupQueue, []⟩ (dedupCall 1 0)
    intake.rejects (dedupCall 1 5) = true ∧
      ¬ intake.Asked (dedupCall 1 5) ∧ ¬ intake.Honoured (dedupCall 1 5) := by
  intro intake
  have rejected : intake.rejects (dedupCall 1 5) = true := by decide
  have accepted : intake.accepted = [⟨[97], 1, 0⟩] := by rfl
  have unasked : ¬ intake.Asked (dedupCall 1 5) := by
    rintro ⟨earlier, member, _, recent⟩
    rw [accepted, List.mem_singleton] at member
    rw [member] at recent
    exact absurd recent (by decide)
  exact ⟨rejected, unasked, fun honoured => unasked (honoured.mp rejected).2⟩

/-- The window asked for is that of the queue. -/
theorem honoured_defaultWindow :
    (submit ⟨dedupQueue, []⟩ (dedupCall 600000000000 0)).Honoured
      (dedupCall 600000000000 5) := by
  have agrees := (@honoured_iff Unit _ dedupQueue
    [dedupCall 600000000000 0, dedupCall 600000000000 5] rfl rfl
    (by decide)).1.mpr
  refine agrees ?_ [dedupCall 600000000000 0] _ [] rfl
  intro front call back shape _
  match front with
  | [] =>
      constructor
      · rintro ⟨_, member, _⟩
        cases member
      · rintro ⟨_, member, _⟩
        cases member
  | [first] =>
      injection shape with head tail
      injection tail with second _
      rw [← head, ← second]
      constructor
      · intro _
        exact ⟨⟨[97], 600000000000, 0⟩, List.mem_singleton_self _, rfl,
          by decide⟩
      · intro _
        exact ⟨⟨[97], 600000000000, 0⟩, List.mem_singleton_self _, rfl,
          by decide⟩
  | first :: second :: rest =>
      injection shape with _ tail
      injection tail with _ none
      exact absurd none (by simp)

end Intake

end CocoDB.Queue
