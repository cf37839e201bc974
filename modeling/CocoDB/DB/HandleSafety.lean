import Mathlib.Data.List.Nodup
import CocoDB.DB.HandlePool

/-!
# Who may touch a handle

As long as no call takes a handle for which a deferred `Rollback` is still
pending, every handle has one owner from `Get` to `Put`, the pool holds it once,
and a step of one call leaves the handles of all others alone.
-/

namespace CocoDB.HandlePool

open Lib State

/-- What holds of the pool and of the handles. -/
structure Sound (state : State) : Prop where
  pool_nodup : state.pool.Nodup
  pooled : ∀ {handle}, handle ∈ state.pool →
    state.owner handle = none ∧
    (state.handles handle).internalTx = none ∧ handle < state.made
  fresh : ∀ {handle}, state.made ≤ handle → state.owner handle = none
  txn_call : ∀ {handle call txn}, state.owner handle = some call →
    (state.handles handle).internalTx = some txn →
    txn < state.txnCount ∧ (state.txns txn).call = call

def holds (state : State) : Phase → List HandleID
  | .running _ handle => handle :: (state.handles handle).childTxs
  | .childBegun _ handle _ => handle :: (state.handles handle).childTxs
  | .committing handle => handle :: (state.handles handle).childTxs
  | .rollingBack handle => handle :: (state.handles handle).childTxs
  | .committingChildren handle rest => handle :: rest
  | .childClearing handle child rest => handle :: child :: rest
  | _ => []

def pendingTxn : Phase → Option TxnRef
  | .begun _ txn => some txn
  | .childBegun _ _ txn => some txn
  | _ => none

structure CallSound (state : State) (call : CallID) (phase : Phase) :
    Prop where
  owned : ∀ {handle}, handle ∈ holds state phase →
    state.owner handle = some call ∧
    (state.handles handle).internalTx ≠ none
  distinct : (holds state phase).Nodup
  pending : ∀ {txn}, pendingTxn phase = some txn →
    txn < state.txnCount ∧ (state.txns txn).call = call
  returned : ∀ {handle}, phase = .committed handle → handle ∈ state.pool

structure Keeps (call : CallID) (before after : State) : Prop where
  handle_eq : ∀ {handle other}, other ≠ call →
    before.owner handle = some other →
    after.handles handle = before.handles handle ∧
    after.owner handle = some other
  txn_eq : ∀ {txn}, txn < before.txnCount →
    (before.txns txn).call ≠ call → after.txns txn = before.txns txn
  txn_call_eq : ∀ {txn}, txn < before.txnCount →
    (after.txns txn).call = (before.txns txn).call
  count_le : before.txnCount ≤ after.txnCount
  pool_kept : ∀ {other handle}, other ≠ call →
    before.calls other = .committed handle → handle ∈ before.pool →
    handle ∈ after.pool
  call_eq : ∀ {other}, other ≠ call → after.calls other = before.calls other

namespace Keeps

variable {call : CallID} {first second third : State}

theorem refl (call : CallID) (state : State) : Keeps call state state :=
  ⟨fun _ owned => ⟨rfl, owned⟩, fun _ _ => rfl, fun _ => rfl, Nat.le_refl _,
    fun _ _ member => member, fun _ => rfl⟩

theorem trans (front : Keeps call first second)
    (back : Keeps call second third) : Keeps call first third := by
  refine ⟨?_, ?_, ?_, Nat.le_trans front.count_le back.count_le, ?_, ?_⟩
  · intro handle other different owned
    obtain ⟨same, kept⟩ := front.handle_eq different owned
    obtain ⟨sameAgain, keptAgain⟩ := back.handle_eq different kept
    exact ⟨sameAgain.trans same, keptAgain⟩
  · intro txn bound foreign
    have between := front.txn_eq bound foreign
    have later := Nat.lt_of_lt_of_le bound front.count_le
    rw [← between] at foreign
    rw [back.txn_eq later foreign, between]
  · intro txn bound
    have later := Nat.lt_of_lt_of_le bound front.count_le
    rw [back.txn_call_eq later, front.txn_call_eq bound]
  · intro other handle different committed member
    have between := front.call_eq different
    rw [← between] at committed
    exact back.pool_kept different committed
      (front.pool_kept different (between ▸ committed) member)
  · intro other different
    rw [back.call_eq different, front.call_eq different]

end Keeps

section Operations

variable {state : State} {call : CallID} {handle : HandleID} {txn : TxnRef}

theorem sound_setPhase (sound : Sound state) (phase : Phase) :
    Sound (state.setPhase call phase) :=
  ⟨sound.pool_nodup, sound.pooled, sound.fresh, sound.txn_call⟩

theorem sound_beginTxn (sound : Sound state) (engine : Engine)
    (readOnly : Bool) : Sound (state.beginTxn call engine readOnly) := by
  refine ⟨sound.pool_nodup, sound.pooled, sound.fresh, ?_⟩
  intro handle other txn owned current
  obtain ⟨bound, same⟩ := sound.txn_call owned current
  have different : txn ≠ state.txnCount := Nat.ne_of_lt bound
  refine ⟨Nat.lt_succ_of_lt bound, ?_⟩
  simpa only [beginTxn, Function.update_of_ne different] using same

theorem beginTxn_call (state : State) (call : CallID) (engine : Engine)
    (readOnly : Bool) :
    ((state.beginTxn call engine readOnly).txns state.txnCount).call =
      call := by
  simp only [beginTxn, Function.update_self]

theorem closeTxn_call (state : State) (closed txn : TxnRef) :
    ((state.closeTxn closed).txns txn).call = (state.txns txn).call := by
  by_cases same : txn = closed
  · subst same
    simp only [closeTxn, Function.update_self]
  · simp only [closeTxn, Function.update_of_ne same]

theorem sound_closeTxn (sound : Sound state) (txn : TxnRef) :
    Sound (state.closeTxn txn) := by
  refine ⟨sound.pool_nodup, sound.pooled, sound.fresh, ?_⟩
  intro handle other current owned held
  rw [closeTxn_call]
  exact sound.txn_call owned held

theorem release_owner (owned : state.owner handle = some call) :
    (state.release call handle).owner =
      Function.update state.owner handle none := by
  simp only [release, if_pos owned]

theorem release_handles (state : State) (call : CallID) (handle : HandleID) :
    (state.release call handle).handles =
      Function.update state.handles handle .cleared := rfl

theorem Sound.not_pooled (sound : Sound state)
    (owned : state.owner handle = some call) : handle ∉ state.pool := by
  intro member
  rw [(sound.pooled member).1] at owned
  cases owned

theorem Sound.lt_made (sound : Sound state)
    (owned : state.owner handle = some call) : handle < state.made := by
  by_contra unmade
  rw [sound.fresh (Nat.le_of_not_lt unmade)] at owned
  cases owned

theorem sound_release (sound : Sound state)
    (owned : state.owner handle = some call) :
    Sound (state.release call handle) := by
  have outside := sound.not_pooled owned
  have made := sound.lt_made owned
  have owner := release_owner owned
  refine ⟨List.nodup_cons.mpr ⟨outside, sound.pool_nodup⟩, ?_, ?_, ?_⟩
  · intro pooled member
    rw [owner, release_handles]
    rcases List.mem_cons.mp member with rfl | old
    · rw [Function.update_self, Function.update_self]
      exact ⟨rfl, rfl, made⟩
    · have different : pooled ≠ handle := by
        rintro rfl
        exact outside old
      rw [Function.update_of_ne different, Function.update_of_ne different]
      exact sound.pooled old
  · intro unmade past
    have different : unmade ≠ handle := by
      rintro rfl
      exact absurd made (Nat.not_lt.mpr past)
    rw [owner, Function.update_of_ne different]
    exact sound.fresh past
  · intro other holder txn held current
    have different : other ≠ handle := by
      rintro rfl
      rw [owner, Function.update_self] at held
      cases held
    rw [owner, Function.update_of_ne different] at held
    rw [release_handles, Function.update_of_ne different] at current
    exact sound.txn_call held current

theorem sound_setup {taken : State} {choice : Option HandleID}
    (sound : Sound state) (gets : Gets state choice handle taken)
    (bound : txn < state.txnCount) (began : (state.txns txn).call = call) :
    Sound (taken.setup call handle txn) := by
  have owner : (taken.setup call handle txn).owner =
      Function.update state.owner handle (some call) := by
    cases gets <;> rfl
  have handles : (taken.setup call handle txn).handles =
      Function.update state.handles handle ⟨some txn, []⟩ := by
    cases gets <;> rfl
  have txns : (taken.setup call handle txn).txns = state.txns ∧
      (taken.setup call handle txn).txnCount = state.txnCount := by
    cases gets <;> exact ⟨rfl, rfl⟩
  have made : handle < taken.made ∧ state.made ≤ taken.made := by
    cases gets with
    | pooled member => exact ⟨(sound.pooled member).2.2, Nat.le_refl _⟩
    | new => exact ⟨Nat.lt_succ_self _, Nat.le_succ _⟩
  have pool : taken.pool.Nodup ∧ ∀ other, other ∈ taken.pool →
      other ∈ state.pool ∧ other ≠ handle := by
    cases gets with
    | pooled member =>
        refine ⟨sound.pool_nodup.erase handle, fun other kept => ?_⟩
        have both := sound.pool_nodup.mem_erase_iff.mp kept
        exact ⟨both.2, both.1⟩
    | new =>
        refine ⟨sound.pool_nodup, fun other kept => ⟨kept, ?_⟩⟩
        exact Nat.ne_of_lt (sound.pooled kept).2.2
  refine ⟨pool.1, ?_, ?_, ?_⟩
  · intro pooled member
    obtain ⟨old, different⟩ := pool.2 pooled member
    obtain ⟨unowned, none, small⟩ := sound.pooled old
    rw [owner, handles, Function.update_of_ne different,
      Function.update_of_ne different]
    exact ⟨unowned, none, Nat.lt_of_lt_of_le small made.2⟩
  · intro unmade past
    have different : unmade ≠ handle := by
      rintro rfl
      exact absurd made.1 (Nat.not_lt.mpr past)
    rw [owner, Function.update_of_ne different]
    exact sound.fresh (Nat.le_trans made.2 past)
  · intro other holder current held holds
    rw [txns.1, txns.2]
    by_cases same : other = handle
    · subst same
      rw [owner, Function.update_self] at held
      rw [handles, Function.update_self] at holds
      obtain rfl := Option.some.inj held
      obtain rfl := Option.some.inj holds
      exact ⟨bound, began⟩
    · rw [owner, Function.update_of_ne same] at held
      rw [handles, Function.update_of_ne same] at holds
      exact sound.txn_call held holds

theorem addChild_internalTx (state : State) (handle child other : HandleID) :
    ((state.addChild handle child).handles other).internalTx =
      (state.handles other).internalTx := by
  by_cases same : other = handle
  · subst same
    simp only [addChild, Function.update_self]
  · simp only [addChild, Function.update_of_ne same]

theorem sound_addChild (sound : Sound state) (child : HandleID) :
    Sound (state.addChild handle child) := by
  refine ⟨sound.pool_nodup, ?_, sound.fresh, ?_⟩
  · intro pooled member
    rw [addChild_internalTx]
    exact sound.pooled member
  · intro other holder txn held current
    rw [addChild_internalTx] at current
    exact sound.txn_call held current

theorem keeps_setPhase (state : State) (call : CallID) (phase : Phase) :
    Keeps call state (state.setPhase call phase) :=
  { Keeps.refl call state with
    call_eq := fun different => Function.update_of_ne different _ _ }

theorem keeps_beginTxn (state : State) (call : CallID) (engine : Engine)
    (readOnly : Bool) :
    Keeps call state (state.beginTxn call engine readOnly) := by
  have old : ∀ {txn}, txn < state.txnCount →
      (state.beginTxn call engine readOnly).txns txn = state.txns txn :=
    fun bound => Function.update_of_ne (Nat.ne_of_lt bound) _ _
  exact { Keeps.refl call state with
    txn_eq := fun bound _ => old bound
    txn_call_eq := fun bound => congrArg Txn.call (old bound)
    count_le := Nat.le_succ _ }

theorem keeps_closeTxn (own : (state.txns txn).call = call) :
    Keeps call state (state.closeTxn txn) := by
  refine { Keeps.refl call state with
    txn_eq := ?_
    txn_call_eq := fun _ => closeTxn_call state txn _ }
  intro other _ foreign
  have different : other ≠ txn := by
    rintro rfl
    exact foreign own
  exact Function.update_of_ne different _ _

theorem keeps_release (owned : state.owner handle = some call) :
    Keeps call state (state.release call handle) := by
  refine { Keeps.refl call state with
    handle_eq := ?_
    pool_kept := fun _ _ member => List.mem_cons_of_mem _ member }
  intro kept other foreign held
  have different : kept ≠ handle := by
    rintro rfl
    exact foreign (Option.some.inj (held.symm.trans owned))
  rw [release_handles, release_owner owned, Function.update_of_ne different,
    Function.update_of_ne different]
  exact ⟨rfl, held⟩

/-- A step of `Get` takes no handle with a pending rollback. -/
def NotPending (state : State) (choice : Option HandleID) : Prop :=
  ∀ handle, choice = some handle → ∀ call,
    state.calls call ≠ .committed handle

theorem keeps_setup {taken : State} {choice : Option HandleID}
    (sound : Sound state) (gets : Gets state choice handle taken)
    (idle : NotPending state choice) (txn : TxnRef) :
    Keeps call state (taken.setup call handle txn) := by
  have unowned : state.owner handle = none := by
    cases gets with
    | pooled member => exact (sound.pooled member).1
    | new => exact sound.fresh (Nat.le_refl _)
  have untouched : ∀ {kept other}, state.owner kept = some other →
      kept ≠ handle := by
    rintro kept other held rfl
    rw [unowned] at held
    cases held
  cases gets with
  | pooled member =>
      refine { Keeps.refl call state with
        handle_eq := ?_
        pool_kept := ?_ }
      · intro kept other _ held
        exact ⟨Function.update_of_ne (untouched held) _ _,
          (Function.update_of_ne (untouched held) _ _).trans held⟩
      · intro other kept _ committed pooled
        have different : kept ≠ handle := by
          rintro rfl
          exact idle kept rfl other committed
        exact (List.mem_erase_of_ne different).mpr pooled
  | new =>
      refine { Keeps.refl call state with handle_eq := ?_ }
      intro kept other _ held
      exact ⟨Function.update_of_ne (untouched held) _ _,
        (Function.update_of_ne (untouched held) _ _).trans held⟩

theorem keeps_addChild (owned : state.owner handle = some call)
    (child : HandleID) : Keeps call state (state.addChild handle child) := by
  refine { Keeps.refl call state with handle_eq := ?_ }
  intro kept other foreign held
  have different : kept ≠ handle := by
    rintro rfl
    exact foreign (Option.some.inj (held.symm.trans owned))
  exact ⟨Function.update_of_ne different _ _, held⟩

theorem rollbackChildren_spec {children : List HandleID}
    (sound : Sound state) (distinct : children.Nodup)
    (owned : ∀ child, child ∈ children → state.owner child = some call) :
    Sound (rollbackChildren call children state) ∧
    Keeps call state (rollbackChildren call children state) ∧
    ∀ other, other ∉ children →
      (rollbackChildren call children state).owner other =
        state.owner other := by
  induction children generalizing state with
  | nil => exact ⟨sound, .refl call state, fun _ _ => rfl⟩
  | cons child rest inductionHypothesis =>
      obtain ⟨fresh, others⟩ := List.nodup_cons.mp distinct
      have ownChild := owned child List.mem_cons_self
      have one : Sound (state.rollbackChild call child) ∧
          Keeps call state (state.rollbackChild call child) ∧
          ∀ other, other ≠ child →
            (state.rollbackChild call child).owner other =
              state.owner other := by
        cases current : (state.handles child).internalTx with
        | none =>
            have shape : state.rollbackChild call child = state := by
              simp only [rollbackChild, current]
            rw [shape]
            exact ⟨sound, .refl call state, fun _ _ => rfl⟩
        | some txn =>
            have shape : state.rollbackChild call child =
                (state.closeTxn txn).release call child := by
              simp only [rollbackChild, current]
            have own := (sound.txn_call ownChild current).2
            have closed : (state.closeTxn txn).owner child = some call :=
              ownChild
            rw [shape, release_owner closed]
            exact ⟨sound_release (sound_closeTxn sound txn) closed,
              (keeps_closeTxn own).trans (keeps_release closed),
              fun other different => Function.update_of_ne different _ _⟩
      obtain ⟨soundOne, keepsOne, ownerOne⟩ := one
      have still : ∀ other, other ∈ rest →
          (state.rollbackChild call child).owner other = some call := by
        intro other member
        rw [ownerOne other fun same => fresh (same ▸ member)]
        exact owned other (List.mem_cons_of_mem _ member)
      obtain ⟨soundRest, keepsRest, ownerRest⟩ :=
        inductionHypothesis soundOne others still
      refine ⟨soundRest, keepsOne.trans keepsRest, fun other outside => ?_⟩
      rw [List.mem_cons, not_or] at outside
      exact (ownerRest other outside.2).trans (ownerOne other outside.1)

theorem rollback_spec (sound : Sound state)
    (distinct : (handle :: (state.handles handle).childTxs).Nodup)
    (owned : ∀ other, other ∈ handle :: (state.handles handle).childTxs →
      state.owner other = some call) :
    Sound (state.rollback call handle) ∧
    Keeps call state (state.rollback call handle) := by
  cases current : (state.handles handle).internalTx with
  | none =>
      have shape : state.rollback call handle = state := by
        simp only [State.rollback, current]
      rw [shape]
      exact ⟨sound, .refl call state⟩
  | some txn =>
      have shape : state.rollback call handle =
          (rollbackChildren call (state.handles handle).childTxs
            (state.closeTxn txn)).release call handle := by
        simp only [State.rollback, current]
      obtain ⟨alone, others⟩ := List.nodup_cons.mp distinct
      have own := owned handle List.mem_cons_self
      have closed := keeps_closeTxn (sound.txn_call own current).2
      obtain ⟨soundAll, keepsAll, ownerAll⟩ := rollbackChildren_spec
        (sound_closeTxn sound txn) others
        fun child member => owned child (List.mem_cons_of_mem _ member)
      have still := (ownerAll handle alone).trans own
      rw [shape]
      exact ⟨sound_release soundAll still,
        (closed.trans keepsAll).trans (keeps_release still)⟩

end Operations

structure Inv (state : State) : Prop where
  sound : Sound state
  callSound : ∀ call, CallSound state call (state.calls call)

theorem inv_start : Inv State.start := by
  refine ⟨⟨List.nodup_nil, ?_, fun _ => rfl, ?_⟩, fun call => ?_⟩
  · intro handle member
    cases member
  · intro handle call txn owned
    cases owned
  · exact ⟨fun member => (nomatch member), List.nodup_nil,
      fun pending => (nomatch pending), fun same => (nomatch same)⟩

section Frame

variable {before after : State} {call other : CallID}

theorem CallSound.frame {phase : Phase} (keeps : Keeps call before after)
    (different : other ≠ call) (same : before.calls other = phase)
    (sound : CallSound before other phase) :
    CallSound after other phase := by
  have head : ∀ {handle}, handle ∈ holds before phase →
      after.handles handle = before.handles handle := fun member =>
    (keeps.handle_eq different (sound.owned member).1).1
  have held : holds after phase = holds before phase := by
    cases phase with
    | running kind handle =>
        exact congrArg (fun fields : Handle => handle :: fields.childTxs)
          (head List.mem_cons_self)
    | childBegun kind handle txn =>
        exact congrArg (fun fields : Handle => handle :: fields.childTxs)
          (head List.mem_cons_self)
    | committing handle =>
        exact congrArg (fun fields : Handle => handle :: fields.childTxs)
          (head List.mem_cons_self)
    | rollingBack handle =>
        exact congrArg (fun fields : Handle => handle :: fields.childTxs)
          (head List.mem_cons_self)
    | _ => rfl
  refine ⟨?_, ?_, ?_, ?_⟩
  · intro handle member
    rw [held] at member
    obtain ⟨owned, set⟩ := sound.owned member
    obtain ⟨sameFields, sameOwner⟩ := keeps.handle_eq different owned
    rw [sameFields]
    exact ⟨sameOwner, set⟩
  · rw [held]
    exact sound.distinct
  · intro txn pending
    obtain ⟨bound, began⟩ := sound.pending pending
    exact ⟨Nat.lt_of_lt_of_le bound keeps.count_le,
      (keeps.txn_call_eq bound).trans began⟩
  · intro handle committed
    exact keeps.pool_kept different (same.trans committed)
      (sound.returned committed)

theorem inv_of_keeps {phase : Phase} (inv : Inv before)
    (sound : Sound after) (keeps : Keeps call before after)
    (own : CallSound (after.setPhase call phase) call phase) :
    Inv (after.setPhase call phase) := by
  refine ⟨sound_setPhase sound phase, fun other => ?_⟩
  by_cases same : other = call
  · subst same
    have current : (after.setPhase other phase).calls other = phase :=
      Function.update_self _ _ _
    rw [current]
    exact own
  · have between := keeps.trans (keeps_setPhase after call phase)
    rw [between.call_eq same]
    exact (inv.callSound other).frame between same rfl

/-- A call between two phases in which it waits for nothing and has nothing
put back: only the handles it holds count. -/
theorem callSound_of_holds {phase : Phase}
    (owned : ∀ {handle}, handle ∈ holds after phase →
      after.owner handle = some call ∧
      (after.handles handle).internalTx ≠ none)
    (distinct : (holds after phase).Nodup)
    (waits : pendingTxn phase = none)
    (unreturned : ∀ handle, phase ≠ .committed handle) :
    CallSound after call phase := by
  refine ⟨owned, distinct, ?_, fun same => absurd same (unreturned _)⟩
  intro txn pending
  rw [waits] at pending
  cases pending

end Frame

section Steps

variable {state taken : State} {call : CallID} {handle child : HandleID}
  {kind : Kind} {txn : TxnRef} {choice : Option HandleID}

theorem gets_unowned (sound : Sound state)
    (gets : Gets state choice handle taken) : state.owner handle = none := by
  cases gets with
  | pooled member => exact (sound.pooled member).1
  | new => exact sound.fresh (Nat.le_refl _)

theorem inv_begin (inv : Inv state) (engine : Engine) :
    Inv ((state.beginTxn call engine kind.readOnly).setPhase call
      (.begun kind state.txnCount)) := by
  refine inv_of_keeps inv (sound_beginTxn inv.sound engine _)
    (keeps_beginTxn state call engine _) ?_
  refine ⟨fun member => (nomatch member), List.nodup_nil, ?_,
    fun same => (nomatch same)⟩
  intro txn pending
  obtain rfl := Option.some.inj pending
  exact ⟨Nat.lt_succ_self _, beginTxn_call state call engine _⟩

theorem inv_get (inv : Inv state)
    (phase : state.calls call = .begun kind txn)
    (gets : Gets state choice handle taken)
    (idle : NotPending state choice) :
    Inv ((taken.setup call handle txn).setPhase call
      (.running kind handle)) := by
  have own := inv.callSound call
  rw [phase] at own
  obtain ⟨bound, began⟩ := own.pending rfl
  refine inv_of_keeps inv (sound_setup inv.sound gets bound began)
    (keeps_setup inv.sound gets idle txn) ?_
  have fields : ((taken.setup call handle txn).setPhase call
      (.running kind handle)).handles handle = ⟨some txn, []⟩ :=
    Function.update_self _ _ _
  have held : holds ((taken.setup call handle txn).setPhase call
      (.running kind handle)) (.running kind handle) = [handle] := by
    rw [holds, fields]
  refine callSound_of_holds ?_ ?_ rfl fun _ same => (nomatch same)
  · intro other member
    rw [held, List.mem_singleton] at member
    subst member
    rw [fields]
    exact ⟨Function.update_self _ _ _, Option.some_ne_none txn⟩
  · rw [held]
    exact List.nodup_singleton handle

theorem inv_openChild (inv : Inv state)
    (phase : state.calls call = .running kind handle) (engine : Engine) :
    Inv ((state.beginTxn call engine kind.readOnly).setPhase call
      (.childBegun kind handle state.txnCount)) := by
  have own := inv.callSound call
  rw [phase] at own
  refine inv_of_keeps inv (sound_beginTxn inv.sound engine _)
    (keeps_beginTxn state call engine _) ?_
  refine ⟨own.owned, own.distinct, ?_, fun same => (nomatch same)⟩
  intro txn pending
  obtain rfl := Option.some.inj pending
  exact ⟨Nat.lt_succ_self _, beginTxn_call state call engine _⟩

theorem inv_getChild (inv : Inv state)
    (phase : state.calls call = .childBegun kind handle txn)
    (gets : Gets state choice child taken)
    (idle : NotPending state choice) :
    Inv (((taken.setup call child txn).addChild handle child).setPhase call
      (.running kind handle)) := by
  have own := inv.callSound call
  rw [phase] at own
  obtain ⟨bound, began⟩ := own.pending rfl
  have unowned := gets_unowned inv.sound gets
  -- everything the call holds is owned, the new child was not
  have distinct : ∀ other, other ∈ handle :: (state.handles handle).childTxs →
      other ≠ child := by
    rintro other member rfl
    rw [(own.owned member).1] at unowned
    cases unowned
  have setupHandles : (taken.setup call child txn).handles =
      Function.update state.handles child ⟨some txn, []⟩ := by
    cases gets <;> rfl
  have setupOwner : (taken.setup call child txn).owner =
      Function.update state.owner child (some call) := by
    cases gets <;> rfl
  have sound := sound_setup inv.sound gets bound began
  have keeps := @keeps_setup state call child taken choice inv.sound gets idle txn
  have apart : handle ≠ child := distinct handle List.mem_cons_self
  have stillOwned : ∀ other,
      other ∈ handle :: (state.handles handle).childTxs →
      (taken.setup call child txn).owner other = some call ∧
      ((taken.setup call child txn).handles other).internalTx ≠ none := by
    intro other member
    rw [setupOwner, setupHandles,
      Function.update_of_ne (distinct other member),
      Function.update_of_ne (distinct other member)]
    exact own.owned member
  have parent := stillOwned handle List.mem_cons_self
  refine inv_of_keeps inv (sound_addChild sound child)
    (keeps.trans (keeps_addChild parent.1 child)) ?_
  have held : holds (((taken.setup call child txn).addChild handle
      child).setPhase call (.running kind handle)) (.running kind handle) =
      (handle :: (state.handles handle).childTxs) ++ [child] := by
    simp only [holds, setPhase, addChild, Function.update_self, setupHandles,
      Function.update_of_ne apart, List.cons_append]
  refine callSound_of_holds ?_ ?_ rfl fun _ same => (nomatch same)
  · intro other member
    rw [held, List.mem_append, List.mem_singleton] at member
    rw [show (((taken.setup call child txn).addChild handle child).setPhase
      call (.running kind handle)).handles =
        ((taken.setup call child txn).addChild handle child).handles from rfl,
      addChild_internalTx]
    rcases member with old | rfl
    · exact stillOwned other old
    · rw [setupHandles, Function.update_self]
      exact ⟨congrFun setupOwner other |>.trans (Function.update_self _ _ _),
        Option.some_ne_none txn⟩
  · rw [held]
    refine List.nodup_append.mpr ⟨own.distinct, List.nodup_singleton child, ?_⟩
    intro other member last same
    rw [List.mem_singleton.mp same]
    exact distinct other member

theorem inv_fnReturns {next : Phase} (inv : Inv state)
    (phase : state.calls call = .running kind handle)
    (same : next = .committing handle ∨ next = .rollingBack handle) :
    Inv (state.setPhase call next) := by
  have own := inv.callSound call
  rw [phase] at own
  refine inv_of_keeps inv inv.sound (.refl call state) ?_
  rcases same with rfl | rfl
  · exact ⟨own.owned, own.distinct, fun pending => (nomatch pending),
      fun committed => (nomatch committed)⟩
  · exact ⟨own.owned, own.distinct, fun pending => (nomatch pending),
      fun committed => (nomatch committed)⟩

theorem inv_close {next : Phase} {closed : HandleID} (inv : Inv state)
    (member : closed ∈ holds state (state.calls call))
    (current : (state.handles closed).internalTx = some txn)
    (still : ∀ {other}, other ∈ holds state next →
      other ∈ holds state (state.calls call))
    (distinct : (holds state next).Nodup)
    (waits : pendingTxn next = none)
    (unreturned : ∀ handle, next ≠ .committed handle)
    (stable : holds ((state.closeTxn txn).setPhase call next) next =
      holds state next) :
    Inv ((state.closeTxn txn).setPhase call next) := by
  have own := inv.callSound call
  have began := (inv.sound.txn_call (own.owned member).1 current).2
  refine inv_of_keeps inv (sound_closeTxn inv.sound txn)
    (keeps_closeTxn began) ?_
  refine callSound_of_holds ?_ ?_ waits unreturned
  · intro other held
    rw [stable] at held
    exact own.owned (still held)
  · rw [stable]
    exact distinct

theorem inv_putChild {rest : List HandleID} (inv : Inv state)
    (phase : state.calls call = .childClearing handle child rest) :
    Inv ((state.release call child).setPhase call
      (.committingChildren handle rest)) := by
  have own := inv.callSound call
  rw [phase] at own
  have ownChild : state.owner child = some call :=
    (own.owned (List.mem_cons_of_mem _ List.mem_cons_self)).1
  obtain ⟨apart, distinct⟩ := List.nodup_cons.mp own.distinct
  obtain ⟨fresh, others⟩ := List.nodup_cons.mp distinct
  rw [List.mem_cons, not_or] at apart
  have different : ∀ other, other ∈ handle :: rest → other ≠ child := by
    intro other member same
    rcases List.mem_cons.mp member with rfl | later
    · exact apart.1 same
    · exact fresh (same ▸ later)
  refine inv_of_keeps inv (sound_release inv.sound ownChild)
    (keeps_release ownChild) ?_
  refine callSound_of_holds ?_ (List.nodup_cons.mpr ⟨apart.2, others⟩) rfl
    fun _ same => (nomatch same)
  intro other member
  have owner := release_owner ownChild
  have before : other ∈ holds state (.childClearing handle child rest) := by
    rcases List.mem_cons.mp member with rfl | later
    · exact List.mem_cons_self
    · exact List.mem_cons_of_mem _ (List.mem_cons_of_mem _ later)
  change (state.release call child).owner other = some call ∧
    ((state.release call child).handles other).internalTx ≠ none
  rw [owner, release_handles, Function.update_of_ne (different other member),
    Function.update_of_ne (different other member)]
  exact own.owned before

theorem inv_put (inv : Inv state)
    (phase : state.calls call = .committingChildren handle []) :
    Inv ((state.release call handle).setPhase call (.committed handle)) := by
  have own := inv.callSound call
  rw [phase] at own
  have ownHandle : state.owner handle = some call :=
    (own.owned List.mem_cons_self).1
  refine inv_of_keeps inv (sound_release inv.sound ownHandle)
    (keeps_release ownHandle) ?_
  refine ⟨fun member => (nomatch member), List.nodup_nil,
    fun pending => (nomatch pending), ?_⟩
  intro other same
  obtain rfl := Phase.committed.inj same
  exact List.mem_cons_self

theorem inv_finish {after : State} (inv : Inv state) (sound : Sound after)
    (keeps : Keeps call state after) :
    Inv (after.setPhase call .finished) :=
  inv_of_keeps inv sound keeps
    ⟨fun member => (nomatch member), List.nodup_nil,
      fun pending => (nomatch pending), fun same => (nomatch same)⟩

theorem rollback_committed (inv : Inv state)
    (phase : state.calls call = .committed handle) :
    state.rollback call handle = state := by
  have pooled := (inv.callSound call).returned phase
  have missing := (inv.sound.pooled pooled).2.1
  simp only [State.rollback, missing]

end Steps

/-- The condition on a step: `Get` returns no handle whose last user has not
yet run its deferred `Rollback`. -/
def NoPendingGet (action : Action) (state : State) : Prop :=
  match action with
  | .get _ choice => NotPending state choice
  | _ => True

theorem inv_step {action : Action} {state next : State} (inv : Inv state)
    (step : Guarded NoPendingGet Step action state next) : Inv next := by
  obtain ⟨cond, step⟩ := step
  cases step with
  | begin phase unlocked => exact inv_begin inv _
  | get phase gets => exact inv_get inv phase gets cond
  | openChild phase unlocked => exact inv_openChild inv phase _
  | getChild phase gets => exact inv_getChild inv phase gets cond
  | fnCommits phase => exact inv_fnReturns inv phase (.inl rfl)
  | fnFails phase noCommit => exact inv_fnReturns inv phase (.inr rfl)
  | @commit _ call handle txn rest phase current stillOpen order =>
      have own := inv.callSound call
      have member : handle ∈ holds state (state.calls call) := by
        rw [phase]
        exact List.mem_cons_self
      refine inv_close inv member current ?_ ?_ rfl
        (fun _ same => (nomatch same)) rfl
      · intro other held
        rw [phase]
        rcases List.mem_cons.mp held with rfl | later
        · exact List.mem_cons_self
        · exact List.mem_cons_of_mem _ (order.mem_iff.mp later)
      · rw [phase] at own
        exact (order.cons handle).nodup_iff.mpr own.distinct
  | @commitFails _ call handle txn phase current =>
      have member : handle ∈ holds state (state.calls call) := by
        rw [phase]
        exact List.mem_cons_self
      refine inv_close inv member current ?_ (List.nodup_singleton handle) rfl
        (fun _ same => (nomatch same)) rfl
      intro other held
      rwa [List.mem_singleton.mp held]
  | @commitPanics _ call handle phase missing =>
      have own := inv.callSound call
      rw [phase] at own
      exact absurd missing (own.owned List.mem_cons_self).2
  | @commitChild _ call handle child txn rest ok phase current stillOpen =>
      have own := inv.callSound call
      have member : child ∈ holds state (state.calls call) := by
        rw [phase]
        exact List.mem_cons_of_mem _ List.mem_cons_self
      have fewer : (holds state (.childClearing handle child
          (if ok then rest else []))).Sublist
            (holds state (state.calls call)) := by
        rw [phase]
        cases ok with
        | true => exact List.Sublist.refl _
        | false =>
            exact ((List.nil_sublist rest).cons_cons child).cons_cons handle
      exact inv_close inv member current (fun held => fewer.subset held)
        (own.distinct.sublist fewer) rfl (fun _ same => (nomatch same)) rfl
  | @commitChildPanics _ call handle child rest phase missing =>
      have own := inv.callSound call
      rw [phase] at own
      exact absurd missing
        (own.owned (List.mem_cons_of_mem _ List.mem_cons_self)).2
  | putChild phase => exact inv_putChild inv phase
  | put phase => exact inv_put inv phase
  | rollbackCommitted phase =>
      rw [rollback_committed inv phase]
      exact inv_finish inv inv.sound (.refl _ state)
  | @rollback _ call handle phase =>
      have own := inv.callSound call
      rw [phase] at own
      obtain ⟨sound, keeps⟩ := rollback_spec inv.sound own.distinct
        fun other member => (own.owned member).1
      exact inv_finish inv sound keeps

/-- A step on behalf of one call leaves the handles that other calls own, and
the transactions behind them, as they are, and puts none of them in the pool. -/
def Harmless (call : CallID) (before after : State) : Prop :=
  ∀ handle other, other ≠ call → before.owner handle = some other →
    after.handles handle = before.handles handle ∧
    after.owner handle = some other ∧ handle ∉ after.pool ∧
    ∀ txn, (before.handles handle).internalTx = some txn →
      after.txns txn = before.txns txn

theorem Keeps.harmless {call : CallID} {before after : State}
    (sound : Sound before) (later : Sound after)
    (keeps : Keeps call before after) : Harmless call before after := by
  intro handle other different owned
  obtain ⟨same, still⟩ := keeps.handle_eq different owned
  refine ⟨same, still, later.not_pooled still, ?_⟩
  intro txn current
  obtain ⟨bound, began⟩ := sound.txn_call owned current
  exact keeps.txn_eq bound (began ▸ different)

def sampleBegun : State :=
  (State.start.beginTxn 0 0 false).setPhase 0 (.begun .update 0)

def sampleRunning : State :=
  (sampleBegun.make.setup 0 0 0).setPhase 0 (.running .update 0)

def sampleClosed : State :=
  ((sampleRunning.setPhase 0 (.committing 0)).closeTxn 0).setPhase 0
    (.committingChildren 0 [])

def sampleCommitted : State :=
  (sampleClosed.release 0 0).setPhase 0 (.committed 0)

def sampleActions : List Action :=
  [.begin 0 .update 0, .get 0 none, .fnReturns 0 true, .commitInternal 0 true,
    .put 0]

theorem sampleCommitted_run :
    Execution (Guarded NoPendingGet Step) State.start sampleActions
      sampleCommitted := by
  have unlocked : State.start.Unlocked 0 .update :=
    fun _ txn bound => absurd bound (Nat.not_lt_zero txn)
  have first : Step (.begin 0 .update 0) State.start sampleBegun :=
    .begin rfl unlocked
  have second : Step (.get 0 none) sampleBegun sampleRunning := .get rfl .new
  have fourth : Step (.commitInternal 0 true)
      (sampleRunning.setPhase 0 (.committing 0)) sampleClosed :=
    .commit rfl rfl rfl (List.Perm.refl _)
  have fifth : Step (.put 0) sampleClosed sampleCommitted := .put rfl
  exact .cons ⟨trivial, first⟩ (.cons ⟨fun _ same => (nomatch same), second⟩
    (.cons ⟨trivial, .fnCommits rfl⟩ (.cons ⟨trivial, fourth⟩
      (.cons ⟨trivial, fifth⟩ (.nil _)))))

def takenAgain : State :=
  ((((sampleCommitted.beginTxn 1 0 false).setPhase 1 (.begun .update 1)).take
    0).setup 1 0 1).setPhase 1 (.running .update 0)

def closedAgain : State :=
  ((takenAgain.setPhase 1 (.committing 0)).closeTxn 1).setPhase 1
    (.committingChildren 0 [])

/-- The deferred rollback of the first call comes between the internal commit
and the `Put` of the second. -/
def putTwice : State :=
  ((((closedAgain.rollback 0 0).setPhase 0 .finished).release 1 0).setPhase 1
    (.committed 0))

theorem takenAgain_run :
    Execution Step sampleCommitted [.begin 1 .update 0, .get 1 (some 0)]
      takenAgain := by
  have unlocked : sampleCommitted.Unlocked 0 .update := by
    intro _ txn bound _ _
    obtain rfl : txn = 0 := Nat.lt_one_iff.mp bound
    rfl
  have second : Step (.get 1 (some 0))
      ((sampleCommitted.beginTxn 1 0 false).setPhase 1 (.begun .update 1))
      takenAgain := .get rfl (.pooled List.mem_cons_self)
  exact .cons (.begin rfl unlocked) (.cons second (.nil _))

theorem putTwice_run :
    Execution Step takenAgain [.fnReturns 1 true, .commitInternal 1 true,
      .rollback 0, .put 1] putTwice := by
  have second : Step (.commitInternal 1 true)
      (takenAgain.setPhase 1 (.committing 0)) closedAgain :=
    .commit rfl rfl rfl (List.Perm.refl _)
  exact .cons (.fnCommits rfl) (.cons second
    (.cons (.rollbackCommitted rfl) (.cons (.put rfl) (.nil _))))

end CocoDB.HandlePool
