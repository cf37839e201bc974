import CocoDB.BTree.CursorSpec
import CocoDB.Queue.Mirror

/-!
# Restarts

An engine that is built on the tree of an earlier one reads its messages back.
The earlier engine discarded the errors of its tree, and its dead-letter engine
had no tree at all.
-/

namespace CocoDB.Queue

open Lib
open BTree (TreeOp LeafItem Cursor Supplied Fitting Reached)

/-! ## `restoreFromTree` -/

/-- A message as it goes into the heap: a worker that had it is gone. -/
def restored (now : Int64) (message : Message) : Message :=
  if message.state = .invisible then
    { message with state := .ready, visibleAt := now }
  else message

def readItem (clock : LeafItem → Int64) (item : LeafItem) : Option Message :=
  match decodeMessage item.value with
  | .error _ => none
  | .ok message => some (restored (clock item) message)

section Restore

variable {τ : Type}

def Engine.restoreItem (clock : LeafItem → Int64) (engine : Engine τ)
    (item : LeafItem) : Engine τ :=
  match readItem clock item with
  | none => engine
  | some message => engine.pushReady message

theorem restoreItem_heap (clock : LeafItem → Int64)
    (engine : Engine τ) (items : List LeafItem) :
    (items.foldl (Engine.restoreItem clock) engine).readyHeap.Perm
      (items.filterMap (readItem clock) ++ engine.readyHeap) := by
  induction items generalizing engine with
  | nil => exact .refl _
  | cons item rest inductionHypothesis =>
      rw [List.foldl_cons]
      refine (inductionHypothesis _).trans ?_
      unfold Engine.restoreItem
      cases read : readItem clock item with
      | none => rw [List.filterMap_cons_none read]
      | some message =>
          rw [List.filterMap_cons_some read, List.cons_append]
          exact ((heapPush_perm _ _).append_left _).trans List.perm_middle

theorem restoreItem_rest (clock : LeafItem → Int64)
    (engine : Engine τ) (items : List LeafItem) :
    (items.foldl (Engine.restoreItem clock) engine).inFlight =
      engine.inFlight := by
  induction items generalizing engine with
  | nil => rfl
  | cons item rest inductionHypothesis =>
      rw [List.foldl_cons, inductionHypothesis]
      unfold Engine.restoreItem
      split <;> rfl

variable {σ : Type} [Pager σ]

/-- `restoreFromTree`; the clock is read at every item -/
def Engine.restoreFromTree (clock : LeafItem → Int64) (fuel : Nat)
    (engine : Engine (BTree.Tree σ)) : Option (Engine (BTree.Tree σ)) :=
  (Cursor.scanFrom (Cursor.new engine.tree).first Cursor.next
      (fun _ => false) (fun _ _ => true) fuel).map fun (items, cursor) =>
    { items.foldl (Engine.restoreItem clock) engine with tree := cursor.tree }

/-- `NewQueueEngine` of a main queue on a tree -/
def QueueEngine.reopen (name : Bytes) (cfg : Config) (tree : BTree.Tree σ)
    (clock : LeafItem → Int64) (fuel : Nat) :
    Option (QueueEngine (BTree.Tree σ)) :=
  let fresh := QueueEngine.newQueueEngine name cfg tree
  (fresh.main.restoreFromTree clock fuel).map fun main =>
    { fresh with main := main }

end Restore

section Conditions

variable {τ : Type}

def writes (call : SystemCall) (queue : QueueEngine τ) : List TreeOp :=
  ((queue.onShelf fun _ => ([] : List TreeOp)).operate call).main.tree

def Accepting {σ : Type} [Pager σ] [LawfulPager σ] (call : SystemCall)
    (queue : QueueEngine (BTree.Tree σ)) : Prop :=
  Along TreeOp.apply (fun op tree => Supplied op tree ∧ Fitting op tree)
    (writes call queue) queue.main.tree

def Countable : SystemCall → QueueEngine τ → Prop
  | .main (.enqueue request now), queue =>
      (queue.main.prepare request.message now).maxRetries < 2 ^ 32
  | _, _ => True

/-- A rebuilt engine has every accepted message that is neither acknowledged nor
expired nor dead-lettered, once and as it was, and its dead-letter engine has
every dead-lettered message that is not acknowledged there. -/
structure Restores (queue rebuilt : QueueEngine τ) : Prop where
  once : ∀ id, (rebuilt.main.readyHeap.map Message.id).count id +
      rebuilt.main.inFlight.keys.count id +
      (queue.main.listed Event.ackedID).count id +
      (queue.main.listed Event.expiredID).count id +
      (queue.main.listed Event.handedID).count id =
    (queue.main.listed Event.acceptedID).count id
  same : ∀ message ∈ rebuilt.main.readyHeap, Genuine queue.main message
  dead : ∀ id ∈ queue.main.listed Event.handedID,
    (∀ dlq, queue.dlq = some dlq → id ∉ dlq.listed Event.ackedID) →
    ∃ dlq, rebuilt.dlq = some dlq ∧ id ∈ dlq.readyHeap.map Message.id

def Settled (queue : QueueEngine τ) : Prop :=
  ∀ id ∈ queue.main.listed Event.handedID,
    ∃ dlq, queue.dlq = some dlq ∧ id ∈ dlq.listed Event.ackedID

end Conditions

/-! ## The limits of accepted messages -/

def Counted {τ : Type} (engine : Engine τ) : Prop :=
  ∀ message, .accepted message ∈ engine.log → message.maxRetries < 2 ^ 32

section Limits

variable {τ : Type} {engine after : Engine τ} {queue : QueueEngine τ}

theorem Counted.logged (counted : Counted engine) {event : Event}
    (log : after.log = event :: engine.log) (other : event.message = none) :
    Counted after := by
  intro message member
  rw [log] at member
  rcases List.mem_cons.mp member with rfl | earlier
  · cases other
  · exact counted message earlier

variable [Shelf τ]

theorem Counted.enqueue (counted : Counted engine) {message : Message}
    {now : Int64} (small : (engine.prepare message now).maxRetries < 2 ^ 32) :
    Counted (engine.enqueue message now).2 := by
  have accepts : ∀ {checked : Engine τ}, checked.log = engine.log →
      Counted (checked.accept (engine.prepare message now)) := by
    intro checked log new member
    rcases List.mem_cons.mp member with same | earlier
    · cases same
      exact small
    · exact counted new (log ▸ earlier)
  unfold Engine.enqueue
  simp only
  split
  · exact counted
  · split
    · exact counted
    · split
      · exact accepts rfl
      · exact accepts rfl

theorem Counted.lapse (counted : Counted queue.main) (now : Int64)
    (id : Bytes) (message : Message) :
    Counted (queue.lapse now ⟨id, message⟩).main := by
  apply @lapse_invariant _ _ queue (fun queue => Counted queue.main) now id
    message _ _ counted
  · intro _ _
    exact counted.logged rfl rfl
  · intro _ _
    exact counted

theorem Counted.operate (counted : Counted queue.main) {call : SystemCall}
    (countable : Countable call queue) :
    Counted (queue.operate call).main := by
  cases call with
  | dlq call => exact counted
  | main call =>
      cases call with
      | enqueue request now => exact counted.enqueue countable
      | dequeue visibilityTimeout now =>
          exact dequeue_invariant (fun holds _ _ => holds.logged rfl rfl)
            (fun holds _ => Counted.logged holds rfl rfl) counted
      | ack msgID =>
          exact ack_invariant (fun _ => counted.logged rfl rfl) counted
      | nack msgID requeue now =>
          refine @nack_invariant _ _ queue (fun queue => Counted queue.main)
            msgID requeue now ?_ ?_ counted
          · intro message _ _
            refine counted.logged rfl ?_
            cases requeue <;> rfl
          · intro message _ _
            exact counted
      | extend msgID duration now =>
          show Counted (queue.main.extend msgID duration now).2
          unfold Engine.extend
          split <;> exact counted
      | checkInFlightAndDelayed order now =>
          exact @checkInFlightAndDelayed_invariant _ _ queue
            (fun queue => Counted queue.main) order now
            (fun holds _ => Counted.lapse holds now _ _) counted

end Limits

section Run

variable {σ : Type} [Pager σ]

theorem operate_writes (queue : QueueEngine (BTree.Tree σ))
    (call : SystemCall) :
    (queue.operate call).main.tree =
      replay queue.main.tree (writes call queue) :=
  congrArg (fun queue => queue.main.tree)
    (@operate_onShelf _ _ _ _ _ (queue.onShelf fun _ => ([] : List TreeOp))
      (transports_replay queue.main.tree) call)

theorem operate_map (queue : QueueEngine (BTree.Tree σ)) (call : SystemCall)
    (map : Bytes → Option Bytes) :
    (queue.onShelf fun _ => map).operate call =
      (queue.operate call).onShelf
        fun _ => replayMap map (writes call queue) := by
  have overMap := @operate_onShelf _ _ _ _ _
    (queue.onShelf fun _ => ([] : List TreeOp)) (transports_replayMap map) call
  have overTree := @operate_onShelf _ _ _ _ _
    (queue.onShelf fun _ => ([] : List TreeOp))
    (transports_replay queue.main.tree) call
  refine overMap.trans ?_
  have back : (queue.onShelf fun _ => ([] : List TreeOp)).onShelf
      (replay queue.main.tree) = queue := rfl
  rw [back] at overTree
  rw [overTree]
  rfl

theorem replay_of_run {ops : List TreeOp} {tree : BTree.Tree σ}
    (done : (run TreeOp.apply ops tree).1 = .ok ()) :
    (run TreeOp.apply ops tree).2 = replay tree ops := by
  induction ops generalizing tree with
  | nil => rfl
  | cons op rest inductionHypothesis =>
      have first := run_cons_ok done
      rw [run_cons first] at done ⊢
      exact inductionHypothesis done

end Run

theorem expected_replay (past ops : List TreeOp) :
    BTree.expected (past ++ ops) = replayMap (BTree.expected past) ops :=
  List.foldl_append

theorem expected_admissible {past : List TreeOp}
    (admissible : ∀ op ∈ past, op.Admissible) {key value : Bytes}
    (bound : BTree.expected past key = some value) :
    value.length ≤ BTree.maxValueSize := by
  induction past using List.reverseRecOn generalizing key value with
  | nil => cases bound
  | append_singleton past op inductionHypothesis =>
      have earlier := fun op member =>
        admissible op (List.mem_append_left _ member)
      have last := admissible op (by simp)
      rw [BTree.expected_append] at bound
      cases op with
      | insert newKey newValue =>
          by_cases same : key = newKey
          · subst same
            rw [TreeOp.effect, Function.update_self] at bound
            cases bound
            exact last.2
          · rw [TreeOp.effect, Function.update_of_ne same] at bound
            exact inductionHypothesis earlier bound
      | delete newKey =>
          by_cases same : key = newKey
          · subst same
            rw [TreeOp.effect, Function.update_self] at bound
            cases bound
          · rw [TreeOp.effect, Function.update_of_ne same] at bound
            exact inductionHypothesis earlier bound

section Invariant

variable {σ : Type} [Pager σ] [LawfulPager σ]
  {queue : QueueEngine (BTree.Tree σ)}

def Grown (past : List TreeOp) (tree : BTree.Tree σ) : Prop :=
  Reached past tree ∧ ∀ op ∈ past, op.Admissible

theorem Grown.apply {past : List TreeOp} {op : TreeOp}
    {tree : BTree.Tree σ} (grown : Grown past tree)
    (meets : Supplied op tree ∧ Fitting op tree) :
    (op.apply tree).1 = .ok () ∧
      Grown (past ++ [op]) (op.apply tree).2 := by
  obtain ⟨done, reached⟩ := grown.1.apply_total meets
  refine ⟨done, reached, fun other member => ?_⟩
  rcases List.mem_append.mp member with earlier | last
  · exact grown.2 other earlier
  · rw [List.mem_singleton.mp last]
    cases op with
    | insert key value => exact meets.2.1
    | delete key => trivial

/-- The invariant of a queue on a tree: what calls left in the tree mirrors the
engine. -/
structure Stored (queue : QueueEngine (BTree.Tree σ)) : Prop where
  shelved : ∃ past, Grown past queue.main.tree ∧
    Shelved (queue.onShelf fun _ => BTree.expected past)
  counted : Counted queue.main

theorem stored_new {start : BTree.Tree σ} (missing : start.root = invalidPageID)
    (good : LawfulPager.Good start.pager) (name : Bytes) (cfg : Config) :
    Stored (QueueEngine.newQueueEngine name cfg start) := by
  refine ⟨⟨[], ⟨.none missing good, ?_⟩, sound_new name cfg _, fun id =>
    ⟨none, rfl, fun message => ⟨?_, nofun⟩⟩⟩, ?_⟩
  · intro op member
    cases member
  · rintro (⟨ready, _⟩ | flying)
    · cases ready
    · cases flying
  · intro message member
    cases member

theorem Stored.operate (stored : Stored queue) {call : SystemCall}
    (accepting : Accepting call queue) (countable : Countable call queue) :
    Stored (queue.operate call) := by
  obtain ⟨past, grown, shelved⟩ := stored.shelved
  have done := run_total (fun grown meets => grown.apply meets) grown accepting
  have after := @run_invariant _ _ _ _ _ Grown
    (fun held meets _ => (Grown.apply held meets).2) _ _ _ grown accepting done
  rw [replay_of_run done, ← operate_writes] at after
  have still := shelved.operate call
  rw [operate_map, ← expected_replay] at still
  exact ⟨⟨_, after, still⟩, stored.counted.operate countable⟩

end Invariant

section Reading

theorem encode_length (message : Message) :
    message.encode.length = 36 + (2 + message.id.length) +
      (2 + message.queue.length) + (2 + message.dedupID.length) +
      (4 + message.payload.length) := by
  unfold Message.encode prefixed
  simp only [List.length_append, message.header_length, be_length]

theorem storable_of_length {message : Message}
    (short : message.encode.length ≤ BTree.maxValueSize)
    (retries : 0 ≤ message.retryCount ∧
      message.retryCount ≤ message.maxRetries)
    (limit : message.maxRetries < 2 ^ 32) : message.Storable := by
  have length := encode_length message
  have bound : BTree.maxValueSize = 4096 := rfl
  refine ⟨?_, ?_, ?_, ?_, ?_, ?_⟩ <;> omega

variable {τ : Type} {engine : Engine τ} {clock : LeafItem → Int64}

theorem renewed_restored (now : Int64) (message : Message) :
    Renewed message (restored now message) := by
  unfold restored
  split
  · exact ⟨rfl, rfl, rfl, rfl, rfl, rfl⟩
  · exact .refl message

theorem Sound.named_of_holds (sound : Sound engine) {id : Bytes}
    {message : Message} (holds : engine.Holds id message) :
    message.id = id := by
  rcases holds with ⟨_, named⟩ | flying
  · exact named
  · exact sound.conserved.named id message flying

theorem Sound.genuine_of_holds (sound : Sound engine) {id : Bytes}
    {message : Message} (holds : engine.Holds id message) :
    Genuine engine message ∧ message.retryCount ≤ message.maxRetries := by
  rcases holds with ⟨ready, _⟩ | flying
  · obtain ⟨genuine, less⟩ := sound.ready message ready
    exact ⟨genuine, less.le⟩
  · exact sound.flying id message flying

theorem Sound.readItem_eq (sound : Sound engine) (counted : Counted engine)
    {item : LeafItem} {message : Message}
    (holds : engine.Holds item.key message)
    (written : item.value = message.encode)
    (short : item.value.length ≤ BTree.maxValueSize) :
    readItem clock item = some (restored (clock item) message) := by
  obtain ⟨⟨original, accepted, _, _, _, limit, count⟩, bound⟩ :=
    sound.genuine_of_holds holds
  have storable : message.Storable := by
    refine storable_of_length (written ▸ short) ⟨?_, bound⟩ ?_
    · rw [count]
      exact Int.natCast_nonneg _
    · rw [← limit]
      exact counted original accepted
  unfold readItem
  rw [written, decodeMessage_encode storable]

structure Lists (engine : Engine τ) (items : List LeafItem) : Prop where
  distinct : (items.map LeafItem.key).Nodup
  held : ∀ item ∈ items, ∃ message, engine.Holds item.key message ∧
    item.value = message.encode ∧ item.value.length ≤ BTree.maxValueSize
  complete : ∀ id message, engine.Holds id message →
    id ∈ items.map LeafItem.key

theorem Lists.ids_read {items visited : List LeafItem}
    (lists : Lists engine items) (sound : Sound engine)
    (counted : Counted engine) (subset : visited ⊆ items) :
    (visited.filterMap (readItem clock)).map Message.id =
      visited.map LeafItem.key := by
  induction visited with
  | nil => rfl
  | cons item rest inductionHypothesis =>
      obtain ⟨here, later⟩ := List.cons_subset.mp subset
      obtain ⟨message, holds, written, short⟩ := lists.held item here
      have read : readItem clock item = some (restored (clock item) message) :=
        sound.readItem_eq counted holds written short
      rw [List.filterMap_cons_some read, List.map_cons, List.map_cons,
        inductionHypothesis later, (renewed_restored _ message).id,
        sound.named_of_holds holds]

theorem Lists.genuine {items visited : List LeafItem}
    (lists : Lists engine items) (sound : Sound engine)
    (counted : Counted engine) (subset : visited ⊆ items)
    {message : Message}
    (member : message ∈ visited.filterMap (readItem clock)) :
    Genuine engine message := by
  obtain ⟨item, inside, read⟩ := List.mem_filterMap.mp member
  obtain ⟨old, holds, written, short⟩ := lists.held item (subset inside)
  rw [sound.readItem_eq counted holds written short] at read
  cases read
  exact (sound.genuine_of_holds holds).1.renewed (renewed_restored _ old)
    (fun _ kept => kept) rfl

theorem Lists.count_eq {items : List LeafItem} (lists : Lists engine items)
    (conserved : Conserved engine) (id : Bytes) :
    (items.map LeafItem.key).count id =
      (engine.readyHeap.map Message.id).count id +
        engine.inFlight.keys.count id := by
  have once := List.nodup_iff_count_le_one.mp conserved.distinct id
  have placed := conserved.placed id
  unfold Engine.places at placed
  by_cases held : ∃ message, engine.Holds id message
  · obtain ⟨message, holds⟩ := held
    have listed := List.count_eq_one_of_mem lists.distinct
      (lists.complete id message holds)
    rcases holds with ⟨ready, rfl⟩ | flying
    · have positive := List.count_pos_iff.mpr
        (List.mem_map_of_mem ready : message.id ∈ _)
      omega
    · have positive := List.count_pos_iff.mpr (mem_keys_of_lookup flying)
      omega
  · have absent : id ∉ items.map LeafItem.key := fun member => by
      obtain ⟨item, inside, rfl⟩ := List.mem_map.mp member
      obtain ⟨message, holds, _⟩ := lists.held item inside
      exact held ⟨message, holds⟩
    have notReady : id ∉ engine.readyHeap.map Message.id := fun member => by
      obtain ⟨message, ready, same⟩ := List.mem_map.mp member
      exact held ⟨message, .inl ⟨ready, same⟩⟩
    have notFlying : id ∉ engine.inFlight.keys := fun member => by
      obtain ⟨message, flying⟩ := Option.isSome_iff_exists.mp
        (AList.lookup_isSome.mpr member)
      exact held ⟨message, .inr flying⟩
    rw [List.count_eq_zero.mpr absent, List.count_eq_zero.mpr notReady,
      List.count_eq_zero.mpr notFlying]

end Reading

section Rebuilt

variable {σ : Type} [Pager σ] [LawfulPager σ]
  {queue : QueueEngine (BTree.Tree σ)}

omit [Pager σ] [LawfulPager σ] in
theorem Sound.ofShelf {map : Bytes → Option Bytes}
    (sound : Sound (queue.onShelf fun _ => map).main) : Sound queue.main :=
  ⟨⟨sound.conserved.placed, sound.conserved.distinct,
    sound.conserved.named⟩, sound.limit, sound.numbered, sound.ready,
    sound.flying, sound.known, sound.bounded⟩

theorem Stored.lists (stored : Stored queue) :
    ∃ height outline, BTree.Represents queue.main.tree height outline ∧
      Sound queue.main ∧ Lists queue.main outline.contents := by
  obtain ⟨⟨past, ⟨⟨height, outline, represents, same⟩, admissible⟩, sound,
    mirrored⟩, _⟩ := stored
  have sorted := represents.sorted
  refine ⟨height, outline, represents, sound.ofShelf, ?_, ?_, ?_⟩
  · exact (List.pairwise_map.mpr
      (sorted.imp fun less => less.ne) : List.Nodup _)
  · intro item member
    have bound := sorted.bindings_mem member
    rw [same] at bound
    obtain ⟨value, tree, holds⟩ := mirrored item.key
    obtain ⟨message, rfl, written⟩ :=
      Option.map_eq_some_iff.mp (tree.symm.trans bound)
    exact ⟨message, (holds message).mpr rfl, written.symm,
      expected_admissible admissible bound⟩
  · intro id message held
    obtain ⟨value, tree, holds⟩ := mirrored id
    obtain rfl := (holds message).mp held
    have bound : BTree.bindings outline.contents id =
        some message.encode := by
      rw [same]
      exact tree
    exact BTree.key_mem_of_bindings bound

/-- The engine that is built on the tree of another one: its heap has what a scan
reaches, and the rest is new. -/
theorem reopen_spec {tree : BTree.Tree σ} {height : Nat}
    {outline : BTree.Outline}
    (represents : BTree.Represents tree height outline) (name : Bytes)
    (cfg : Config) (clock : LeafItem → Int64) {fuel : Nat}
    (enough : outline.contents.length ≤ fuel) :
    ∃ rebuilt, QueueEngine.reopen name cfg tree clock fuel = some rebuilt ∧
      rebuilt.main.readyHeap.Perm
        ((BTree.reach outline.leaves).filterMap (readItem clock)) ∧
      rebuilt.main.inFlight = ∅ ∧
      ∀ dlq, rebuilt.dlq = some dlq → dlq.readyHeap = [] := by
  obtain ⟨final, scanned, _⟩ := BTree.scanFrom_all
    (fun facing => facing.advances) represents.first_new
    ((BTree.reach_length_le outline.leaves).trans enough)
  unfold QueueEngine.reopen Engine.restoreFromTree
  simp only
  have fresh : (QueueEngine.newQueueEngine name cfg tree).main.tree = tree := rfl
  rw [fresh, scanned, Option.map_some, Option.map_some]
  refine ⟨_, rfl, ?_, restoreItem_rest clock _ _, fun dlq found => ?_⟩
  · have heap := restoreItem_heap clock
      (QueueEngine.newQueueEngine name cfg tree).main
      (BTree.reach outline.leaves)
    have empty : (QueueEngine.newQueueEngine name cfg tree).main.readyHeap =
        [] := rfl
    rw [empty, List.append_nil] at heap
    exact heap
  · unfold QueueEngine.newQueueEngine at found
    simp only at found
    split at found
    · cases found
      rfl
    · cases found

/-- The rebuilt engine has everything exactly when the scan is complete and no
message is left in the dead-letter queue. -/
theorem Stored.restores_iff (stored : Stored queue) (name : Bytes)
    (cfg : Config) (clock : LeafItem → Int64) :
    ∃ enough, ∀ fuel, enough ≤ fuel →
      ∃ rebuilt, QueueEngine.reopen name cfg queue.main.tree clock fuel =
          some rebuilt ∧
        (Restores queue rebuilt ↔
          BTree.FilledFirst queue.main.tree ∧ Settled queue) := by
  obtain ⟨height, outline, represents, sound, lists⟩ := stored.lists
  refine ⟨outline.contents.length, fun fuel enough => ?_⟩
  obtain ⟨rebuilt, opened, heap, grounded, fresh⟩ :=
    reopen_spec represents name cfg clock enough
  refine ⟨rebuilt, opened, ?_⟩
  have sublist : (BTree.reach outline.leaves).Sublist outline.contents :=
    BTree.reach_sublist outline.leaves
  have ids : (rebuilt.main.readyHeap.map Message.id).Perm
      ((BTree.reach outline.leaves).map LeafItem.key) := by
    rw [← lists.ids_read sound stored.counted sublist.subset]
    exact heap.map Message.id
  have counts : ∀ id, (rebuilt.main.readyHeap.map Message.id).count id +
      rebuilt.main.inFlight.keys.count id =
        ((BTree.reach outline.leaves).map LeafItem.key).count id := by
    intro id
    rw [ids.count_eq, grounded]
    rfl
  rw [represents.filledFirst_iff]
  constructor
  · intro restores
    refine ⟨sublist.eq_of_length ?_, fun id handed => ?_⟩
    · have perm : ((BTree.reach outline.leaves).map LeafItem.key).Perm
          (outline.contents.map LeafItem.key) := by
        refine List.perm_iff_count.mpr fun id => ?_
        have once := restores.once id
        have placed := sound.conserved.placed id
        unfold Engine.places at placed
        rw [lists.count_eq sound.conserved id, ← counts id]
        omega
      have length := perm.length_eq
      rw [List.length_map, List.length_map] at length
      exact length
    · by_contra unsettled
      obtain ⟨dlq, found, member⟩ := restores.dead id handed
        fun dlq found acked => unsettled ⟨dlq, found, acked⟩
      rw [fresh dlq found] at member
      cases member
  · rintro ⟨complete, settled⟩
    refine ⟨fun id => ?_, fun message member => ?_,
      fun id handed unacked => ?_⟩
    · have placed := sound.conserved.placed id
      unfold Engine.places at placed
      rw [counts id, complete, lists.count_eq sound.conserved id]
      exact placed
    · exact lists.genuine sound stored.counted sublist.subset
        (heap.mem_iff.mp member)
    · obtain ⟨dlq, found, acked⟩ := settled id handed
      exact absurd acked (unacked dlq found)

/-- In every run whose tree accepts every write and whose limits on deliveries
fit 32 bits, an engine rebuilt from the tree holds what it should exactly when no
leaf with items stands behind an empty one and every dead-lettered message was
acknowledged. -/
theorem queue_durable_iff {start : BTree.Tree σ}
    (missing : start.root = invalidPageID)
    (good : LawfulPager.Good start.pager) {name : Bytes} {cfg : Config}
    {calls : List SystemCall} {final : QueueEngine (BTree.Tree σ)}
    (execution : Execution
      (Guarded (fun call queue => Accepting call queue ∧ Countable call queue)
        Operates) (QueueEngine.newQueueEngine name cfg start) calls final)
    (newName : Bytes) (newCfg : Config) (clock : LeafItem → Int64) :
    ∃ enough, ∀ fuel, enough ≤ fuel →
      ∃ rebuilt, QueueEngine.reopen newName newCfg final.main.tree clock fuel =
          some rebuilt ∧
        (Restores final rebuilt ↔
          BTree.FilledFirst final.main.tree ∧ Settled final) := by
  have stored : Stored final :=
    execution.invariant
      (fun holds guarded => by
        obtain ⟨⟨accepting, countable⟩, operates⟩ := guarded
        rw [operates]
        exact Stored.operate holds accepting countable)
      (stored_new missing good name cfg)
  exact stored.restores_iff newName newCfg clock

end Rebuilt

/-! ## One message -/

def newStoredQueue : QueueEngine (BTree.Tree DefaultPager) :=
  .newQueueEngine [0x71] defaultConfig BTree.newTree

theorem enqueue_accepting :
    Accepting (.main (.enqueue twice 5)) newStoredQueue := by
  have roomy := BTree.newTree_room
  refine ⟨⟨?_, ?_, .inl rfl⟩, fun _ => trivial⟩
  · show (2 : Nat) ≤ LawfulPager.room BTree.newTree.pager
    omega
  · decide

theorem queue_durable_iff_sample :
    ∃ final, Execution
        (Guarded (fun call queue => Accepting call queue ∧
          Countable call queue) Operates) newStoredQueue
        [.main (.enqueue twice 5)] final ∧
      ∃ enough, ∀ fuel, enough ≤ fuel →
        ∃ rebuilt, QueueEngine.reopen [0x71] defaultConfig final.main.tree
            (fun _ => 6) fuel = some rebuilt ∧ Restores final rebuilt := by
  have execution : Execution
      (Guarded (fun call queue => Accepting call queue ∧
        Countable call queue) Operates) newStoredQueue
      [.main (.enqueue twice 5)]
      (newStoredQueue.operate (.main (.enqueue twice 5))) :=
    .cons ⟨⟨enqueue_accepting, show (2 : Int) < 2 ^ 32 by decide⟩, rfl⟩
      (.nil _)
  refine ⟨_, execution, ?_⟩
  obtain ⟨enough, reopened⟩ := queue_durable_iff rfl BTree.newTree_good
    execution [0x71] defaultConfig fun _ => 6
  refine ⟨enough, fun fuel fueled => ?_⟩
  obtain ⟨rebuilt, opened, restores⟩ := reopened fuel fueled
  refine ⟨rebuilt, opened, restores.mpr ⟨?_, fun id handed => nomatch handed⟩⟩
  have roomy := BTree.newTree_room
  obtain ⟨_, ⟨outline, represents, _, few⟩, _⟩ :=
    @BTree.OneLeaf.insert_front _ _ _ _ _ (messageID 5 1)
      (newStoredQueue.main.prepare twice.message 5).encode
      BTree.newTree_oneLeaf (fun _ member => nomatch member) (by decide)
      (by decide) (by rw [roomy]; decide)
  refine represents.filledFirst_iff.mpr (BTree.reach_complete_iff.mpr ?_)
  match outline.leaves, few with
  | [], _ => exact .nil
  | [leaf], _ => exact List.pairwise_singleton _ _

theorem insert_refused {σ : Type} [Pager σ] {tree : BTree.Tree σ}
    {key value : Bytes} (short : key.length ≤ BTree.maxKeySize)
    (long : BTree.maxValueSize < value.length) :
    Shelf.insert key value tree = tree := by
  show (BTree.insert key value tree).2 = tree
  unfold BTree.insert
  rw [if_neg (Nat.not_lt.mpr short), if_pos long]

theorem enqueue_tree {τ : Type} [Shelf τ] {engine : Engine τ}
    {request : Request} {now : Int64} (isOpen : engine.closed = false)
    (plain : request.message.dedupID = []) :
    (engine.enqueue request.message now).2.tree =
      Shelf.insert (messageID now (engine.msgSeq + 1))
        (engine.prepare request.message now).encode engine.tree := by
  have check : engine.dedup.checkOrSet request.message.dedupID
      engine.cfg.dedupWindow now = (true, engine.dedup) := by
    rw [Deduplicator.checkOrSet, if_pos plain]
  unfold Engine.enqueue
  rw [check]
  simp only [Bool.true_eq_false, if_false, isOpen, Bool.false_eq_true]
  rfl

/-- A request whose message is longer than a value of the tree may be. -/
def huge : Request := { twice with payload := BTree.largestValue }

/-- The message is accepted, and a rebuilt engine does not have it. -/
theorem queue_not_durable :
    ∃ final, Execution Operates newStoredQueue [.main (.enqueue huge 5)]
        final ∧
      ∀ name cfg clock fuel, ∃ rebuilt,
        QueueEngine.reopen name cfg final.main.tree clock fuel =
            some rebuilt ∧
          rebuilt.main.readyHeap = [] ∧ ¬ Restores final rebuilt := by
  refine ⟨_, .cons rfl (.nil _), fun name cfg clock fuel => ?_⟩
  have refused : (newStoredQueue.operate
      (.main (.enqueue huge 5))).main.tree = BTree.newTree := by
    have payload : (newStoredQueue.main.prepare huge.message 5).payload =
        BTree.largestValue := rfl
    have long : BTree.maxValueSize <
        (newStoredQueue.main.prepare huge.message 5).encode.length := by
      have limit : BTree.maxValueSize = 4096 := rfl
      rw [encode_length, payload, BTree.largestValue_length]
      omega
    exact (enqueue_tree rfl rfl).trans (insert_refused (by decide) long)
  rw [refused]
  obtain ⟨rebuilt, opened, heap, grounded, _⟩ := reopen_spec
    (.empty rfl BTree.newTree_good) name cfg clock (Nat.zero_le fuel)
  have none : rebuilt.main.readyHeap = [] := heap.eq_nil
  refine ⟨rebuilt, opened, none, fun restores => ?_⟩
  have once := restores.once (messageID 5 1)
  rw [none, grounded] at once
  exact absurd once (by decide)

end CocoDB.Queue
