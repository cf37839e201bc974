import CocoDB.Maintenance.Expiry
import Mathlib.Data.List.TakeWhile

/-!
# Histories of expiration

The life of a key with a time to live, over all histories of puts and passes.  A
pass keeps to it if the entries that it finds are not those of overwritten keys,
and if the clock shows the time of each entry when the entry is removed.
-/

namespace CocoDB

open Lib Index LawfulKernel
open BTree (LeafItem)

/-! ## The life of a key -/

/-- The passes have only deleted keys whose last `Put` had run out. -/
def Justified : List Past → Prop
  | [] => True
  | .put _ _ _ :: rest => Justified rest
  | .pass now items :: rest =>
      (∀ item ∈ items, ∃ expireAt,
        latest item.objectID item.keyOrID rest = some (some expireAt) ∧
          expireAt ≤ now.toInt) ∧ Justified rest

namespace Life

variable {σ : Type} [Kernel σ]

/-- The cursor of the index reaches what `Search` finds. -/
def Reaches (life : Life σ) : Prop :=
  ∀ {key value : Bytes} {pairs : List (Bytes × Bytes)},
    (Kernel.search key life.state.index life.state.kernel).1 =
      .ok (some value) →
    (Kernel.scan life.state.index life.state.kernel).1 = .ok pairs →
    (key, value) ∈ pairs

/-- Keys are deleted when they have run out, `FindExpired` finds those that have
and were not processed, and a pass takes the entries out that it processes. -/
structure Lifecycle (life : Life σ) : Prop where
  justified : Justified life.log
  found : life.Reaches → ∀ {id : UInt64} {key : Bytes} {expireAt limit : Int}
    {now : Int64} {pairs : List (Bytes × Bytes)},
    pending id key life.log = some expireAt → expireAt ≤ now.toInt →
    (Kernel.scan life.state.index life.state.kernel).1 = .ok pairs →
    (pairs.length : Int) ≤ limit →
    ∃ items, (TTLIndex.findExpired now limit life.state.index
        life.state.kernel).1 = .ok items ∧
      ∃ item ∈ items, item.objectID = id ∧ item.keyOrID = key
  gone : ∀ {now : Int64} {items : List ExpiredItem} {rest : List Past},
    life.log = .pass now items :: rest → ∀ item ∈ items,
      (Kernel.search item.indexKey life.state.index life.state.kernel).1 =
        .ok none ∧
      ∀ {later : Int64} {limit : Int} {others : List ExpiredItem},
        (TTLIndex.findExpired later limit life.state.index
          life.state.kernel).1 = .ok others → item ∉ others

/-! ## Histories that keep to it -/

/-- The clock shows the time of each of the first hundred entries that has run
out when the entry is removed, and the last `Put` of its key has run out. -/
def Punctual (clock : Nat → Int64) (life : Life σ) : Prop :=
  ∀ {pairs : List (Bytes × Bytes)} {place : Nat} {entry : Expiration}
    {value : Bytes},
    (Kernel.scan life.state.index life.state.kernel).1 = .ok pairs →
    place < 100 → pairs[place]? = some (entry.indexKey, value) →
    entry.expireAt ≤ clock 0 →
    entry.expireAt = clock (place + 1) ∧
      ∃ last, latest entry.objectID entry.keyOrID life.log =
        some (some last) ∧ last ≤ (clock 0).toInt

/-- A call of `Put` fails without a trace or succeeds, and its expiration can be
represented and entered.  A pass is punctual. -/
def Meets (life : Life σ) : LifeEvent → Prop
  | .put now id key value ttl =>
      (∃ cause,
        Kernel.insert key value (life.state.treeOf id) life.state.kernel =
          (.error cause, life.state.treeOf id, life.state.kernel)) ∨
        ∃ tree next,
          Kernel.insert key value (life.state.treeOf id) life.state.kernel =
            (.ok (), tree, next) ∧
          (0 < ttl → now.toInt + ttl.toInt < 2 ^ 63 ∧
            (TTLIndex.add (Int64.ofInt (now.toInt + ttl.toInt)) id key
              life.state.index next).1 = .ok ())
  | .runOnce clock => life.Punctual clock

/-! ## What every event keeps -/

/-- What holds after every event, next to the leaves of the index. -/
structure Keeps [LawfulKernel σ] (life : Life σ) (spare : Nat)
    (leaves : Leaves) : Prop where
  backed : life.state.Backed spare leaves
  entered : Expiry.Entered leaves life.log
  justified : Justified life.log
  gone : ∀ {now items rest}, life.log = .pass now items :: rest →
    ∀ item ∈ items, leaves.keyMap item.indexKey = none

section Steps

variable [OrderedKernel σ] {life : Life σ} {spare : Nat} {leaves : Leaves}

theorem mem_found {entries : List Expiration} {now : Int64}
    {item : ExpiredItem}
    (visited : leaves.reach.map LeafItem.key =
      entries.map Expiration.indexKey)
    {place : Nat}
    (found : (Expiry.found now leaves)[place]? = some item) :
    ∃ entry, item = entry.item ∧ entry.expireAt ≤ now ∧ place < 100 ∧
      entries[place]? = some entry := by
  rw [Expiry.found, visited, Expiration.collectExpired_eq, List.nil_append,
    List.getElem?_map, Option.map_eq_some_iff] at found
  obtain ⟨entry, listed, rfl⟩ := found
  rw [List.getElem?_take] at listed
  split at listed
  · next below =>
      have due := List.mem_takeWhile_imp (List.mem_of_getElem? listed)
      obtain ⟨rest, whole⟩ :=
        @List.takeWhile_prefix _ entries (Expiration.due now)
      obtain ⟨short, _⟩ := List.getElem?_eq_some_iff.mp listed
      refine ⟨entry, rfl, by simpa [Expiration.due] using due,
        by simpa using below, ?_⟩
      rw [← whole, List.getElem?_append_left short]
      exact listed
  · cases listed

theorem Keeps.visits (keeps : life.Keeps spare leaves) :
    (Kernel.scan life.state.index life.state.kernel).1 =
      .ok (leaves.reach.map fun item => (item.key, item.value)) := by
  obtain ⟨shelf, records, _, _, holds⟩ := keeps.backed
  exact (scan_spec holds).1

theorem Keeps.searches (keeps : life.Keeps spare leaves) (key : Bytes) :
    (Kernel.search key life.state.index life.state.kernel).1 =
      .ok (leaves.keyMap key) := by
  obtain ⟨shelf, records, _, _, holds⟩ := keeps.backed
  exact (search_spec key holds).1

theorem Keeps.punctual (keeps : life.Keeps spare leaves)
    {clock : Nat → Int64} (punctual : life.Punctual clock) {place : Nat}
    {item : ExpiredItem}
    (found : (Expiry.found (clock 0) leaves)[place]? = some item) :
    item.indexKey = makeKey (clock (place + 1)) item.objectID item.keyOrID ∧
      ∃ last, latest item.objectID item.keyOrID life.log =
        some (some last) ∧ last ≤ (clock 0).toInt := by
  obtain ⟨entries, visited⟩ := keeps.entered.entries
  obtain ⟨entry, rfl, due, below, listed⟩ := mem_found visited found
  have key : (leaves.reach.map LeafItem.key)[place]? =
      some entry.indexKey := by
    rw [visited, List.getElem?_map, listed]
    rfl
  rw [List.getElem?_map, Option.map_eq_some_iff] at key
  obtain ⟨stored, placed, same⟩ := key
  have pair : (leaves.reach.map fun item => (item.key, item.value))[place]? =
      some (entry.indexKey, stored.value) := by
    rw [List.getElem?_map, placed, ← same]
    rfl
  obtain ⟨shown, last⟩ := punctual keeps.visits below pair due
  refine ⟨?_, last⟩
  rw [← shown]
  rfl

theorem Keeps.runOnce (keeps : life.Keeps spare leaves) {clock : Nat → Int64}
    (punctual : life.Punctual clock) :
    ∃ left, (life.perform (.runOnce clock)).Keeps spare left := by
  obtain ⟨processed, left, backed, maps⟩ := keeps.backed.runOnce clock
  refine ⟨left, backed, ?_, ?_, ?_⟩
  · exact keeps.entered.pass (by rw [processed]; exact maps)
  · rw [perform, processed]
    refine ⟨?_, keeps.justified⟩
    intro item member
    obtain ⟨place, found⟩ := List.getElem?_of_mem member
    exact (keeps.punctual punctual found).2
  · intro now items rest log item member
    rw [perform, processed] at log
    cases log
    obtain ⟨place, found⟩ := List.getElem?_of_mem member
    rw [maps, if_pos]
    refine Expiry.mem_removedKeys.mpr ⟨place, item, found, ?_⟩
    exact (keeps.punctual punctual found).1

theorem Keeps.put (keeps : life.Keeps (spare + 2) leaves) {now ttl : Int64}
    {id : UInt64} {key value : Bytes}
    (meets : life.Meets (.put now id key value ttl)) :
    ∃ left, (life.perform (.put now id key value ttl)).Keeps spare left := by
  rcases meets with ⟨cause, failed⟩ | ⟨tree, next, stored, fits⟩
  · -- the call is refused and is no part of the history
    obtain ⟨own, others, records, holds, back⟩ := keeps.backed.focus id
    have done : life.state.put now id key value ttl = (.error cause,
        life.state.setTree id (life.state.treeOf id) life.state.kernel) := by
      rw [Expiry.put, failed]
    rw [perform, done]
    exact ⟨leaves, (back holds).fewer (by omega), keeps.entered,
      keeps.justified, keeps.gone⟩
  · have backed := Expiry.Backed.insert (keeps.backed.fewer (Nat.le_refl _))
      stored
    by_cases timed : 0 < ttl
    · obtain ⟨represented, entered⟩ := fits timed
      have done : life.state.put now id key value ttl = (.ok (),
          (life.state.setTree id tree next).schedule
            (Int64.ofInt (now.toInt + ttl.toInt)) id key) := by
        rw [Expiry.put, stored]
        simp only [if_pos timed]
      obtain ⟨changed, puts, after⟩ := backed.schedule entered
      have exactly : (Int64.ofInt (now.toInt + ttl.toInt)).toInt =
          now.toInt + ttl.toInt := by
        have positive := Int64.lt_iff_toInt_lt.mp timed
        have low := now.le_toInt
        apply Int64.toInt_ofInt_of_le
        · have zero : (0 : Int64).toInt = 0 := rfl
          omega
        · exact represented
      rw [perform, done]
      simp only [if_pos timed]
      exact ⟨changed, after, keeps.entered.put exactly puts,
        keeps.justified, nofun⟩
    · have done : life.state.put now id key value ttl = (.ok (),
          life.state.setTree id tree next) := by
        rw [Expiry.put, stored]
        simp only [if_neg timed]
      rw [perform, done]
      simp only [if_neg timed]
      exact ⟨leaves, backed.fewer (by omega), keeps.entered.put_plain id key,
        keeps.justified, nofun⟩

/-! ## What follows -/

theorem mem_takeWhile_due {entries : List Expiration} {now : Int64}
    (sorted : entries.Pairwise fun one two => one.indexKey < two.indexKey)
    {entry : Expiration} (member : entry ∈ entries)
    (due : entry.expireAt ≤ now) :
    entry ∈ entries.takeWhile (Expiration.due now) := by
  induction entries with
  | nil => cases member
  | cons first rest inductionHypothesis =>
      obtain ⟨before, later⟩ := List.pairwise_cons.mp sorted
      have firstDue : Expiration.due now first = true := by
        rw [Expiration.due, decide_eq_true_eq]
        cases List.mem_cons.mp member with
        | inl same => exact same ▸ due
        | inr other =>
            exact Int64.le_trans
              (Expiration.expireAt_le (before entry other)) due
      rw [List.takeWhile_cons_of_pos firstDue]
      cases List.mem_cons.mp member with
      | inl same => exact List.mem_cons.mpr (.inl same)
      | inr other =>
          exact List.mem_cons_of_mem _ (inductionHypothesis later other)

theorem Keeps.finds (keeps : life.Keeps spare leaves) (now : Int64)
    (limit : Int) :
    ∃ entries : List Expiration,
      leaves.reach.map LeafItem.key = entries.map Expiration.indexKey ∧
      (entries.Pairwise fun one two => one.indexKey < two.indexKey) ∧
      (TTLIndex.findExpired now limit life.state.index
        life.state.kernel).1 = .ok (((entries.takeWhile
          (Expiration.due now)).take limit.toNat).map Expiration.item) := by
  obtain ⟨entries, visited⟩ := keeps.entered.entries
  obtain ⟨found, _⟩ := keeps.backed.findExpired now limit
  obtain ⟨shelf, records, _, _, holds⟩ := keeps.backed
  have sorted := (OrderedKernel.sorted holds).sublist
    (Expiry.reach_sublist leaves)
  refine ⟨entries, visited, ?_, ?_⟩
  · rw [← List.pairwise_map (f := Expiration.indexKey), ← visited,
      List.pairwise_map]
    exact sorted
  · rw [found, visited, Expiration.collectExpired_eq]
    simp

theorem Keeps.found (keeps : life.Keeps spare leaves)
    (reaches : life.Reaches) {id : UInt64} {key : Bytes}
    {expireAt limit : Int} {now : Int64} {pairs : List (Bytes × Bytes)}
    (waits : pending id key life.log = some expireAt)
    (due : expireAt ≤ now.toInt)
    (scans : (Kernel.scan life.state.index life.state.kernel).1 = .ok pairs)
    (enough : (pairs.length : Int) ≤ limit) :
    ∃ items, (TTLIndex.findExpired now limit life.state.index
        life.state.kernel).1 = .ok items ∧
      ∃ item ∈ items, item.objectID = id ∧ item.keyOrID = key := by
  obtain ⟨entries, visited, sorted, found⟩ := keeps.finds now limit
  obtain ⟨represented, listed⟩ := keeps.entered.waits waits
  obtain ⟨value, known⟩ := Option.ne_none_iff_exists'.mp listed
  have pair := reaches (by rw [keeps.searches, known]) scans
  rw [keeps.visits] at scans
  cases scans
  rw [List.length_map] at enough
  have length := congrArg List.length visited
  rw [List.length_map, List.length_map] at length
  have member : (⟨Int64.ofInt expireAt, id, key⟩ : Expiration) ∈ entries := by
    have keyed := List.mem_map_of_mem (f := Prod.fst) pair
    rw [List.map_map] at keyed
    have among : makeKey (Int64.ofInt expireAt) id key ∈
        entries.map Expiration.indexKey := by
      rw [← visited]
      exact keyed
    obtain ⟨entry, listed, same⟩ := List.mem_map.mp among
    have whole : entry = ⟨Int64.ofInt expireAt, id, key⟩ :=
      Expiration.indexKey_injective same
    exact whole ▸ listed
  have runOut : Int64.ofInt expireAt ≤ now := by
    rw [Int64.le_iff_toInt_le, represented]
    exact due
  have first := mem_takeWhile_due sorted member runOut
  have short := (List.takeWhile_sublist (l := entries)
    (Expiration.due now)).length_le
  refine ⟨_, found, Expiration.item ⟨Int64.ofInt expireAt, id, key⟩, ?_, rfl,
    rfl⟩
  apply List.mem_map_of_mem
  rw [List.take_of_length_le (by omega)]
  exact first

theorem Keeps.gone_for_good (keeps : life.Keeps spare leaves)
    {item : ExpiredItem} (gone : leaves.keyMap item.indexKey = none)
    {later : Int64} {limit : Int} {others : List ExpiredItem}
    (finds : (TTLIndex.findExpired later limit life.state.index
      life.state.kernel).1 = .ok others) : item ∉ others := by
  obtain ⟨entries, visited, _, found⟩ := keeps.finds later limit
  rw [found] at finds
  cases finds
  intro member
  obtain ⟨entry, listed, rfl⟩ := List.mem_map.mp member
  have known := List.mem_map_of_mem (f := Expiration.indexKey)
    ((List.takeWhile_sublist _).mem (List.mem_of_mem_take listed))
  rw [← visited] at known
  obtain ⟨stored, reached, same⟩ := List.mem_map.mp known
  obtain ⟨value, kept⟩ :=
    Expiry.keyMap_of_mem ((Expiry.reach_sublist leaves).mem reached)
  rw [same] at kept
  have missing : leaves.keyMap entry.indexKey = none := gone
  rw [missing] at kept
  cases kept

theorem Keeps.lifecycle (keeps : life.Keeps spare leaves) :
    life.Lifecycle where
  justified := keeps.justified
  found := keeps.found
  gone log item member := by
    have missing := keeps.gone log item member
    refine ⟨by rw [keeps.searches, missing], ?_⟩
    exact keeps.gone_for_good missing

/-! ## Passes that are not punctual -/

theorem getElem?_takeWhile_due {entries : List Expiration} {now : Int64}
    (sorted : entries.Pairwise fun one two => one.indexKey < two.indexKey)
    {place : Nat} {entry : Expiration}
    (listed : entries[place]? = some entry) (due : entry.expireAt ≤ now) :
    (entries.takeWhile (Expiration.due now))[place]? = some entry := by
  induction entries generalizing place with
  | nil => cases listed
  | cons first rest inductionHypothesis =>
      obtain ⟨before, later⟩ := List.pairwise_cons.mp sorted
      have member := List.mem_of_getElem? listed
      have firstDue : Expiration.due now first = true := by
        rw [Expiration.due, decide_eq_true_eq]
        cases List.mem_cons.mp member with
        | inl same => exact same ▸ due
        | inr other =>
            exact Int64.le_trans
              (Expiration.expireAt_le (before entry other)) due
      rw [List.takeWhile_cons_of_pos firstDue]
      cases place with
      | zero => exact listed
      | succ place => exact inductionHypothesis later listed

/-- If a pass has taken its entries out and its clock has not gone back, it was
punctual. -/
theorem Keeps.punctual_of_lifecycle (keeps : life.Keeps spare leaves)
    {clock : Nat → Int64} (onward : ∀ turn, clock 0 ≤ clock turn)
    (lawful : (life.perform (.runOnce clock)).Lifecycle) :
    life.Punctual clock := by
  obtain ⟨entries, visited, sorted, _⟩ := keeps.finds (clock 0) 100
  obtain ⟨processed, left, backed, maps⟩ := keeps.backed.runOnce clock
  have searches : ∀ key, (Kernel.search key
      (life.state.runOnce clock).2.index
      (life.state.runOnce clock).2.kernel).1 = .ok (left.keyMap key) := by
    intro key
    obtain ⟨shelf, records, _, _, holds⟩ := backed
    exact (search_spec key holds).1
  have items : Expiry.found (clock 0) leaves = ((entries.takeWhile
      (Expiration.due (clock 0))).take 100).map Expiration.item := by
    rw [Expiry.found, visited, Expiration.collectExpired_eq]
    simp
  -- every entry of the pass ran out when the pass began
  have shown : ∀ {place entry}, place < 100 → entries[place]? = some entry →
      entry.expireAt ≤ clock 0 → ∃ turn other,
        (Expiry.found (clock 0) leaves)[turn]? = some other ∧
        entry.indexKey = makeKey (clock (turn + 1)) other.objectID
          other.keyOrID := by
    intro place entry below listed due
    have first := getElem?_takeWhile_due sorted listed due
    have member : entry.item ∈ Expiry.found (clock 0) leaves := by
      rw [items]
      apply List.mem_map_of_mem
      apply List.mem_of_getElem? (i := place)
      rw [List.getElem?_take, if_pos below]
      exact first
    have gone := (lawful.gone (by rw [perform, processed]) _ member).1
    rw [perform] at gone
    simp only at gone
    rw [searches, maps] at gone
    have known := List.mem_map_of_mem (f := Expiration.indexKey)
      (List.mem_of_getElem? listed)
    rw [← visited] at known
    obtain ⟨stored, reached, same⟩ := List.mem_map.mp known
    obtain ⟨value, kept⟩ :=
      Expiry.keyMap_of_mem ((Expiry.reach_sublist leaves).mem reached)
    rw [same] at kept
    have removed : entry.indexKey ∈ Expiry.removedKeys
        (Expiry.found (clock 0) leaves) fun turn => clock (turn + 1) := by
      by_contra spared
      have asBefore : entry.item.indexKey = entry.indexKey := rfl
      rw [asBefore, if_neg spared, kept] at gone
      cases gone
    exact Expiry.mem_removedKeys.mp removed
  have began : ∀ {place entry}, place < 100 → entries[place]? = some entry →
      entry.expireAt ≤ clock 0 → entry.expireAt = clock 0 := by
    intro place entry below listed due
    obtain ⟨turn, other, _, same⟩ := shown below listed due
    have whole : entry =
        ⟨clock (turn + 1), other.objectID, other.keyOrID⟩ :=
      Expiration.indexKey_injective same
    apply Int64.le_antisymm due
    rw [whole]
    exact onward (turn + 1)
  have distinct : entries.Nodup := sorted.imp fun before same => by
    rw [same] at before
    exact absurd before (List.lt_irrefl _)
  intro pairs place entry value scans below pair due
  have listed : entries[place]? = some entry := by
    rw [keeps.visits] at scans
    cases scans
    have keyed := congrArg (Option.map Prod.fst) pair
    rw [← List.getElem?_map, List.map_map] at keyed
    have among : (entries.map Expiration.indexKey)[place]? =
        some entry.indexKey := by
      rw [← visited]
      exact keyed
    rw [List.getElem?_map, Option.map_eq_some_iff] at among
    obtain ⟨stored, there, same⟩ := among
    rw [there, Expiration.indexKey_injective same]
  constructor
  · obtain ⟨turn, other, found, same⟩ := shown below listed due
    obtain ⟨second, rfl, secondDue, early, there⟩ := mem_found visited found
    have whole : entry =
        ⟨clock (turn + 1), second.objectID, second.keyOrID⟩ :=
      Expiration.indexKey_injective same
    have equal : entry = second := by
      have time := (began below listed due).trans
        (began early there secondDue).symm
      rw [whole] at time ⊢
      simp only at time
      rw [time]
    rw [equal, ← there] at listed
    have places := (List.getElem?_inj (List.getElem?_eq_some_iff.mp
      (listed.trans there)).1 distinct).mp listed
    rw [places, whole]
  · have justified := lawful.justified
    rw [perform, processed] at justified
    apply justified.1 entry.item
    rw [items]
    apply List.mem_map_of_mem
    apply List.mem_of_getElem? (i := place)
    rw [List.getElem?_take, if_pos below]
    exact getElem?_takeWhile_due sorted listed due

end Steps

section Runs

variable [OrderedKernel σ]

/-- A database that has just been opened, whose TTL index is empty. -/
structure Opened (life : Life σ) (spare : Nat) : Prop where
  log : life.log = []
  backed : life.state.Backed spare []

def Next (event : LifeEvent) (life after : Life σ) : Prop :=
  after = life.perform event

theorem Opened.keeps {life : Life σ} {spare : Nat}
    (opened : life.Opened spare) : life.Keeps spare [] := by
  obtain ⟨log, backed⟩ := opened
  refine ⟨backed, ?_, ?_, ?_⟩
  · rw [log]
    exact ⟨nofun, nofun⟩
  · rw [log]
    trivial
  · rw [log]
    exact nofun

theorem Keeps.run {start final : Life σ} {events : List LifeEvent}
    (runs : Execution (Guarded (fun event life => life.Meets event) Next)
      start events final) {leaves : Leaves} {spare : Nat}
    (keeps : start.Keeps (2 * events.length + spare) leaves) :
    ∃ left, final.Keeps spare left := by
  induction runs generalizing leaves with
  | nil life =>
      rw [List.length_nil, Nat.mul_zero, Nat.zero_add] at keeps
      exact ⟨leaves, keeps⟩
  | @cons event rest life next final first _ inductionHypothesis =>
      obtain ⟨meets, rfl⟩ := first
      rw [List.length_cons] at keeps
      have roomy : life.Keeps (2 * rest.length + spare + 2) leaves :=
        ⟨keeps.backed.fewer (by omega), keeps.entered, keeps.justified,
          keeps.gone⟩
      cases event with
      | put now id key value ttl =>
          obtain ⟨left, kept⟩ := roomy.put meets
          exact inductionHypothesis kept
      | runOnce clock =>
          obtain ⟨left, kept⟩ := roomy.runOnce meets
          exact inductionHypothesis ⟨kept.backed.fewer (by omega),
            kept.entered, kept.justified, kept.gone⟩

/-- In a history whose calls of `Put` are represented and entered and whose
passes are punctual, keys are deleted when they have run out, found once they
have, and taken out of the index when they are processed.  Only a punctual pass
keeps to this. -/
theorem lifecycle_runs {start final : Life σ} {events : List LifeEvent}
    (opened : start.Opened (2 * events.length))
    (runs : Execution (Guarded (fun event life => life.Meets event) Next)
      start events final) :
    final.Lifecycle ∧ ∀ {clock : Nat → Int64},
      (∀ turn, clock 0 ≤ clock turn) →
      ((final.perform (.runOnce clock)).Lifecycle ↔
        final.Punctual clock) := by
  have keeps := opened.keeps
  rw [← Nat.add_zero (2 * events.length)] at keeps
  obtain ⟨left, kept⟩ := keeps.run runs
  refine ⟨kept.lifecycle, fun onward => ⟨?_, fun punctual => ?_⟩⟩
  · exact kept.punctual_of_lifecycle onward
  · obtain ⟨later, kept⟩ := kept.runOnce punctual
    exact kept.lifecycle

end Runs

/-! ## A database in memory -/

def newLife : Life Memory := ⟨⟨[], [], Memory.empty⟩, []⟩

theorem newLife_opened : newLife.Opened 4 := by
  refine ⟨rfl, [], fun _ => none, rfl, List.nodup_nil, ?_⟩
  refine ⟨?_, rfl, nofun, by decide⟩
  intro entry member
  rw [List.mem_singleton.mp member]
  exact ⟨.inr ⟨rfl, rfl⟩, List.Pairwise.nil⟩

/-- The key `k` of the bucket 1 is put for ten nanoseconds. -/
def putTen : LifeEvent := .put 0 1 [0x6B] [0x76] 10

theorem putTen_meets : newLife.Meets putTen :=
  .inr ⟨_, _, rfl, fun _ => ⟨by decide, rfl⟩⟩

theorem putTen_punctual :
    (newLife.perform putTen).Meets (.runOnce fun _ => 10) := by
  rw [Meets]
  intro pairs place entry value scans _ pair _
  have only : pairs = [(makeKey 10 1 [0x6B], [1])] := by
    cases scans
    decide
  rw [only] at pair
  cases place with
  | succ place => cases pair
  | zero =>
      have key : (⟨10, 1, [0x6B]⟩ : Expiration).indexKey = entry.indexKey :=
        congrArg Prod.fst (Option.some.inj pair)
      rw [← Expiration.indexKey_injective key]
      exact ⟨rfl, 10, rfl, by decide⟩

/-- A pass while the clock shows the time of the key. -/
theorem lifecycle_ten :
    ((newLife.perform putTen).perform (.runOnce fun _ => 10)).Lifecycle :=
  (lifecycle_runs newLife_opened (.cons ⟨putTen_meets, rfl⟩
    (.cons ⟨@putTen_punctual, rfl⟩ (.nil _)))).1

/-- The key is put again, for good, and a pass follows when the first time has
run out. -/
def overwritten : Life Memory :=
  ((newLife.perform putTen).perform
    (.put 1 1 [0x6B] [0x77] 0)).perform (.runOnce fun _ => 20)

/-- The pass deletes the key, which was put for good, and leaves the entry in the
index. -/
theorem overwritten_deleted :
    latest 1 [0x6B] overwritten.log = some none ∧
      (Kernel.search [0x6B] (overwritten.state.treeOf 1)
        overwritten.state.kernel).1 = .ok none ∧
      (Kernel.search (makeKey 10 1 [0x6B]) overwritten.state.index
        overwritten.state.kernel).1 = .ok (some [1]) ∧
      ¬ overwritten.Lifecycle := by
  have log : overwritten.log = [.pass 20 [⟨1, [0x6B], makeKey 10 1 [0x6B]⟩],
      .put 1 [0x6B] none, .put 1 [0x6B] (some 10)] := by
    rfl
  refine ⟨by rw [log]; rfl, rfl, rfl, ?_⟩
  intro lawful
  have justified := lawful.justified
  rw [log] at justified
  obtain ⟨expireAt, last, _⟩ := justified.1 _ List.mem_cons_self
  cases last

end Life

end CocoDB
