import CocoDB.Storage.Shard
import Mathlib.Data.List.Find

/-!
# The law of a cache shard

What the calls of a shard keep: its list has the entries of its map by their
last `Get` or `Put`, and only a page that is too many has an entry evicted, the
least recently used one without pins.
-/

namespace CocoDB.LinkedShard

open Lib

variable {shard : LinkedShard} {order : List Nat} {e : Nat} {id : PageID}
  {change : EntryNode → EntryNode}

/-! ## The order of the uses -/

/-- The identifiers come by their last use, the most recent first. -/
structure Recent (uses ids : List PageID) : Prop where
  used : ∀ id ∈ ids, id ∈ uses
  ordered : ids.Pairwise fun later earlier =>
    uses.idxOf later < uses.idxOf earlier

variable {uses ids : List PageID}

theorem Recent.sublist {fewer : List PageID} (recent : Recent uses ids)
    (sublist : fewer.Sublist ids) : Recent uses fewer where
  used id member := recent.used id (sublist.subset member)
  ordered := recent.ordered.sublist sublist

theorem Recent.use (recent : Recent uses ids) (fresh : id ∉ ids) :
    Recent (id :: uses) (id :: ids) where
  used other member := by
    rcases List.mem_cons.mp member with rfl | old
    · exact List.mem_cons_self
    · exact List.mem_cons_of_mem id (recent.used other old)
  ordered := by
    have shifted : ∀ other ∈ ids,
        (id :: uses).idxOf other = uses.idxOf other + 1 := by
      intro other member
      apply List.idxOf_cons_ne
      rintro rfl
      exact fresh member
    apply List.pairwise_cons.mpr
    constructor
    · intro other member
      rw [List.idxOf_cons_self, shifted other member]
      exact Nat.succ_pos _
    · apply recent.ordered.imp_of_mem
      intro later earlier laterMember earlierMember before
      rw [shifted later laterMember, shifted earlier earlierMember]
      exact Nat.succ_lt_succ before

structure Listed (shard : LinkedShard) (uses : List PageID)
    (order : List Nat) : Prop extends Shaped shard order where
  recent : Recent uses (order.map fun e => (shard.node e).id)

theorem listed_newCacheShard (capacity : Int) (node : Nat → EntryNode)
    (pages : Nat → Page) : (newCacheShard capacity node pages).Listed [] [] :=
  ⟨shaped_newCacheShard capacity node pages, ⟨by simp, List.Pairwise.nil⟩⟩

theorem Listed.setNode (listed : shard.Listed uses order) (e : Nat)
    (keepsID : ∀ entry, (change entry).id = entry.id)
    (keepsNext : ∀ entry, (change entry).next = entry.next)
    (keepsPrev : ∀ entry, (change entry).prev = entry.prev) :
    (shard.setNode e change).Listed uses order := by
  refine ⟨listed.toShaped.setNode e keepsID keepsNext keepsPrev, ?_⟩
  have ids : (order.map fun other => ((shard.setNode e change).node other).id) =
      order.map fun other => (shard.node other).id := by
    apply List.map_congr_left
    intro other _
    by_cases here : other = e
    · rw [here, setNode_self, keepsID]
    · rw [setNode_of_ne here]
  rw [ids]
  exact listed.recent

theorem Listed.miss (listed : shard.Listed uses order)
    (missing : shard.entries.lookup id = none) :
    shard.Listed (id :: uses) order := by
  refine ⟨listed.toShaped, ?_⟩
  apply (listed.recent.use _).sublist (List.sublist_cons_self id _)
  intro member
  obtain ⟨e, inOrder, same⟩ := List.mem_map.mp member
  rw [(listed.mapped id e).mpr ⟨inOrder, same⟩] at missing
  cases missing

theorem Listed.moveToHead (listed : shard.Listed uses order)
    (member : e ∈ order) :
    (shard.moveToHead e).Listed ((shard.node e).id :: uses)
      (touch e order) := by
  refine ⟨listed.toShaped.moveToHead member, ?_⟩
  have same := sameEntries_moveToHead e shard
  have ids : ((touch e order).map fun other =>
      ((shard.moveToHead e).node other).id) =
      (shard.node e).id ::
        (order.erase e).map fun other => (shard.node other).id := by
    rw [touch, List.map_cons, congrArg EntryData.id (same.data e)]
    congr 1
    exact List.map_congr_left fun other _ =>
      congrArg EntryData.id (same.data other)
  rw [ids]
  apply (listed.recent.sublist ((List.erase_sublist).map _)).use
  intro again
  obtain ⟨other, inErased, equal⟩ := List.mem_map.mp again
  obtain ⟨different, inOrder⟩ :=
    listed.laidOut.distinct.mem_erase_iff.mp inErased
  exact different (listed.injective inOrder member equal)

theorem Listed.insert (listed : shard.Listed uses order) {page : Nat}
    (missing : shard.entries.lookup (shard.pages page).header.id = none) :
    ((shard.insert page).addToHead shard.allocated).Listed
      ((shard.pages page).header.id :: uses) (shard.allocated :: order) := by
  have shaped := listed.toShaped.insert missing
  refine ⟨shaped, ?_⟩
  have same := sameEntries_addToHead shard.allocated (shard.insert page)
  have ids : ((shard.allocated :: order).map fun other =>
      (((shard.insert page).addToHead shard.allocated).node other).id) =
      (shard.pages page).header.id ::
        order.map fun other => (shard.node other).id := by
    rw [List.map_cons, congrArg EntryData.id (same.data shard.allocated)]
    simp only [LinkedShard.insert, Function.update_self]
    congr 1
    apply List.map_congr_left
    intro other member
    have different : other ≠ shard.allocated := by
      rintro rfl
      exact listed.fresh member
    rw [← LinkedShard.insert, congrArg EntryData.id (same.data other)]
    simp only [LinkedShard.insert, Function.update_of_ne different]
  rw [ids]
  apply listed.recent.use
  intro again
  obtain ⟨other, inOrder, equal⟩ := List.mem_map.mp again
  rw [(listed.mapped _ other).mpr ⟨inOrder, equal⟩] at missing
  cases missing

theorem Listed.drop (listed : shard.Listed uses order) (member : e ∈ order) :
    (shard.drop e).Listed uses (order.erase e) := by
  refine ⟨listed.toShaped.drop member, ?_⟩
  have same := sameEntries_removeEntry e shard
  have ids : ((order.erase e).map fun other =>
      ((shard.removeEntry e).node other).id) =
      (order.erase e).map fun other => (shard.node other).id :=
    List.map_congr_left fun other _ =>
      congrArg EntryData.id (same.data other)
  change Recent uses ((order.erase e).map fun other =>
    ((shard.removeEntry e).node other).id)
  rw [ids]
  exact listed.recent.sublist ((List.erase_sublist).map _)

/-! ## Eviction -/

def Holds (shard : LinkedShard) (e : Nat) : Prop :=
  shard.entries.lookup (shard.node e).id = some e

theorem Shaped.holds_iff (shaped : shard.Shaped order) :
    shard.Holds e ↔ e ∈ order := by
  rw [Holds, shaped.mapped]
  exact and_iff_left rfl

/-- Of the entries without pins, the one whose last use is the longest ago. -/
structure LeastRecent (uses : List PageID) (shard : LinkedShard)
    (e : Nat) : Prop where
  holds : shard.Holds e
  free : (shard.node e).pins = 0
  earliest : ∀ other, shard.Holds other → (shard.node other).pins = 0 →
    other ≠ e →
      uses.idxOf (shard.node other).id < uses.idxOf (shard.node e).id

theorem Listed.leastRecent (listed : shard.Listed uses order)
    (found : (order.reverse.find? fun e => (shard.node e).pins = 0) = some e) :
    shard.LeastRecent uses e := by
  obtain ⟨free, older, newer, split, busy⟩ :=
    List.find?_eq_some_iff_append.mp found
  have shape : order = newer.reverse ++ e :: older.reverse := by
    rw [← List.reverse_reverse order, split]
    simp
  have ordered := listed.recent.ordered
  rw [shape, List.map_append, List.map_cons] at ordered
  refine ⟨listed.holds_iff.mpr ?_, of_decide_eq_true free, ?_⟩
  · rw [shape]
    exact List.mem_append_right _ List.mem_cons_self
  · intro other holds free different
    have member := listed.holds_iff.mp holds
    rw [shape] at member
    rcases List.mem_append.mp member with later | here
    · exact (List.pairwise_append.mp ordered).2.2 _
        (List.mem_map_of_mem later) _ List.mem_cons_self
    · rcases List.mem_cons.mp here with same | earlier
      · exact absurd same different
      · have pinned := busy other (List.mem_reverse.mp earlier)
        rw [free] at pinned
        cases pinned

def grow (page : Nat) (shard : LinkedShard) : LinkedShard :=
  (shard.insert page).addToHead shard.allocated

theorem grow_entries (page : Nat) (shard : LinkedShard) :
    (shard.grow page).entries =
      shard.entries.insert (shard.pages page).header.id shard.allocated :=
  (sameEntries_addToHead _ _).entries

theorem grow_data (page : Nat) {e : Nat} (old : e ≠ shard.allocated) :
    ((shard.grow page).node e).toEntryData = (shard.node e).toEntryData := by
  rw [grow, (sameEntries_addToHead _ _).data e]
  simp only [LinkedShard.insert, Function.update_of_ne old]

theorem Listed.grow_victim (listed : shard.Listed uses order) {page : Nat}
    (missing : shard.entries.lookup (shard.pages page).header.id = none) :
    (shard.grow page).victim =
      order.reverse.find? fun e => (shard.node e).pins = 0 := by
  have pinned : ((shard.grow page).node shard.allocated).pins = 1 := by
    rw [grow, congrArg EntryData.pins ((sameEntries_addToHead _ _).data _)]
    simp only [LinkedShard.insert, Function.update_self]
  have busy : ¬ (1 : Int32) = 0 := by decide
  rw [grow, (listed.insert missing).victim_eq, List.reverse_cons,
    List.find?_append, ← grow, List.find?_singleton, pinned,
    decide_eq_false busy]
  simp only [Bool.false_eq_true, if_false, Option.or_none]
  apply List.find?_congr
  intro e member
  have old : e ≠ shard.allocated := by
    rintro rfl
    exact listed.fresh (List.mem_reverse.mp member)
  rw [congrArg EntryData.pins (grow_data page old)]

theorem evictOne_of_some (found : shard.victim = some e) :
    shard.evictOne = (some e, shard.drop e) := by
  have same := congrArg EntryData.id ((sameEntries_removeEntry e shard).data e)
  simp only [evictOne, found, drop, same]

theorem evictOne_of_none (missing : shard.victim = none) :
    shard.evictOne = (none, shard) := by
  simp only [evictOne, missing]

/-! ## Putting a page -/

theorem put_of_some {page : Nat}
    (found : shard.entries.lookup (shard.pages page).header.id = some e) :
    (shard.put page).1 = none ∧ (shard.put page).2.entries = shard.entries := by
  simp only [put, found, true_and]
  exact (sameEntries_moveToHead _ _).entries

theorem put_of_none {page : Nat}
    (missing : shard.entries.lookup (shard.pages page).header.id = none) :
    shard.put page =
      if shard.capacity < (shard.grow page).entries.entries.length then
        (shard.grow page).evictOne
      else (none, shard.grow page) := by
  have capacity : (shard.grow page).capacity = shard.capacity :=
    (sameEntries_addToHead _ _).capacity
  simp only [put, missing]
  rw [← grow, capacity]

/-- A new page that takes the shard over its capacity has the least recently
used free entry removed, and a page that does not has none removed. -/
structure PutsNew (uses : List PageID) (shard : LinkedShard)
    (page : Nat) : Prop where
  within : ¬ shard.capacity < (shard.grow page).entries.entries.length →
    (shard.put page).1 = none ∧
      (shard.put page).2.entries = (shard.grow page).entries
  busy : shard.capacity < (shard.grow page).entries.entries.length →
    (∀ e, shard.Holds e → (shard.node e).pins ≠ 0) →
      (shard.put page).1 = none ∧
        (shard.put page).2.entries = (shard.grow page).entries
  full : shard.capacity < (shard.grow page).entries.entries.length →
    (∃ e, shard.Holds e ∧ (shard.node e).pins = 0) →
      ∃ e, shard.LeastRecent uses e ∧ (shard.put page).1 = some e ∧
        (shard.put page).2.entries =
          (shard.grow page).entries.erase (shard.node e).id

theorem Listed.putsNew (listed : shard.Listed uses order) {page : Nat}
    (missing : shard.entries.lookup (shard.pages page).header.id = none) :
    shard.PutsNew uses page := by
  have victim := listed.grow_victim missing
  refine ⟨?_, ?_, ?_⟩
  · intro within
    rw [put_of_none missing, if_neg within]
    exact ⟨rfl, rfl⟩
  · intro full busy
    have none : (shard.grow page).victim = none := by
      rw [victim, List.find?_eq_none]
      intro e member
      have pinned := busy e
        (listed.holds_iff.mpr (List.mem_reverse.mp member))
      rwa [decide_eq_true_eq]
    rw [put_of_none missing, if_pos full, evictOne_of_none none]
    exact ⟨rfl, rfl⟩
  · rintro full ⟨free, holds, pins⟩
    cases found : order.reverse.find? fun e => (shard.node e).pins = 0 with
    | none =>
        have pinned := List.find?_eq_none.mp found free
          (List.mem_reverse.mpr (listed.holds_iff.mp holds))
        rw [pins] at pinned
        exact absurd rfl pinned
    | some e =>
        have least := listed.leastRecent found
        have old : e ≠ shard.allocated := by
          rintro rfl
          exact listed.fresh (listed.holds_iff.mp least.holds)
        refine ⟨e, least, ?_⟩
        rw [found] at victim
        rw [put_of_none missing, if_pos full, evictOne_of_some victim]
        refine ⟨rfl, ?_⟩
        simp only [LinkedShard.drop]
        rw [(sameEntries_removeEntry e _).entries,
          congrArg EntryData.id (grow_data page old)]

/-! ## Calls -/

/-- The calls of a shard, and the owners of page objects writing to them. -/
inductive Call where
  | get (id : PageID)
  | put (page : Nat)
  | pin (id : PageID)
  | unpin (id : PageID)
  | markDirty (id : PageID) (lsn : LSN)
  | remove (id : PageID)
  | store (page : Nat) (content : Page)

def Call.run (shard : LinkedShard) : Call → LinkedShard
  | get id => (shard.get id).2
  | put page => (shard.put page).2
  | pin id => (shard.pin id).2
  | unpin id => shard.unpin id
  | markDirty id lsn => shard.markDirty id lsn
  | remove id => (shard.remove id).2
  | store page content =>
      { shard with pages := Function.update shard.pages page content }

def Call.used (shard : LinkedShard) : Call → List PageID
  | get id => [id]
  | put page => [(shard.pages page).header.id]
  | _ => []

def Call.visit (state : LinkedShard × List PageID) (call : Call) :
    LinkedShard × List PageID :=
  (call.run state.1, call.used state.1 ++ state.2)

theorem Listed.get (listed : shard.Listed uses order) (id : PageID) :
    ∃ after, (shard.get id).2.Listed (id :: uses) after := by
  cases found : shard.entries.lookup id with
  | none =>
      simp only [LinkedShard.get, found]
      exact ⟨order, listed.miss found⟩
  | some e =>
      obtain ⟨member, same⟩ := listed.of_lookup found
      have pinned : (shard.setNode e fun entry =>
          { entry with pins := entry.pins + 1 }).Listed uses order :=
        listed.setNode e (fun _ => rfl) (fun _ => rfl) (fun _ => rfl)
      have moved := pinned.moveToHead member
      rw [setNode_self, same] at moved
      simp only [LinkedShard.get, found]
      exact ⟨_, moved⟩

theorem Listed.put (listed : shard.Listed uses order) (page : Nat) :
    ∃ after, (shard.put page).2.Listed
      ((shard.pages page).header.id :: uses) after := by
  cases found : shard.entries.lookup (shard.pages page).header.id with
  | none =>
      have grown := listed.insert found
      rw [← grow] at grown
      rw [put_of_none found]
      split
      · cases victim : (shard.grow page).victim with
        | none =>
            rw [evictOne_of_none victim]
            exact ⟨_, grown⟩
        | some e =>
            rw [evictOne_of_some victim]
            apply Exists.intro _ (grown.drop _)
            rw [grown.victim_eq] at victim
            exact List.mem_reverse.mp (List.mem_of_find?_eq_some victim)
      · exact ⟨_, grown⟩
  | some e =>
      obtain ⟨member, same⟩ := listed.of_lookup found
      have replaced : (shard.setNode e fun entry =>
          { entry with
            page := page, pins := entry.pins + 1
            dirty := (shard.pages page).dirty
            pageLSN := (shard.pages page).header.lsn }).Listed uses order :=
        listed.setNode e (fun _ => rfl) (fun _ => rfl) (fun _ => rfl)
      have moved := replaced.moveToHead member
      rw [setNode_self, same] at moved
      simp only [LinkedShard.put, found]
      exact ⟨_, moved⟩

theorem Listed.remove (listed : shard.Listed uses order) (id : PageID) :
    ∃ after, (shard.remove id).2.Listed uses after := by
  cases found : shard.entries.lookup id with
  | none =>
      simp only [LinkedShard.remove, found]
      exact ⟨order, listed⟩
  | some e =>
      obtain ⟨member, same⟩ := listed.of_lookup found
      have dropped := listed.drop member
      simp only [LinkedShard.drop, same] at dropped
      simp only [LinkedShard.remove, found]
      exact ⟨_, dropped⟩

theorem Listed.pages (listed : shard.Listed uses order) (pages : Nat → Page) :
    Listed { shard with pages := pages } uses order :=
  ⟨⟨listed.laidOut, listed.mapped, listed.known⟩, listed.recent⟩

theorem Listed.run (listed : shard.Listed uses order) (call : Call) :
    ∃ after, (call.run shard).Listed (call.used shard ++ uses) after := by
  cases call with
  | get id => exact listed.get id
  | put page => exact listed.put page
  | pin id =>
      apply Exists.intro order
      simp only [Call.run, pin]
      split
      · next e _ =>
          have pinned : (shard.setNode e fun entry =>
              { entry with pins := entry.pins + 1 }).Listed uses order :=
            listed.setNode e (fun _ => rfl) (fun _ => rfl) (fun _ => rfl)
          exact pinned
      · exact listed
  | unpin id =>
      apply Exists.intro order
      simp only [Call.run, unpin]
      split
      · apply listed.setNode <;> intro entry <;> split <;> rfl
      · exact listed
  | markDirty id lsn =>
      apply Exists.intro order
      simp only [Call.run, markDirty]
      split
      · next e _ =>
          have marked : (shard.setNode e fun entry =>
              { entry with dirty := true, pageLSN := lsn }).Listed
                uses order :=
            listed.setNode e (fun _ => rfl) (fun _ => rfl) (fun _ => rfl)
          exact marked.pages _
      · exact listed
  | remove id => exact listed.remove id
  | store page content => exact ⟨order, listed.pages _⟩

theorem Listed.run_holds (listed : shard.Listed uses order) {call : Call}
    (holds : shard.Holds e) (pinned : (shard.node e).pins ≠ 0)
    (notRemoved : call ≠ .remove (shard.node e).id) :
    (call.run shard).entries.lookup (shard.node e).id = some e := by
  cases call with
  | get id =>
      simp only [Call.run, LinkedShard.get]
      split
      · exact holds
      · rw [(sameEntries_moveToHead _ _).entries]
        exact holds
  | put page =>
      cases found : shard.entries.lookup (shard.pages page).header.id with
      | some old =>
          rw [Call.run, (put_of_some found).2]
          exact holds
      | none =>
          have new := listed.putsNew found
          have grown : (shard.grow page).entries.lookup (shard.node e).id =
              some e := by
            have other : (shard.node e).id ≠ (shard.pages page).header.id := by
              intro same
              rw [← same, holds] at found
              cases found
            rw [grow_entries, AList.lookup_insert_ne other]
            exact holds
          by_cases full :
              shard.capacity < (shard.grow page).entries.entries.length
          · by_cases busy :
                ∃ e, shard.Holds e ∧ (shard.node e).pins = 0
            · obtain ⟨victim, least, _, entries⟩ := new.full full busy
              have other : (shard.node e).id ≠ (shard.node victim).id := by
                intro same
                have equal : some e = some victim := by
                  rw [← holds, same]
                  exact least.holds
                rw [Option.some.inj equal] at pinned
                exact pinned least.free
              rw [Call.run, entries, AList.lookup_erase_ne other]
              exact grown
            · have all := (new.busy full fun other holds pins =>
                busy ⟨other, holds, pins⟩).2
              rw [Call.run, all]
              exact grown
          · rw [Call.run, (new.within full).2]
            exact grown
  | pin id =>
      simp only [Call.run, pin]
      split <;> exact holds
  | unpin id =>
      simp only [Call.run, unpin]
      split <;> exact holds
  | markDirty id lsn =>
      simp only [Call.run, markDirty]
      split <;> exact holds
  | remove id =>
      have other : (shard.node e).id ≠ id := by
        rintro rfl
        exact notRemoved rfl
      simp only [Call.run, LinkedShard.remove]
      split
      · next victim found =>
          change (AList.erase id (shard.removeEntry victim).entries).lookup _ =
            some e
          rw [AList.lookup_erase_ne other,
            (sameEntries_removeEntry victim shard).entries]
          exact holds
      · exact holds
  | store page content => exact holds

theorem Listed.visits (calls : List Call)
    (state : LinkedShard × List PageID)
    (listed : ∃ order, state.1.Listed state.2 order) :
    ∃ order, (calls.foldl Call.visit state).1.Listed
      (calls.foldl Call.visit state).2 order := by
  induction calls generalizing state with
  | nil => exact listed
  | cons call rest inductionHypothesis =>
      obtain ⟨order, listed⟩ := listed
      exact inductionHypothesis _ (listed.run call)

/-- The law of a shard: its list has the entries of its map by their last use,
a pinned entry stays until it is removed, and a new page that is too many has
the least recently used free entry removed and nothing else. -/
structure Lawful (uses : List PageID) (shard : LinkedShard) : Prop where
  listed : ∃ order, shard.Listed uses order
  pinned : ∀ (call : Call) (e : Nat), shard.Holds e →
    0 < (shard.node e).pins → call ≠ .remove (shard.node e).id →
      (call.run shard).entries.lookup (shard.node e).id = some e
  evicted : ∀ page e, (shard.put page).1 = some e →
    ¬ 0 < (shard.node e).pins
  putsNew : ∀ page,
    shard.entries.lookup (shard.pages page).header.id = none →
      shard.PutsNew uses page
  putsOld : ∀ page e,
    shard.entries.lookup (shard.pages page).header.id = some e →
      (shard.put page).1 = none ∧ (shard.put page).2.entries = shard.entries

theorem Listed.evicted (listed : shard.Listed uses order) {page : Nat}
    (gone : (shard.put page).1 = some e) : (shard.node e).pins = 0 := by
  cases found : shard.entries.lookup (shard.pages page).header.id with
  | some old =>
      rw [(put_of_some found).1] at gone
      cases gone
  | none =>
      have new := listed.putsNew found
      by_cases full : shard.capacity < (shard.grow page).entries.entries.length
      · by_cases busy : ∃ e, shard.Holds e ∧ (shard.node e).pins = 0
        · obtain ⟨victim, least, same, _⟩ := new.full full busy
          rw [gone] at same
          rw [Option.some.inj same]
          exact least.free
        · rw [(new.busy full fun other holds pins =>
            busy ⟨other, holds, pins⟩).1] at gone
          cases gone
      · rw [(new.within full).1] at gone
        cases gone

theorem Listed.lawful (listed : shard.Listed uses order) :
    Lawful uses shard := by
  have unpinned : ¬ (0 : Int32) < 0 := by decide
  refine ⟨⟨order, listed⟩, ?_, ?_, fun _ => listed.putsNew,
    fun _ _ => put_of_some⟩
  · intro call e holds pins notRemoved
    apply listed.run_holds holds _ notRemoved
    intro free
    rw [free] at pins
    exact unpinned pins
  · intro page e gone pins
    rw [listed.evicted gone] at pins
    exact unpinned pins

theorem lawful_visits (capacity : Int) (node : Nat → EntryNode)
    (pages : Nat → Page) (calls : List Call) :
    Lawful (calls.foldl Call.visit (newCacheShard capacity node pages, [])).2
      (calls.foldl Call.visit
        (newCacheShard capacity node pages, [])).1 := by
  obtain ⟨order, listed⟩ := Listed.visits calls
    (newCacheShard capacity node pages, [])
    ⟨[], listed_newCacheShard capacity node pages⟩
  exact listed.lawful

end CocoDB.LinkedShard
