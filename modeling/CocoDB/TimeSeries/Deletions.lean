import CocoDB.TimeSeries.Series

/-!
# Pruning a series

`PruneBefore` on the points of a collection.  It deletes what it selects under
the identifiers that the documents show, so the identifiers have to be their own,
and a leaf without entries would hide the later points from a cursor.
-/

namespace CocoDB.TimeSeries

open Lib BTree Cson CocoDB.Query Document
open Index (Runtime DocumentError encodeString)

theorem forall₂_filter {α β : Type} {rel : α → β → Prop} {items : List α}
    {others : List β} (related : List.Forall₂ rel items others)
    {keep : β → Bool} {other : β} (member : other ∈ others.filter keep) :
    ∃ item, rel item other ∧ keep other = true := by
  obtain ⟨inside, kept⟩ := List.mem_filter.mp member
  obtain ⟨item, _, shows⟩ := forall₂_left related inside
  exact ⟨item, shows, kept⟩

theorem filter_sublist {α β γ : Type} {rel : α → β → Prop} {items : List α}
    {others : List β} (related : List.Forall₂ rel items others)
    {keep : β → Bool} {first : α → γ} {second : β → γ}
    (agree : ∀ item other, rel item other → keep other = true →
      second other = first item) :
    ((others.filter keep).map second).Sublist (items.map first) := by
  induction related with
  | nil => exact List.Sublist.slnil
  | @cons item other items others head _ inductionHypothesis =>
      rw [List.filter_cons, List.map_cons]
      split
      · next kept =>
          rw [List.map_cons, agree item other head kept]
          exact inductionHypothesis.cons_cons _
      · exact inductionHypothesis.cons _

section Points

variable {σ : Type} [Kernel σ] [ReopenedKernel σ] {coll : Collection σ}
  {live : Finset Bytes}

/-- The identifiers can be deleted one after the other: each has a record of its
own, and every leaf keeps an entry unless it is the only one. -/
structure Deletable (names : List Bytes) (leaves : Leaves)
    (ids : Bytes → Option RecordID) : Prop where
  distinct : names.Nodup
  alone : ∀ name ∈ names, ∃ recID, ids name = some recID ∧
    ∀ other, ids other = some recID → other = name
  remains : leaves.length ≤ 1 ∨
    ∀ items ∈ leaves, ∃ entry ∈ items,
      ∀ name ∈ names, entry.key ≠ encodeString name

theorem Deletable.delete {name : Bytes} {names : List Bytes} {leaves : Leaves}
    {ids : Bytes → Option RecordID}
    (deletable : Deletable (name :: names) leaves ids) :
    (leaves.without (encodeString name)).Full ∧
      Deletable names (leaves.without (encodeString name))
        (Function.update ids name none) := by
  obtain ⟨fresh, distinct⟩ := List.nodup_cons.mp deletable.distinct
  have remains : (leaves.without (encodeString name)).length ≤ 1 ∨
      ∀ items ∈ leaves.without (encodeString name), ∃ entry ∈ items,
        ∀ other ∈ names, entry.key ≠ encodeString other := by
    rcases deletable.remains with single | kept
    · left
      rw [Leaves.without, List.length_map]
      exact single
    · right
      intro items member
      obtain ⟨before, listed, rfl⟩ := List.mem_map.mp member
      obtain ⟨entry, inside, others⟩ := kept before listed
      have stays := others name (List.mem_cons_self ..)
      refine ⟨entry, List.mem_filter.mpr ⟨inside, by simpa using stays⟩, ?_⟩
      intro other later
      exact others other (List.mem_cons_of_mem _ later)
  constructor
  · rcases remains with single | kept
    · exact .inl single
    · right
      intro items member empty
      obtain ⟨entry, inside, _⟩ := kept items member
      rw [empty] at inside
      cases inside
  · refine ⟨distinct, ?_, remains⟩
    intro other member
    obtain ⟨recID, found, own⟩ :=
      deletable.alone other (List.mem_cons_of_mem _ member)
    have different : other ≠ name := fun same => fresh (same ▸ member)
    refine ⟨recID, ?_, ?_⟩
    · rw [Function.update_of_ne different]
      exact found
    · intro third known
      by_cases same : third = name
      · rw [same, Function.update_self] at known
        cases known
      · rw [Function.update_of_ne same] at known
        exact own third known

theorem Holding.pruneLoop {runtime : Runtime}
    {orders : Bytes → Shuffle (Index.SecondaryIndex σ)} {names : List Bytes}
    {docs : List Cson.Document} {leaves : Leaves}
    {ids : Bytes → Option RecordID} {records : RecordMap}
    (served : Served IsStamped coll leaves ids records)
    (listed : ∀ id, id ∈ live ↔ ids id ≠ none)
    (named : List.Forall₂ (fun name doc =>
      lookup doc idField = some (.scalar (.string name)) ∧ name ≠ [])
      names docs)
    (deletable : Deletable names leaves ids) :
    ∃ after, TimeSeries.pruneLoop
        (fun id coll => coll.delete runtime (orders id) id) docs coll =
          ⟨names, none, after⟩ ∧
      Holding after (live \ names.toFinset) := by
  induction named generalizing coll live leaves ids records with
  | nil =>
      refine ⟨coll, rfl, leaves, ids, records, served, ?_⟩
      simpa using listed
  | @cons name doc names docs head _ inductionHypothesis =>
      obtain ⟨found, filled⟩ := head
      obtain ⟨recID, known, alone⟩ :=
        deletable.alone name (List.mem_cons_self ..)
      obtain ⟨full, rest⟩ := deletable.delete
      obtain ⟨done, later, after⟩ :=
        served.delete_spec runtime (orders name) known alone full
      have others : ∀ id, id ∈ live.erase name ↔
          Function.update ids name none id ≠ none := by
        intro id
        rw [Finset.mem_erase]
        by_cases same : id = name
        · subst same
          simp
        · rw [Function.update_of_ne same, ← listed id]
          simp [same]
      obtain ⟨final, looped, holding⟩ :=
        inductionHypothesis after others rest
      refine ⟨final, ?_, ?_⟩
      · simp only [TimeSeries.pruneLoop, found, if_neg filled]
        rcases outcome : coll.delete runtime (orders name) name with
          ⟨result, next⟩
        rw [outcome] at done looped
        simp only at done looped ⊢
        subst done
        simp only [looped]
      · rw [List.toFinset_cons, Finset.sdiff_insert, ← Finset.erase_sdiff_comm]
        exact holding

/-- The predicate of `PruneBefore` -/
def expires (setting : Setting) (cutoff : Int64) (view : DocumentView) : Bool :=
  selects setting.runtime (.lt tsField (.scalar (.int64 cutoff))) view

/-- Pruning finds every old point under its identifier, in a record that no
other identifier leads to, and empties no leaf unless it is the only one. -/
structure Prunable (setting : Setting) (cutoff : Int64) (coll : Collection σ)
    (leaves : Leaves) (ids : Bytes → Option RecordID) (records : RecordMap) :
    Prop where
  own : ∀ id recID payload, ids id = some recID →
    records recID = some payload →
    expires setting cutoff (viewOf coll.dict payload) = true →
    lookup (documentOf ⟨viewOf coll.dict payload, recID⟩) idField =
        some (.scalar (.string id)) ∧
      ∀ other, ids other = some recID → other = id
  remains : leaves.length ≤ 1 ∨
    ∀ items ∈ leaves, ∃ entry ∈ items, ∀ id recID payload,
      entry.key = encodeString id → ids id = some recID →
      records recID = some payload →
      expires setting cutoff (viewOf coll.dict payload) = false

section Prunable

variable {setting : Setting} {cutoff : Int64} {leaves : Leaves}
  {ids : Bytes → Option RecordID} {records : RecordMap}
  (prunable : Prunable setting cutoff coll leaves ids records)
  (served : Served IsStamped coll leaves ids records)
include prunable served

theorem Prunable.shown {entry : LeafItem} {item : Item}
    (shows : Served.Shows IsStamped coll.dict ids records entry item)
    (old : expires setting cutoff item.view = true) :
    (lookup (documentOf item) idField =
        some (.scalar (.string (idAt item))) ∧ idAt item ≠ []) ∧
      entry.key = encodeString (idAt item) ∧
      ids (idAt item) = some item.recID ∧
      ∀ other, ids other = some item.recID → other = idAt item := by
  obtain ⟨id, keyed, known⟩ := shows.listed
  obtain ⟨payload, doc, stored, encoded, stamped, view⟩ := shows.shown
  have shape : (⟨viewOf coll.dict payload, item.recID⟩ : Item) = item := by
    rw [← view]
  rw [view] at old
  obtain ⟨found, alone⟩ := prunable.own id item.recID payload known stored old
  rw [shape] at found
  have same : idAt item = id := by
    rw [idAt, found]
  obtain ⟨name, named, filled⟩ := stamped.named
  have stored := lookup_documentOf encoded served.dict view named
  rw [found] at stored
  cases stored
  rw [same]
  exact ⟨⟨found, filled⟩, keyed, known, alone⟩

variable {items : List Item}
  (related : List.Forall₂ (Served.Shows IsStamped coll.dict ids records)
    leaves.flatten items)
include related

theorem Prunable.distinct :
    ((items.filter fun item =>
      expires setting cutoff item.view).map idAt).Nodup := by
  have keys : (leaves.flatten.map LeafItem.key).Nodup :=
    List.pairwise_map.mpr ((ReopenedKernel.sorted served.holds).imp
      fun less => less.ne)
  have sublist := @filter_sublist _ _ _ _ _ _ related
    (fun item => expires setting cutoff item.view) LeafItem.key
    (fun item => encodeString (idAt item))
    fun entry item shows old => (prunable.shown served shows old).2.1.symm
  have composed : (items.filter fun item =>
      expires setting cutoff item.view).map
        (fun item => encodeString (idAt item)) =
      ((items.filter fun item =>
        expires setting cutoff item.view).map idAt).map encodeString := by
    rw [List.map_map]
    rfl
  have distinct := sublist.nodup keys
  rw [composed] at distinct
  exact distinct.of_map _

theorem Prunable.deletable :
    Deletable ((items.filter fun item =>
      expires setting cutoff item.view).map idAt) leaves ids := by
  refine ⟨prunable.distinct served related, ?_, ?_⟩
  · intro name member
    obtain ⟨item, listed, rfl⟩ := List.mem_map.mp member
    obtain ⟨entry, shows, old⟩ := forall₂_filter related listed
    obtain ⟨_, _, known, alone⟩ := prunable.shown served shows old
    exact ⟨item.recID, known, alone⟩
  · apply prunable.remains.imp_right
    intro remains leaf member
    obtain ⟨entry, inside, stays⟩ := remains leaf member
    refine ⟨entry, inside, ?_⟩
    intro name listed keyed
    obtain ⟨item, picked, rfl⟩ := List.mem_map.mp listed
    obtain ⟨other, shows, old⟩ := forall₂_filter related picked
    obtain ⟨_, _, known, _⟩ := prunable.shown served shows old
    obtain ⟨payload, _, stored, _, _, view⟩ := shows.shown
    have young := stays _ _ payload keyed known stored
    rw [← view, old] at young
    cases young

end Prunable

theorem Holding.prunes {setting : Setting}
    {orders : Bytes → Shuffle (Index.SecondaryIndex σ)} {cutoff : Int64}
    (holding : Holding coll live) (lawful : LawfulSlice setting.slice)
    (enough : live.card < setting.fuel)
    (prunable : ∀ leaves ids records,
      Served IsStamped coll leaves ids records →
      Prunable setting cutoff coll leaves ids records) :
    ∃ scan names after, coll.scan = .ok scan ∧
      pruneCollection orders setting scan cutoff coll =
        .ok ⟨names, none, after⟩ ∧
      names.Nodup ∧ names.toFinset ⊆ live ∧
      Holding after (live \ names.toFinset) := by
  obtain ⟨leaves, ids, records, served, listed⟩ := holding
  have ready := prunable leaves ids records served
  have counted := served.count listed
  obtain ⟨scan, items, scanned, scans, related⟩ :=
    served.scans lawful (by omega)
  have deletable := ready.deletable served related
  have named : List.Forall₂ (fun name doc =>
      lookup doc idField = some (.scalar (.string name)) ∧ name ≠ [])
      ((items.filter fun item => expires setting cutoff item.view).map idAt)
      ((items.filter fun item => expires setting cutoff item.view).map
        documentOf) := by
    rw [List.forall₂_map_left_iff, List.forall₂_map_right_iff,
      List.forall₂_same]
    intro item member
    obtain ⟨entry, shows, old⟩ := forall₂_filter related member
    exact (ready.shown served shows old).1
  obtain ⟨after, looped, rest⟩ :=
    @Holding.pruneLoop σ _ _ coll live setting.runtime orders _ _ leaves
      ids records served listed named deletable
  refine ⟨scan, _, after, scanned, ?_, deletable.distinct, ?_, rest⟩
  · rw [pruneCollection, pruneBefore, selected_eq scans]
    exact congrArg Outcome.ok looped
  · intro name member
    obtain ⟨recID, known, _⟩ :=
      deletable.alone name (List.mem_toFinset.mp member)
    rw [listed name, known]
    exact Option.some_ne_none _

end Points

end CocoDB.TimeSeries
