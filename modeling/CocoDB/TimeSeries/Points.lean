import CocoDB.Document.Collection
import CocoDB.Document.Query
import CocoDB.Queue.Delivery

/-!
# Time series

`timeseries.go`: the queries over the points of a series, and pruning.  A time
is the number of its nanoseconds, and the zero time is none.
-/

namespace CocoDB.TimeSeries

open Lib Cson CocoDB.Query Document
open Index (Runtime DocumentError)

/-- `_ts` -/
def tsField : Bytes := [0x5F, 0x74, 0x73]

/-- `"_tag:" + key` -/
def tagField (key : Bytes) : Bytes := [0x5F, 0x74, 0x61, 0x67, 0x3A] ++ key

/-- `TimeQuery`; the tags are listed in the order in which the map gives
them. -/
structure TimeQuery where
  start : Option Int64
  finish : Option Int64
  tags : List (Bytes × Bytes)
  limit : Int
  descending : Bool

/-- The predicate on `_ts` that a bound adds, if it is not the zero time. -/
def addBound (bound : Option Int64) (predicate : Bytes → Value → Expression)
    (query : Document.Query) : Document.Query :=
  match bound with
  | none => query
  | some nanos => query.satisfying (predicate tsField (.scalar (.int64 nanos)))

def addTags (tags : List (Bytes × Bytes)) (query : Document.Query) :
    Document.Query :=
  tags.foldl (fun query tag =>
    query.satisfying (.eq (tagField tag.1) (.scalar (.string tag.2)))) query

/-- The query over the collection that `documents` builds. -/
def TimeQuery.toQuery (query : TimeQuery) : Document.Query :=
  let ranged := addBound query.finish .lte (addBound query.start .gte newQuery)
  let sorted := (addTags query.tags ranged).orderBy tsField query.descending
  if 0 < query.limit then sorted.limit query.limit else sorted

def TimeQuery.documents (setting : Setting) (scan : Pipeline)
    (query : TimeQuery) : Outcome (List Cson.Document × Option Error) :=
  query.toQuery.all setting scan

section Prune

variable {σ : Type} (delete : Bytes → σ → Except DocumentError Unit × σ)

/-- The result of `PruneBefore`, which returns the number of the identifiers. -/
structure Pruned (σ : Type) where
  deleted : List Bytes
  err : Option DocumentError
  state : σ

/-- The loop of `PruneBefore`, which passes over documents without an
identifier. -/
def pruneLoop : List Cson.Document → σ → Pruned σ
  | [], state => ⟨[], none, state⟩
  | doc :: rest, state =>
      match lookup doc idField with
      | some (.scalar (.string id)) =>
          if id = [] then pruneLoop rest state
          else
            match delete id state with
            | (.error cause, next) => ⟨[], some cause, next⟩
            | (.ok _, next) =>
                let pruned := pruneLoop rest next
                { pruned with deleted := id :: pruned.deleted }
      | _ => pruneLoop rest state

def pruneBefore (setting : Setting) (scan : Pipeline) (cutoff : Int64)
    (state : σ) : Outcome (Pruned σ) := do
  let (docs, err) ← (newQuery.satisfying
    (.lt tsField (.scalar (.int64 cutoff)))).all setting scan
  match err with
  | some cause => return ⟨[], some (.storage cause), state⟩
  | none => return pruneLoop delete docs state

end Prune

/-- `PruneBefore` on a collection; each `Delete` visits the indexes in an order
of its own. -/
def pruneCollection {σ : Type} [Kernel σ]
    (orders : Bytes → Shuffle (Index.SecondaryIndex σ)) (setting : Setting)
    (scan : Pipeline) (cutoff : Int64) (coll : Collection σ) :
    Outcome (Pruned (Collection σ)) :=
  pruneBefore (fun id coll => coll.delete setting.runtime (orders id) id)
    setting scan cutoff coll

end CocoDB.TimeSeries

/-! ## Identifiers of points

`%019d-%020d` of the nanoseconds of a point and of its number: the number takes
the last twenty characters, so an identifier gives both back.
-/

namespace CocoDB.TimeSeries

open Lib
open Queue (decimal ofDecimal ofDecimal_decimal digit_read digits_small)

def zeroPadded (width : Nat) (text : Bytes) : Bytes :=
  List.replicate (width - text.length) 0x30 ++ text

/-- `%019d` and the like of an `int64`: the sign counts -/
def formatPadded (width : Nat) (value : Int64) : Bytes :=
  if value < 0 then
    0x2D :: zeroPadded (width - 1) (decimal value.toInt.natAbs)
  else zeroPadded width (decimal value.toInt.toNat)

/-- The `_id` of a point. -/
def pointID (nanos : Int64) (seq : UInt64) : Bytes :=
  formatPadded 19 nanos ++ [0x2D] ++ zeroPadded 20 (decimal seq.toNat)

section Decimals

variable {value width : Nat}

theorem ofDecimal_zeroPadded (width value : Nat) :
    ofDecimal (zeroPadded width (decimal value)) = value := by
  have zero : ((0x30 : UInt8).toNat - 0x30) = 0 := rfl
  have number := ofDecimal_decimal value
  simp only [ofDecimal] at number ⊢
  rw [zeroPadded, List.reverse_append, List.reverse_replicate, List.map_append,
    List.map_replicate, zero, Nat.ofDigits_append_replicate_zero, number]

theorem decimal_length (small : value < 10 ^ width) (positive : 0 < width) :
    (decimal value).length ≤ width := by
  unfold decimal
  split
  · exact positive
  · rw [List.length_map, List.length_reverse]
    exact (Nat.digits_length_le_iff (by decide) value).mpr small

theorem zeroPadded_length (small : value < 10 ^ width) (positive : 0 < width) :
    (zeroPadded width (decimal value)).length = width := by
  have short := decimal_length small positive
  rw [zeroPadded, List.length_append, List.length_replicate]
  omega

theorem zeroPadded_digits {byte : UInt8}
    (member : byte ∈ zeroPadded width (decimal value)) : byte ≠ 0x2D := by
  rcases List.mem_append.mp member with zero | inside
  · rw [List.eq_of_mem_replicate zero]
    decide
  · unfold decimal at inside
    split at inside
    · rw [List.mem_singleton.mp inside]
      decide
    · obtain ⟨digit, listed, rfl⟩ := List.mem_map.mp inside
      intro same
      have read := digit_read (digits_small listed)
      rw [same] at read
      simp only [UInt8.reduceToNat] at read
      omega

end Decimals

theorem formatPadded_injective {width : Nat} {first second : Int64}
    (same : formatPadded width first = formatPadded width second) :
    first = second := by
  apply Int64.toInt_inj.mp
  unfold formatPadded at same
  split at same <;> split at same
  · next below under =>
      have numbers := congrArg ofDecimal (List.cons.inj same).2
      rw [ofDecimal_zeroPadded, ofDecimal_zeroPadded] at numbers
      rw [Int64.lt_iff_toInt_lt, Int64.toInt_zero] at below under
      omega
  · have signed : (0x2D : UInt8) ∈
        zeroPadded width (decimal second.toInt.toNat) :=
      same ▸ List.mem_cons_self ..
    exact absurd rfl (zeroPadded_digits signed)
  · have signed : (0x2D : UInt8) ∈
        zeroPadded width (decimal first.toInt.toNat) :=
      same ▸ List.mem_cons_self ..
    exact absurd rfl (zeroPadded_digits signed)
  · next above beyond =>
      have numbers := congrArg ofDecimal same
      rw [ofDecimal_zeroPadded, ofDecimal_zeroPadded] at numbers
      rw [Int64.lt_iff_toInt_lt, Int64.toInt_zero] at above beyond
      omega

theorem pointID_eq_iff {nanos time : Int64} {seq number : UInt64} :
    pointID nanos seq = pointID time number ↔ nanos = time ∧ seq = number := by
  constructor
  · intro same
    have wide : ∀ number : UInt64, number.toNat < 10 ^ 20 := fun number =>
      lt_trans number.toNat_lt (by decide)
    have lengths : (zeroPadded 20 (decimal seq.toNat)).length =
        (zeroPadded 20 (decimal number.toNat)).length := by
      rw [zeroPadded_length (wide seq) (by decide),
        zeroPadded_length (wide number) (by decide)]
    obtain ⟨front, back⟩ := List.append_inj' same lengths
    have numbers := congrArg ofDecimal back
    rw [ofDecimal_zeroPadded, ofDecimal_zeroPadded] at numbers
    exact ⟨formatPadded_injective (List.append_inj' front rfl).1,
      UInt64.toNat_inj.mp numbers⟩
  · rintro ⟨rfl, rfl⟩
    rfl

theorem pointID_ne_nil (nanos : Int64) (seq : UInt64) :
    pointID nanos seq ≠ [] := by
  simp [pointID]

end CocoDB.TimeSeries
