import CocoDB.Index.KeyOrder

/-!
# The TTL index

`internal/index/ttl.go`: a tree of expirations, whose keys begin with the time.
A time is given by its `UnixNano`.
-/

namespace CocoDB.Index

open Lib

def makeKey (expireAt : Int64) (objectID : UInt64) (keyOrID : Bytes) : Bytes :=
  encodeComposite [encodeTime expireAt, encodeUint64 objectID, keyOrID]

structure ExpiredItem where
  objectID : UInt64
  keyOrID : Bytes
  indexKey : Bytes
deriving DecidableEq, Repr

/-- The loop of `FindExpired` over the keys that the cursor visits. -/
def collectExpired (nowKey : Bytes) (limit : Int) :
    List Bytes → List ExpiredItem → List ExpiredItem
  | [], expired => expired
  | k :: rest, expired =>
      if (expired.length : Int) < limit then
        if k.length < 18 then collectExpired nowKey limit rest expired
        else if bytesCompare (k.take 9) nowKey = .gt then expired
        else
          match decodeUint64 ((k.drop 9).take 9) with
          | .ok objID =>
              collectExpired nowKey limit rest
                (expired ++ [⟨objID, k.drop 18, k⟩])
          | .error _ => collectExpired nowKey limit rest expired
      else expired

namespace TTLIndex

section Calls

variable {σ : Type} [Kernel σ]

def add (expireAt : Int64) (objectID : UInt64) (keyOrID : Bytes)
    (tree : Kernel.Tree σ) (state : σ) :
    Except Error Unit × Kernel.Tree σ × σ :=
  Kernel.insert (makeKey expireAt objectID keyOrID) [1] tree state

def remove (expireAt : Int64) (objectID : UInt64) (keyOrID : Bytes)
    (tree : Kernel.Tree σ) (state : σ) :
    Except Error Unit × Kernel.Tree σ × σ :=
  Kernel.delete (makeKey expireAt objectID keyOrID) tree state

def findExpired (now : Int64) (limit : Int) (tree : Kernel.Tree σ)
    (state : σ) : Except Error (List ExpiredItem) × σ :=
  match Kernel.scan tree state with
  | (.error cause, next) => (.error cause, next)
  | (.ok pairs, next) =>
      (.ok (collectExpired (encodeTime now) limit (pairs.map Prod.fst) []),
        next)

end Calls

end TTLIndex

/-! ## Expirations -/

structure Expiration where
  expireAt : Int64
  objectID : UInt64
  keyOrID : Bytes
deriving DecidableEq

namespace Expiration

def indexKey (entry : Expiration) : Bytes :=
  makeKey entry.expireAt entry.objectID entry.keyOrID

def item (entry : Expiration) : ExpiredItem :=
  ⟨entry.objectID, entry.keyOrID, entry.indexKey⟩

def due (now : Int64) (entry : Expiration) : Bool := entry.expireAt ≤ now

theorem encodeTime_length (time : Int64) : (encodeTime time).length = 9 := by
  rw [encodeTime, encodeWord, List.length_cons, be_length]

theorem encodeUint64_length (value : UInt64) :
    (encodeUint64 value).length = 9 := by
  rw [encodeUint64, encodeWord, List.length_cons, be_length]

theorem indexKey_eq (entry : Expiration) : entry.indexKey =
    encodeTime entry.expireAt ++
      (encodeUint64 entry.objectID ++ entry.keyOrID) := by
  simp [indexKey, makeKey, encodeComposite]

theorem indexKey_length (entry : Expiration) :
    18 ≤ entry.indexKey.length := by
  rw [indexKey_eq, List.length_append, List.length_append, encodeTime_length,
    encodeUint64_length]
  omega

theorem indexKey_time (entry : Expiration) :
    entry.indexKey.take 9 = encodeTime entry.expireAt := by
  rw [indexKey_eq, List.take_left' (encodeTime_length _)]

theorem indexKey_object (entry : Expiration) :
    (entry.indexKey.drop 9).take 9 = encodeUint64 entry.objectID := by
  rw [indexKey_eq, List.drop_left' (encodeTime_length _),
    List.take_left' (encodeUint64_length _)]

theorem indexKey_rest (entry : Expiration) :
    entry.indexKey.drop 18 = entry.keyOrID := by
  rw [indexKey_eq, ← List.append_assoc, List.drop_left']
  rw [List.length_append, encodeTime_length, encodeUint64_length]

theorem encodeTime_compare (one two : Int64) :
    bytesCompare (encodeTime one) (encodeTime two) =
      compare one.toInt two.toInt := by
  have ordered := @Component.encode_ordered (.time one) (.time two) [] []
  rw [List.append_nil, List.append_nil] at ordered
  rw [bytesCompare]
  refine ordered.trans ?_
  rw [Std.compare_eq_iff_eq.mpr rfl, Component.order, Component.tag,
    Component.tag, Std.compare_eq_iff_eq.mpr rfl]
  simp [Component.compareValues, Ordering.then_eq]

theorem indexKey_injective {one two : Expiration}
    (same : one.indexKey = two.indexKey) : one = two := by
  have time := congrArg (List.take 9) same
  have object := congrArg (fun key : Bytes => (key.drop 9).take 9) same
  have rest := congrArg (List.drop 18) same
  simp only [indexKey_time, indexKey_object, indexKey_rest] at time object rest
  have sameTime : one.expireAt = two.expireAt := by
    have order := encodeTime_compare one.expireAt two.expireAt
    rw [time, bytesCompare, Std.compare_eq_iff_eq.mpr rfl] at order
    exact Int64.toInt_inj.mp (compare_eq_iff_eq.mp order.symm)
  have sameObject : one.objectID = two.objectID := by
    have decoded := congrArg decodeUint64 object
    rw [decodeUint64_encodeUint64, decodeUint64_encodeUint64] at decoded
    exact Except.ok.inj decoded
  cases one
  cases two
  simp_all

theorem bytesCompare_of_lt {left right : Bytes} (less : left < right) :
    bytesCompare left right = .lt := by
  rw [bytesCompare]
  induction left generalizing right with
  | nil =>
      cases right with
      | nil => exact absurd less (List.not_lt_nil _)
      | cons byte rest => rfl
  | cons byte rest inductionHypothesis =>
      cases right with
      | nil => exact absurd less (List.not_lt_nil _)
      | cons other others =>
          rw [List.compare_cons_cons]
          rcases List.cons_lt_cons_iff.mp less with smaller | ⟨same, later⟩
          · have number := UInt8.lt_iff_toNat_lt.mp smaller
            rw [compare_toNat, compare_lt_iff_lt.mpr number]
            rfl
          · rw [same, Std.compare_eq_iff_eq.mpr rfl,
              inductionHypothesis later]
            rfl

theorem expireAt_le {one two : Expiration}
    (first : one.indexKey < two.indexKey) : one.expireAt ≤ two.expireAt := by
  have less := bytesCompare_of_lt first
  rw [bytesCompare, indexKey_eq, indexKey_eq] at less
  have ordered := @Component.encode_ordered (.time one.expireAt)
    (.time two.expireAt) (encodeUint64 one.objectID ++ one.keyOrID)
    (encodeUint64 two.objectID ++ two.keyOrID)
  have times : (Component.time one.expireAt).order (.time two.expireAt) =
      compare one.expireAt.toInt two.expireAt.toInt := by
    rw [Component.order, Component.tag, Component.tag,
      Std.compare_eq_iff_eq.mpr rfl]
    rfl
  have found := ordered.symm.trans less
  rw [times] at found
  rw [Int64.le_iff_toInt_le]
  by_contra greater
  rw [compare_gt_iff_gt.mpr (not_le.mp greater)] at found
  cases found

/-- The loop finds the entries up to the first that has not run out, as far as
the limit allows. -/
theorem collectExpired_eq (now : Int64) (limit : Int)
    (entries : List Expiration) (expired : List ExpiredItem) :
    collectExpired (encodeTime now) limit (entries.map indexKey) expired =
      expired ++ ((entries.takeWhile (due now)).take
        (limit - expired.length).toNat).map item := by
  induction entries generalizing expired with
  | nil => simp [collectExpired]
  | cons entry rest inductionHypothesis =>
      rw [List.map_cons, collectExpired]
      by_cases more : (expired.length : Int) < limit
      · obtain ⟨left, room⟩ : ∃ left : Nat,
            (limit - expired.length).toNat = left + 1 :=
          ⟨(limit - expired.length).toNat - 1, by omega⟩
        have later := Nat.not_lt.mpr entry.indexKey_length
        rw [if_pos more, if_neg later, entry.indexKey_time,
          encodeTime_compare, entry.indexKey_object,
          decodeUint64_encodeUint64, entry.indexKey_rest]
        cases ended : due now entry with
        | true =>
            have notGreater : compare entry.expireAt.toInt now.toInt ≠ .gt := by
              rw [due, decide_eq_true_eq, Int64.le_iff_toInt_le] at ended
              rw [Ne, compare_gt_iff_gt]
              omega
            rw [if_neg notGreater]
            simp only
            rw [inductionHypothesis, List.takeWhile_cons_of_pos ended, room,
              List.take_succ_cons, List.map_cons, List.append_assoc,
              List.length_append, List.length_singleton]
            have less : (limit - ((expired.length + 1 : Nat) : Int)).toNat =
                left := by
              omega
            rw [less, List.singleton_append]
            rfl
        | false =>
            have greater : compare entry.expireAt.toInt now.toInt = .gt := by
              rw [due, decide_eq_false_iff_not, Int64.le_iff_toInt_le]
                at ended
              rw [compare_gt_iff_gt]
              omega
            rw [if_pos greater, List.takeWhile_cons_of_neg (by simp [ended])]
            simp
      · rw [if_neg more]
        have none : (limit - expired.length).toNat = 0 := by omega
        simp [none]

end Expiration

end CocoDB.Index
