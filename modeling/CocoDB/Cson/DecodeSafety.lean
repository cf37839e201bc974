import CocoDB.Cson.Reached

/-!
# Safety of decoding

Decoding comes back exactly when no object it reaches has a directory entry
whose 32-bit end wraps, or one that is an object spanning the whole object it
is in.  Nested arrays use up the nonzero bytes of their container, and every
other nested object is shorter than its container.
-/

namespace CocoDB.Cson

open CocoDB.Lib

/-! ## The measure -/

/-- All bytes from a position on are zero, also past the end.  A short read
of an array element pads it with zeros, so the length of an element is no
measure but the last nonzero byte is. -/
def ZeroFrom (position : Nat) (bytes : Bytes) : Prop :=
  ∀ index, position ≤ index → bytes.getD index 0 = 0

theorem zeroFrom_length (bytes : Bytes) : ZeroFrom bytes.length bytes := by
  intro index past
  rw [List.getD_eq_getElem?_getD, List.getElem?_eq_none past]
  rfl

theorem ZeroFrom.weaken {position later : Nat} {bytes : Bytes}
    (zero : ZeroFrom position bytes) (after : position ≤ later) :
    ZeroFrom later bytes :=
  fun index past => zero index (Nat.le_trans after past)

theorem ZeroFrom.drop {position : Nat} {bytes : Bytes}
    (zero : ZeroFrom position bytes) (skipped : Nat) :
    ZeroFrom (position - skipped) (bytes.drop skipped) := by
  intro index past
  rw [List.getD_eq_getElem?_getD, List.getElem?_drop,
    ← List.getD_eq_getElem?_getD]
  exact zero _ (by omega)

theorem ZeroFrom.take {position : Nat} {bytes : Bytes}
    (zero : ZeroFrom position bytes) (kept : Nat) :
    ZeroFrom position (bytes.take kept) := by
  intro index past
  rw [List.getD_eq_getElem?_getD, List.getElem?_take]
  split
  · rw [← List.getD_eq_getElem?_getD]
    exact zero index past
  · rfl

theorem ZeroFrom.pad {position : Nat} {bytes : Bytes}
    (zero : ZeroFrom position bytes) (count : Nat) :
    ZeroFrom position (bytes ++ List.replicate count 0) := by
  intro index past
  rw [List.getD_eq_getElem?_getD, List.getElem?_append]
  split
  · rw [← List.getD_eq_getElem?_getD]
    exact zero index past
  · rw [List.getElem?_replicate]
    split
    · rfl
    · rfl

theorem ofBE_zero {bytes : Bytes} (zero : ZeroFrom 0 bytes) :
    ofBE bytes = 0 := by
  induction bytes using List.reverseRecOn with
  | nil => rfl
  | append_singleton bytes byte inductionHypothesis =>
      have last := zero bytes.length (Nat.zero_le _)
      have earlier := zero.take bytes.length
      rw [List.take_left' rfl] at earlier
      rw [List.getD_eq_getElem?_getD, List.getElem?_concat_length,
        Option.getD_some] at last
      rw [ofBE_append_singleton, inductionHypothesis earlier, last]
      rfl

theorem readUint32_ok {bytes reader : Bytes} {count : Nat}
    (framed : readUint32 bytes = .ok (count, reader)) :
    count = ofBE (bytes.take 4) ∧ reader = bytes.drop 4 := by
  unfold readUint32 at framed
  split at framed
  · cases framed
  · split at framed
    · cases framed
    · cases framed
      exact ⟨rfl, rfl⟩

theorem ZeroFrom.readItem {position : Nat} {reader item rest : Bytes}
    {tag : UInt8} (zero : ZeroFrom position reader)
    (framed : readItem reader = .ok (tag, item, rest)) :
    ZeroFrom (position - 5) item ∧ ZeroFrom (position - 5) rest := by
  cases reader with
  | nil => cases framed
  | cons head tail =>
      have tailZero : ZeroFrom (position - 1) tail := zero.drop 1
      rw [Cson.readItem] at framed
      cases counted : readUint32 tail with
      | error cause =>
          rw [counted] at framed
          cases framed
      | ok pair =>
          obtain ⟨itemLen, remaining⟩ := pair
          obtain ⟨_, rfl⟩ := readUint32_ok counted
          rw [counted] at framed
          simp only at framed
          split at framed
          · cases framed
          · cases framed
            have left := (tailZero.drop 4).weaken
              (show position - 1 - 4 ≤ position - 5 by omega)
            exact ⟨(left.take itemLen).pad _,
              (left.drop itemLen).weaken (by omega)⟩

theorem ZeroFrom.item {position count : Nat} {reader item : Bytes}
    {tag : UInt8} (member : Item count reader tag item)
    (zero : ZeroFrom position reader) : ZeroFrom (position - 5) item := by
  induction member generalizing position with
  | here framed => exact (zero.readItem framed).1
  | later framed _ _ inductionHypothesis =>
      have rest := inductionHypothesis (zero.readItem framed).2
      exact rest.weaken (by omega)

section Termination

variable {dict : FieldDictionary}

def Decodes (dict : FieldDictionary) (tag : UInt8) (bytes : Bytes) : Prop :=
  ∃ budget, (decodeValue dict budget tag bytes).Returns

theorem returns_of_le {budget more : Nat} {tag : UInt8} {bytes : Bytes}
    (enough : budget ≤ more)
    (returns : (decodeValue dict budget tag bytes).Returns) :
    (decodeValue dict more tag bytes).Returns := by
  rw [decodeValue_mono enough returns]
  exact returns

theorem common_budget {P : Nat → Nat → Prop} (count : Nat)
    (mono : ∀ index budget more, budget ≤ more → P index budget →
      P index more)
    (each : ∀ index, index < count → ∃ budget, P index budget) :
    ∃ budget, ∀ index, index < count → P index budget := by
  induction count with
  | zero => exact ⟨0, fun index before => absurd before (by omega)⟩
  | succ count inductionHypothesis =>
      obtain ⟨earlier, all⟩ := inductionHypothesis fun index before =>
        each index (by omega)
      obtain ⟨last, reached⟩ := each count (by omega)
      refine ⟨max earlier last, fun index before => ?_⟩
      rcases Nat.lt_succ_iff_lt_or_eq.mp before with below | rfl
      · exact mono index _ _ (Nat.le_max_left _ _) (all index below)
      · exact mono index _ _ (Nat.le_max_right _ _) reached

theorem Decodes.object {bytes : Bytes}
    (fields : WellHeaded bytes → ∀ index, index < fieldCountOf bytes →
      (entryAt bytes index).Passes bytes →
        ¬(entryAt bytes index).Wraps ∧
          Decodes dict (entryAt bytes index).valType
            ((entryAt bytes index).content bytes)) :
    Decodes dict ValueType.object.toByte bytes := by
  by_cases headed : WellHeaded bytes
  · have common := @common_budget
      (fun index budget => (entryAt bytes index).Passes bytes →
        (decodeValue dict budget (entryAt bytes index).valType
          ((entryAt bytes index).content bytes)).Returns)
      (fieldCountOf bytes)
      (fun index budget more enough returns passes =>
        returns_of_le enough (returns passes))
      (fun index before => by
        by_cases passes : (entryAt bytes index).Passes bytes
        · obtain ⟨budget, returns⟩ :=
            (fields headed index before passes).2
          exact ⟨budget, fun _ => returns⟩
        · exact ⟨0, fun absurdly => absurd absurdly passes⟩)
    obtain ⟨budget, all⟩ := common
    refine ⟨budget + 1, (object_returns_iff headed).mpr ?_⟩
    intro index before passes
    exact ⟨(fields headed index before passes).1, all index before passes⟩
  · obtain ⟨cause, failed⟩ := @decodeValue_headless dict 0 _ headed
    exact ⟨1, by rw [failed]; exact trivial⟩

theorem readItems_decodes {count : Nat} {reader : Bytes}
    (items : ∀ tag item, Item count reader tag item →
      Decodes dict tag item) :
    ∃ budget, (readItems (decodeValue dict budget) count
      reader).Returns := by
  induction count generalizing reader with
  | zero => exact ⟨0, trivial⟩
  | succ count inductionHypothesis =>
      cases framed : readItem reader with
      | error cause => exact ⟨0, by rw [readItems, framed]; exact trivial⟩
      | ok read =>
          obtain ⟨tag, item, rest⟩ := read
          obtain ⟨first, returns⟩ := items tag item (.here framed)
          cases decoded : decodeValue dict first tag item with
          | panic => simp [decoded] at returns
          | exhausted => simp [decoded] at returns
          | error cause =>
              exact ⟨first, by
                rw [readItems, framed]
                simp [decoded]⟩
          | ok value =>
              obtain ⟨valType, rfl, accepted⟩ :=
                (decodeValue_accepted returns).mp ⟨value, decoded⟩
              obtain ⟨second, others⟩ := @inductionHypothesis rest
                fun tag other member =>
                  items tag other (.later framed accepted member)
              refine ⟨max first second, ?_⟩
              rw [readItems, framed]
              simp only
              rw [decodeValue_mono (Nat.le_max_left _ _) returns, decoded]
              simp only [Outcome.ok_bind]
              refine (Outcome.returns_map _).mpr ?_
              rw [readItems_mono (fun _ _ back =>
                decodeValue_mono (Nat.le_max_right _ _) back) others]
              exact others

theorem Decodes.array {bytes : Bytes}
    (items : ∀ count reader tag item,
      readUint32 bytes = .ok (count, reader) →
        Item count reader tag item → Decodes dict tag item) :
    Decodes dict ValueType.array.toByte bytes := by
  cases framed : readUint32 bytes with
  | error cause =>
      exact ⟨1, by rw [decodeValue_array, framed]; exact trivial⟩
  | ok counted =>
      obtain ⟨count, reader⟩ := counted
      obtain ⟨budget, returns⟩ := readItems_decodes fun tag item member =>
        items count reader tag item framed member
      refine ⟨budget + 1, ?_⟩
      rw [decodeValue_framed framed]
      exact (Outcome.returns_map Value.array).mpr returns

/-- Every value a contained document reaches decodes.  The induction is on
where the zeros start; an object field stays at the same level only by being
shorter than its container. -/
theorem Contained.decodes {data : Bytes} (contained : Contained data)
    (position : Nat) {tag : UInt8} {bytes : Bytes}
    (zero : ZeroFrom position bytes) (reached : Reached data tag bytes) :
    Decodes dict tag bytes := by
  induction position using Nat.strong_induction_on generalizing tag bytes with
  | _ position inductionHypothesis =>
      have arrays : ∀ bytes, ZeroFrom position bytes →
          Reached data ValueType.array.toByte bytes →
            Decodes dict ValueType.array.toByte bytes := by
        intro bytes zero reached
        refine Decodes.array fun count reader tag item framed member => ?_
        obtain ⟨counted, rest⟩ := readUint32_ok framed
        have readerZero : ZeroFrom (position - 4) reader := rest ▸ zero.drop 4
        have itemZero := ZeroFrom.item member readerZero
        rcases Nat.eq_zero_or_pos position with none | some
        · -- nothing but zeros: the array is empty
          subst none
          rw [ofBE_zero (zero.take 4)] at counted
          subst counted
          cases member
        · exact inductionHypothesis (position - 4 - 5) (by omega) itemZero
            (.item reached framed member)
      have objects : ∀ length bytes, bytes.length = length →
          ZeroFrom position bytes →
          Reached data ValueType.object.toByte bytes →
            Decodes dict ValueType.object.toByte bytes := by
        intro length
        induction length using Nat.strong_induction_on with
        | _ length shorter =>
            intro bytes sized zero reached
            refine Decodes.object fun headed index before passes => ?_
            obtain ⟨flat, proper⟩ :=
              contained bytes reached headed index before passes
            have fieldReached := Reached.field reached headed before passes
            have fieldLength := FieldLocation.content_length passes flat
            have inside := FieldLocation.within passes flat
            have fieldZero : ZeroFrom position
                ((entryAt bytes index).content bytes) :=
              ((zero.drop _).weaken (by omega)).take _
            refine ⟨flat, ?_⟩
            generalize (entryAt bytes index).content bytes = content at *
            by_cases isObject :
                (entryAt bytes index).valType = ValueType.object.toByte
            · rw [isObject] at fieldReached ⊢
              refine shorter content.length ?_ content rfl fieldZero
                fieldReached
              by_contra whole
              refine proper ⟨isObject, ?_, by omega⟩
              apply UInt32.toNat.inj
              rw [UInt32.toNat_zero]
              omega
            · by_cases isArray :
                  (entryAt bytes index).valType = ValueType.array.toByte
              · rw [isArray] at fieldReached ⊢
                exact arrays content fieldZero fieldReached
              · exact ⟨1, leaf_returns isObject isArray⟩
      by_cases isObject : tag = ValueType.object.toByte
      · subst isObject
        exact objects bytes.length bytes rfl zero reached
      · by_cases isArray : tag = ValueType.array.toByte
        · subst isArray
          exact arrays bytes zero reached
        · exact ⟨1, leaf_returns isObject isArray⟩

/-! ## Everything reached is decoded -/

theorem item_returns {budget count : Nat} {reader item : Bytes}
    {tag : UInt8} (member : Item count reader tag item)
    (returns : (readItems (decodeValue dict budget) count
      reader).Returns) :
    (decodeValue dict budget tag item).Returns := by
  induction member with
  | @here count reader item rest tag framed =>
      rw [readItems, framed] at returns
      simp only at returns
      cases decoded : decodeValue dict budget tag item with
      | ok value => exact trivial
      | error cause => exact trivial
      | panic => simp [decoded] at returns
      | exhausted => simp [decoded] at returns
  | @later count reader item rest other valType tag framed accepted _
      inductionHypothesis =>
      rw [readItems, framed] at returns
      simp only at returns
      have first : (decodeValue dict budget valType.toByte item).Returns := by
        cases decoded : decodeValue dict budget valType.toByte item with
        | ok value => exact trivial
        | error cause => exact trivial
        | panic => simp [decoded] at returns
        | exhausted => simp [decoded] at returns
      obtain ⟨value, decoded⟩ :=
        (decodeValue_accepted first).mpr ⟨valType, rfl, accepted⟩
      rw [decoded] at returns
      exact inductionHypothesis ((Outcome.returns_map _).mp returns)

theorem Reached.decodes {data : Bytes} {tag : UInt8} {bytes : Bytes}
    (reached : Reached data tag bytes)
    (root : Decodes dict ValueType.object.toByte data) :
    Decodes dict tag bytes := by
  induction reached with
  | root => exact root
  | field _ headed before passes inductionHypothesis =>
      obtain ⟨budget, returns⟩ := inductionHypothesis
      cases budget with
      | zero => exact absurd returns Outcome.not_returns_exhausted
      | succ budget =>
          exact ⟨budget, ((object_returns_iff headed).mp returns _ before
            passes).2⟩
  | item _ framed member inductionHypothesis =>
      obtain ⟨budget, returns⟩ := inductionHypothesis
      cases budget with
      | zero => exact absurd returns Outcome.not_returns_exhausted
      | succ budget =>
          rw [decodeValue_framed framed] at returns
          exact ⟨budget, item_returns member
            ((Outcome.returns_map Value.array).mp returns)⟩

theorem not_returns_of_spansAll {bytes : Bytes} {index : Nat}
    (headed : WellHeaded bytes) (before : index < fieldCountOf bytes)
    (passes : (entryAt bytes index).Passes bytes)
    (spans : (entryAt bytes index).SpansAll bytes) (budget : Nat) :
    ¬(decodeValue dict budget ValueType.object.toByte bytes).Returns := by
  obtain ⟨isObject, start, whole⟩ := spans
  induction budget with
  | zero => exact Outcome.not_returns_exhausted
  | succ budget inductionHypothesis =>
      intro returns
      have nested := ((object_returns_iff headed).mp returns index before
        passes).2
      have same : (entryAt bytes index).content bytes = bytes := by
        unfold FieldLocation.content
        rw [start, whole, UInt32.toNat_zero, List.drop_zero,
          List.take_length]
      rw [isObject, same] at nested
      exact inductionHypothesis nested

theorem contained_of_decodes {data : Bytes}
    (root : Decodes dict ValueType.object.toByte data) :
    Contained data := by
  intro bytes reached headed index before passes
  obtain ⟨budget, returns⟩ := reached.decodes root
  constructor
  · cases budget with
    | zero => exact absurd returns Outcome.not_returns_exhausted
    | succ budget =>
        exact ((object_returns_iff headed).mp returns index before passes).1
  · intro spans
    exact not_returns_of_spansAll headed before passes spans budget returns

end Termination

section Accessors

variable {data : Bytes} {dict : FieldDictionary}

theorem searchField_ok (headed : WellHeaded data) (fieldID : UInt32)
    {left stop : Nat} (bounded : stop ≤ fieldCountOf data) :
    ∃ found, DocumentView.searchField ⟨data, dict, fieldCountOf data⟩
        fieldID left stop = .ok found ∧
      ∀ loc, found = some loc →
        ∃ index, index < fieldCountOf data ∧ loc = entryAt data index ∧
          fieldIDAt data index = fieldID := by
  have directory := headed.2.2
  induction distance : stop - left using Nat.strong_induction_on
    generalizing left stop with
  | _ distance inductionHypothesis =>
      rw [DocumentView.searchField]
      by_cases nonempty : left < stop
      · have middle : left + (stop - 1 - left) / 2 < stop := by omega
        have inside := entry_inside (Nat.lt_of_lt_of_le middle bounded)
          directory
        rw [if_pos nonempty]
        simp only
        rw [wordAt_ok (by omega), byteAt_ok (by omega),
          wordAt_ok (by omega), wordAt_ok (by omega)]
        simp only [Outcome.ok_bind, Outcome.pure_eq]
        split
        · rename_i same
          refine ⟨_, rfl, ?_⟩
          rintro loc ⟨⟩
          exact ⟨_, Nat.lt_of_lt_of_le middle bounded, rfl, same⟩
        · split
          · exact inductionHypothesis _ (by omega) bounded rfl
          · exact inductionHypothesis _ (by omega) (by omega) rfl
      · rw [if_neg nonempty]
        exact ⟨none, rfl, fun loc missing => nomatch missing⟩

theorem getFieldLoc_ok (headed : WellHeaded data) (field : Bytes) :
    ∃ found, DocumentView.getFieldLoc ⟨data, dict, fieldCountOf data⟩
        field = .ok found ∧
      ∀ loc, found = some loc →
        ∃ index, index < fieldCountOf data ∧ loc = entryAt data index ∧
          dict.getID field = some (fieldIDAt data index) := by
  unfold DocumentView.getFieldLoc
  simp only
  cases dict.getID field with
  | none => exact ⟨none, rfl, fun loc missing => nomatch missing⟩
  | some fieldID =>
      obtain ⟨found, searched, entry⟩ :=
        @searchField_ok data dict headed fieldID 0 _ (Nat.le_refl _)
      refine ⟨found, searched, fun loc same => ?_⟩
      obtain ⟨index, before, located, numbered⟩ := entry loc same
      exact ⟨index, before, located, by rw [numbered]⟩

variable (headed : WellHeaded data)
  (flat : ∀ index, index < fieldCountOf data →
    (entryAt data index).Passes data → ¬(entryAt data index).Wraps)
include headed

/-- What an accessor does after the search comes back, if it comes back for
every entry of the directory. -/
theorem located_returns {α : Type} (field : Bytes)
    {next : Option FieldLocation → Outcome α} (missing : (next none).Returns)
    (entries : ∀ index, index < fieldCountOf data →
      (next (some (entryAt data index))).Returns) :
    (DocumentView.getFieldLoc ⟨data, dict, fieldCountOf data⟩ field >>=
      next).Returns := by
  obtain ⟨found, located, entry⟩ := @getFieldLoc_ok data dict headed field
  rw [located, Outcome.ok_bind]
  cases found with
  | none => exact missing
  | some loc =>
      obtain ⟨index, before, rfl, _⟩ := entry loc rfl
      exact entries index before

theorem has_returns (field : Bytes) :
    (DocumentView.has ⟨data, dict, fieldCountOf data⟩ field).Returns :=
  located_returns headed field trivial fun _ _ => trivial

include flat

theorem rawField_returns (valType : ValueType) (field : Bytes) :
    (DocumentView.rawField ⟨data, dict, fieldCountOf data⟩ valType
      field).Returns := by
  refine located_returns headed field trivial fun index before => ?_
  refine .ite (fun _ => trivial) fun _ =>
    .ite (fun _ => trivial) fun outside => ?_
  have passes : (entryAt data index).Passes data :=
    passes_of_inRange outside
  rw [slice_flat passes (flat index before passes)]
  exact trivial

theorem word_returns (valTypes : List ValueType) (field : Bytes) :
    (DocumentView.word ⟨data, dict, fieldCountOf data⟩ valTypes
      field).Returns := by
  refine located_returns headed field trivial fun index before => ?_
  refine .ite (fun _ => trivial) fun _ =>
    .ite (fun _ => trivial) fun outside => ?_
  obtain ⟨inRange, long⟩ := not_or.mp outside
  have passes : (entryAt data index).Passes data :=
    passes_of_inRange inRange
  have inside := FieldLocation.within passes (flat index before passes)
  have eight : 8 ≤ (entryAt data index).length.toNat :=
    Nat.le_of_not_lt fun short => long (UInt32.lt_iff_toNat_lt.mpr short)
  have small := Nat.lt_of_not_le (flat index before passes)
  have stop : ((entryAt data index).offset + 8).toNat =
      (entryAt data index).offset.toNat + 8 := by
    rw [UInt32.toNat_add]
    exact Nat.mod_eq_of_lt (by simp only [UInt32.reduceToNat]; omega)
  rw [stop, @slice_ok data _ _ (by omega) (by omega)]
  exact trivial

theorem bool_returns (field : Bytes) :
    (DocumentView.bool ⟨data, dict, fieldCountOf data⟩ field).Returns := by
  refine located_returns headed field trivial fun index before => ?_
  refine .ite (fun _ => trivial) fun _ =>
    .ite (fun _ => trivial) fun outside => ?_
  obtain ⟨inRange, long⟩ := not_or.mp outside
  have passes : (entryAt data index).Passes data :=
    passes_of_inRange inRange
  have inside := FieldLocation.within passes (flat index before passes)
  have one : 1 ≤ (entryAt data index).length.toNat :=
    Nat.le_of_not_lt fun short => long (UInt32.lt_iff_toNat_lt.mpr short)
  rw [@byteAt_ok data _ (by omega)]
  exact trivial

theorem vector_returns (field : Bytes) :
    (DocumentView.vector ⟨data, dict, fieldCountOf data⟩
      field).Returns := by
  refine located_returns headed field trivial fun index before => ?_
  refine .ite (fun _ => trivial) fun _ =>
    .ite (fun _ => trivial) fun outside => ?_
  have passes : (entryAt data index).Passes data :=
    passes_of_inRange outside
  have inside := FieldLocation.within passes (flat index before passes)
  have small := Nat.lt_of_not_le (flat index before passes)
  have position : ∀ later,
      later * 4 ≤ (entryAt data index).length.toNat →
        ((entryAt data index).offset +
          UInt32.ofNat (later * 4)).toNat =
            (entryAt data index).offset.toNat + later * 4 := by
    intro later bound
    have lengthSmall := (entryAt data index).length.toNat_lt
    rw [UInt32.toNat_add, UInt32.toNat_ofNat_of_lt' (by
      rw [UInt32.size]
      omega)]
    exact Nat.mod_eq_of_lt (by omega)
  obtain ⟨floats, read⟩ := @readFloats_ok data
    (fun later => ((entryAt data index).offset +
      UInt32.ofNat (later * 4)).toNat) 0
    ((entryAt data index).length.toNat / 4) fun later earlier => by
      rw [position later (by omega), position (later + 1) (by omega)]
      omega
  rw [read]
  exact trivial

theorem float64_returns (field : Bytes) :
    (DocumentView.float64 ⟨data, dict, fieldCountOf data⟩
      field).Returns := by
  have asFloat := @word_returns data dict headed flat [.float64] field
  have asInt := @word_returns data dict headed flat [.int64, .uint64] field
  refine located_returns headed field trivial fun index before => ?_
  refine .ite (fun _ => asFloat) fun _ => .ite (fun _ => ?_) fun _ => trivial
  exact (Outcome.returns_map _).mpr ((Outcome.returns_map _).mpr asInt)

end Accessors

theorem get_returns {data : Bytes} {dict : FieldDictionary}
    (headed : WellHeaded data) (contained : Contained data)
    (field : Bytes) :
    ∃ budget, (DocumentView.get ⟨data, dict, fieldCountOf data⟩ budget
      field).Returns := by
  obtain ⟨budget, returns⟩ := @Contained.decodes dict data contained
    data.length _ _ (zeroFrom_length data) .root
  cases budget with
  | zero => exact absurd returns Outcome.not_returns_exhausted
  | succ budget =>
      refine ⟨budget, ?_⟩
      have fields := (object_returns_iff headed).mp returns
      refine located_returns headed field trivial fun index before => ?_
      refine .ite (fun _ => trivial) fun outside => ?_
      have passes : (entryAt data index).Passes data :=
        passes_of_inRange outside
      obtain ⟨flat, decoded⟩ := fields index before passes
      rw [slice_flat passes flat]
      simp only [Outcome.ok_bind]
      cases result : decodeValue dict budget (entryAt data index).valType
          ((entryAt data index).content data) with
      | ok value => exact trivial
      | error cause => exact trivial
      | panic => simp [result] at decoded
      | exhausted => simp [result] at decoded

structure AccessorsReturn (view : DocumentView) (field : Bytes) : Prop where
  has : (view.has field).Returns
  stringBytes : (view.stringBytes field).Returns
  string : (view.string field).Returns
  int64 : (view.int64 field).Returns
  float64 : (view.float64 field).Returns
  bool : (view.bool field).Returns
  bytes : (view.bytes field).Returns
  vector : (view.vector field).Returns
  time : (view.time field).Returns
  get : ∃ budget, (view.get budget field).Returns

def SafelyRead (data : Bytes) (dict : FieldDictionary) : Prop :=
  ∀ view, newDocumentView data dict = .ok view →
    (∃ budget, (view.toMap budget).Returns) ∧
      ∀ field, AccessorsReturn view field

theorem toMap_returns_iff {data : Bytes} {dict : FieldDictionary}
    (headed : WellHeaded data) {budget : Nat} :
    (DocumentView.toMap ⟨data, dict, fieldCountOf data⟩ budget).Returns ↔
      (decodeValue dict (budget + 1) ValueType.object.toByte
        data).Returns := by
  rw [decodeValue_headed headed, Outcome.returns_map Value.object]
  rfl

theorem decodes_of_safelyRead {data : Bytes} {dict : FieldDictionary}
    (safe : SafelyRead data dict) :
    Decodes dict ValueType.object.toByte data := by
  by_cases headed : WellHeaded data
  · obtain ⟨⟨budget, returns⟩, _⟩ :=
      safe _ (newDocumentView_ok dict headed)
    exact ⟨budget + 1, (toMap_returns_iff headed).mp returns⟩
  · obtain ⟨cause, failed⟩ := @decodeValue_headless dict 0 _ headed
    exact ⟨1, by rw [failed]; exact trivial⟩

theorem accessorsReturn_of_contained {data : Bytes}
    {dict : FieldDictionary} (headed : WellHeaded data)
    (contained : Contained data) (field : Bytes) :
    AccessorsReturn ⟨data, dict, fieldCountOf data⟩ field := by
  have flat : ∀ index, index < fieldCountOf data →
      (entryAt data index).Passes data → ¬(entryAt data index).Wraps :=
    fun index before passes =>
      (contained data .root headed index before passes).1
  have words := fun valTypes => @word_returns data dict headed flat valTypes
    field
  have raw := fun valType => @rawField_returns data dict headed flat valType
    field
  exact
    { has := has_returns headed field
      stringBytes := raw .string
      string := raw .string
      int64 := (Outcome.returns_map _).mpr (words _)
      float64 := float64_returns headed flat field
      bool := bool_returns headed flat field
      bytes := raw .bytes
      vector := vector_returns headed flat field
      time := (Outcome.returns_map _).mpr (words _)
      get := get_returns headed contained field }

/-- A document can be read without panics and without end exactly when, in
every object it reaches, the entries that pass the bounds check neither wrap
nor span the whole object. -/
theorem safelyRead_iff_contained (data : Bytes) (dict : FieldDictionary) :
    SafelyRead data dict ↔ Contained data := by
  constructor
  · intro safe
    exact contained_of_decodes (decodes_of_safelyRead safe)
  · intro contained view opened
    have headed := wellHeaded_of_view opened
    rw [newDocumentView_ok dict headed] at opened
    cases opened
    obtain ⟨budget, returns⟩ := @Contained.decodes dict data contained
      data.length _ _ (zeroFrom_length data) .root
    refine ⟨⟨budget, (toMap_returns_iff headed).mpr ?_⟩,
      accessorsReturn_of_contained headed contained⟩
    exact returns_of_le (Nat.le_succ budget) returns

def selfNested : Bytes :=
  csonHeader 1 ++ be 4 1 ++ [ValueType.object.toByte, 0] ++ be 4 0 ++ be 4 22

def wrappedField : Bytes :=
  csonHeader 1 ++ be 4 1 ++ [ValueType.bytes.toByte, 0] ++
    be 4 0xFFFFFFFF ++ be 4 1

theorem documents_not_safelyRead :
    ¬SafelyRead selfNested .newFieldDictionary ∧
      ¬SafelyRead wrappedField .newFieldDictionary := by
  constructor
  · intro safe
    obtain ⟨budget, returns⟩ := decodes_of_safelyRead safe
    have headed : WellHeaded selfNested := by
      refine ⟨by decide, by decide, by decide⟩
    exact @not_returns_of_spansAll _ _ 0 headed (by decide) (by decide)
      ⟨by decide, by decide, by decide⟩ budget returns
  · intro safe
    have contained := contained_of_decodes (decodes_of_safelyRead safe)
    have headed : WellHeaded wrappedField := by
      refine ⟨by decide, by decide, by decide⟩
    have entry := contained wrappedField .root headed 0 (by decide)
      (by decide)
    exact entry.1 (by unfold FieldLocation.Wraps; decide)

end CocoDB.Cson
