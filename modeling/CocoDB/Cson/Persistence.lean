import CocoDB.Cson.Growth
import CocoDB.Lib.Sweep

/-!
# Persisting a dictionary

`Encode` and `Decode` of `internal/cson/types.go`.  The entries of the map are
written in any order.  A `bytes.Reader` with nothing left answers `io.EOF` even
to a read of nothing, so an empty name is lost when it comes last.
-/

namespace CocoDB.Cson

open CocoDB.Lib

abbrev NamedID := Sigma fun _ : Bytes => UInt32

namespace FieldDictionary

/-- A number, the length of the name cut to sixteen bits, and the name. -/
def encodeEntry (entry : NamedID) : Bytes :=
  be 4 entry.2.toNat ++ (be 2 entry.1.length ++ entry.1)

/-- `Encode`; the number of names is cut to 32 bits. -/
def encode (order : Shuffle NamedID) (dict : FieldDictionary) : Bytes :=
  be 4 dict.nextID.toNat ++ (be 4 dict.nameToID.entries.length ++
    (order.arrange dict.nameToID.entries).flatMap encodeEntry)

/-- `binary.Read` of a `uint16`. -/
def readUint16 (reader : Bytes) : Except CsonError (Nat × Bytes) :=
  if reader = [] then .error .eof
  else if reader.length < 2 then .error .unexpectedEOF
  else .ok (ofBE (reader.take 2), reader.drop 2)

def readEntry (reader : Bytes) : Except CsonError (NamedID × Bytes) :=
  match readUint32 reader with
  | .error cause => .error cause
  | .ok (fieldID, afterID) =>
      match readUint16 afterID with
      | .error cause => .error cause
      | .ok (nameLen, rest) =>
          if rest = [] then .error .eof
          else
            .ok (⟨rest.take nameLen ++
                List.replicate (nameLen - rest.length) 0,
              UInt32.ofNat fieldID⟩, rest.drop nameLen)

def load (entry : NamedID) (dict : FieldDictionary) : FieldDictionary :=
  { dict with
    nameToID := dict.nameToID.insert entry.1 entry.2
    idToName := dict.idToName.insert entry.2 entry.1 }

/-- The loop of `Decode`. -/
def readEntries : Nat → Bytes → FieldDictionary →
    Except CsonError Unit × FieldDictionary
  | 0, _, dict => (.ok (), dict)
  | count + 1, reader, dict =>
      match readEntry reader with
      | .error cause => (.error cause, dict)
      | .ok (entry, rest) => readEntries count rest (dict.load entry)

def decode (data : Bytes) (dict : FieldDictionary) :
    Except CsonError Unit × FieldDictionary :=
  if data.length < 8 then (.ok (), dict)
  else
    match readUint32 data with
    | .error cause => (.error cause, dict)
    | .ok (nextID, reader) =>
        let counted := { dict with nextID := UInt32.ofNat nextID }
        match readUint32 reader with
        | .error cause => (.error cause, counted)
        | .ok (count, rest) => readEntries count rest counted

def reload (order : Shuffle NamedID) (dict : FieldDictionary) :
    Except CsonError Unit × FieldDictionary :=
  newFieldDictionary.decode (dict.encode order)

/-! ## Reading what was written -/

theorem readUint32_be_mod (value : Nat) (rest : Bytes) :
    readUint32 (be 4 value ++ rest) = .ok (value % 2 ^ 32, rest) := by
  rw [← be_ofBE_of_length (be_length 4 value), ofBE_be]
  exact readUint32_be rest (Nat.mod_lt value (by decide))

theorem readUint16_be (value : Nat) (rest : Bytes) :
    readUint16 (be 2 value ++ rest) = .ok (value % 2 ^ 16, rest) := by
  have sized : (be 2 value).length = 2 := be_length 2 value
  have long : ¬ (be 2 value ++ rest).length < 2 := by
    rw [List.length_append, sized]
    omega
  have given : be 2 value ++ rest ≠ [] := by
    intro empty
    rw [empty] at long
    exact long (by decide)
  rw [readUint16, if_neg given, if_neg long, List.take_left' sized,
    List.drop_left' sized, ofBE_be]
  rfl

variable {entry : NamedID} {entries : List NamedID} {dict : FieldDictionary}

theorem readEntry_encodeEntry (short : entry.1.length ≤ 65535)
    (rest : Bytes) :
    readEntry (encodeEntry entry ++ rest) =
      if entry.1 = [] ∧ rest = [] then .error .eof
      else .ok (entry, rest) := by
  have small : entry.2.toNat % 2 ^ 32 = entry.2.toNat :=
    Nat.mod_eq_of_lt entry.2.toNat_lt
  have fits : entry.1.length % 2 ^ 16 = entry.1.length :=
    Nat.mod_eq_of_lt (by omega)
  simp only [readEntry, encodeEntry, List.append_assoc, readUint32_be_mod,
    readUint16_be, small, fits, List.append_eq_nil_iff]
  by_cases last : entry.1 = [] ∧ rest = []
  · rw [if_pos last, if_pos last]
  · rw [if_neg last, if_neg last, List.length_append,
      Nat.sub_eq_zero_of_le (Nat.le_add_right _ _), List.replicate_zero,
      List.append_nil, List.take_left, List.drop_left, UInt32.ofNat_toNat]

def loadAll (entries : List NamedID) (dict : FieldDictionary) :
    FieldDictionary :=
  entries.foldl (fun dict entry => dict.load entry) dict

theorem loadAll_nextID (entries : List NamedID) (dict : FieldDictionary) :
    (dict.loadAll entries).nextID = dict.nextID := by
  induction entries generalizing dict with
  | nil => rfl
  | cons entry rest inductionHypothesis =>
      exact inductionHypothesis (dict.load entry)

theorem readEntries_written
    (short : ∀ entry ∈ entries, entry.1.length ≤ 65535)
    (dict : FieldDictionary) :
    readEntries entries.length (entries.flatMap encodeEntry) dict =
      if entries.getLast?.map Sigma.fst = some [] then
        (.error .eof, dict.loadAll entries.dropLast)
      else (.ok (), dict.loadAll entries) := by
  induction entries generalizing dict with
  | nil => rfl
  | cons entry rest inductionHypothesis =>
      obtain ⟨first, others⟩ := List.forall_mem_cons.mp short
      have next := inductionHypothesis others (dict.load entry)
      rw [List.flatMap_cons, List.length_cons, readEntries,
        readEntry_encodeEntry first]
      cases rest with
      | nil =>
          by_cases empty : entry.1 = []
          · simp [empty, loadAll]
          · simp [empty, loadAll, readEntries]
      | cons second rest =>
          have written : (second :: rest).flatMap encodeEntry ≠ [] := by
            intro nothing
            have sized := congrArg List.length nothing
            rw [List.flatMap_cons, encodeEntry, List.length_append,
              List.length_append, be_length] at sized
            simp at sized
          rw [if_neg (fun both => written both.2)]
          simp only [next, List.getLast?_cons_cons, List.dropLast_cons_cons]
          rfl

/-! ## Loading a numbering -/

structure Within (whole dict : FieldDictionary) : Prop where
  names : ∀ name fieldID, dict.getID name = some fieldID →
    whole.getID name = some fieldID
  ids : ∀ fieldID name, dict.getName fieldID = some name →
    whole.getName fieldID = some name

variable {whole : FieldDictionary}

theorem getID_load (entry : NamedID) (name : Bytes) :
    (dict.load entry).getID name =
      if name = entry.1 then some entry.2 else dict.getID name := by
  by_cases same : name = entry.1
  · rw [same, if_pos rfl]
    exact AList.lookup_insert dict.nameToID
  · rw [if_neg same]
    exact AList.lookup_insert_ne same

theorem getName_load (entry : NamedID) (fieldID : UInt32) :
    (dict.load entry).getName fieldID =
      if fieldID = entry.2 then some entry.1 else dict.getName fieldID := by
  by_cases same : fieldID = entry.2
  · rw [same, if_pos rfl]
    exact AList.lookup_insert dict.idToName
  · rw [if_neg same]
    exact AList.lookup_insert_ne same

def Holds (dict : FieldDictionary) (entry : NamedID) : Prop :=
  dict.getID entry.1 = some entry.2 ∧ dict.getName entry.2 = some entry.1

theorem Within.load (within : Within whole dict) (held : whole.Holds entry) :
    Within whole (dict.load entry) := by
  constructor
  · intro name fieldID known
    rw [getID_load] at known
    split at known
    · next same => rw [same, ← known, held.1]
    · exact within.names name fieldID known
  · intro fieldID name listed
    rw [getName_load] at listed
    split at listed
    · next same => rw [same, ← listed, held.2]
    · exact within.ids fieldID name listed

theorem holds_load_self : (dict.load entry).Holds entry :=
  ⟨by rw [getID_load, if_pos rfl], by rw [getName_load, if_pos rfl]⟩

theorem Holds.load {other : NamedID} (holds : dict.Holds other)
    (within : Within whole dict) (held : whole.Holds entry) :
    (dict.load entry).Holds other := by
  constructor
  · rw [getID_load]
    split
    · next same =>
        rw [← held.1, ← same]
        exact within.names _ _ holds.1
    · exact holds.1
  · rw [getName_load]
    split
    · next same =>
        rw [← held.2, ← same]
        exact within.ids _ _ holds.2
    · exact holds.2

theorem loadAll_within (within : Within whole dict)
    (held : ∀ entry ∈ entries, whole.Holds entry) :
    Within whole (dict.loadAll entries) ∧
      (∀ entry, dict.Holds entry → (dict.loadAll entries).Holds entry) ∧
      ∀ entry ∈ entries, (dict.loadAll entries).Holds entry := by
  induction entries generalizing dict with
  | nil =>
      exact ⟨within, fun _ holds => holds,
        fun _ member => (nomatch member)⟩
  | cons entry rest inductionHypothesis =>
      obtain ⟨first, others⟩ := List.forall_mem_cons.mp held
      obtain ⟨inside, kept, all⟩ :=
        inductionHypothesis (within.load first) others
      refine ⟨inside, ?_, ?_⟩
      · intro other holds
        exact kept other (holds.load within first)
      · exact List.forall_mem_cons.mpr ⟨kept entry holds_load_self, all⟩

theorem loadAll_eq (inverse : ∀ name fieldID,
      whole.getID name = some fieldID ↔ whole.getName fieldID = some name)
    (within : Within whole dict)
    (listed : ∀ entry, entry ∈ entries ↔ entry ∈ whole.nameToID.entries) :
    (∀ name, (dict.loadAll entries).getID name = whole.getID name) ∧
      ∀ fieldID, (dict.loadAll entries).getName fieldID =
        whole.getName fieldID := by
  have known : ∀ entry ∈ entries, whole.Holds entry := by
    intro entry member
    have found : whole.getID entry.1 = some entry.2 :=
      AList.mem_lookup_iff.mpr ((listed entry).mp member)
    exact ⟨found, (inverse _ _).mp found⟩
  obtain ⟨inside, _, all⟩ := loadAll_within within known
  have member : ∀ name fieldID, whole.getID name = some fieldID →
      (⟨name, fieldID⟩ : NamedID) ∈ entries := by
    intro name fieldID found
    exact (listed _).mpr (AList.mem_lookup_iff.mp found)
  constructor
  · intro name
    apply Option.ext
    intro fieldID
    exact ⟨inside.names name fieldID,
      fun found => (all _ (member name fieldID found)).1⟩
  · intro fieldID
    apply Option.ext
    intro name
    exact ⟨inside.ids fieldID name,
      fun found => (all _ (member name fieldID ((inverse _ _).mpr found))).2⟩

/-! ## Counting the names -/

structure Counted (count : Nat) (dict : FieldDictionary) : Prop where
  inverse : ∀ name fieldID, dict.getID name = some fieldID ↔
    dict.getName fieldID = some name
  upTo : ∀ name fieldID, dict.getID name = some fieldID →
    0 < fieldID.toNat ∧ fieldID.toNat ≤ count
  next : dict.nextID.toNat = (count + 1) % 2 ^ 32

theorem counted_newFieldDictionary : newFieldDictionary.Counted 1 where
  inverse := newFieldDictionary_wellFormed.inverse
  upTo name fieldID known := by
    have below := newFieldDictionary_wellFormed.below name fieldID known
    have positive : fieldID ≠ 0 := by
      intro zero
      have listed := (newFieldDictionary_wellFormed.inverse name fieldID).mp
        known
      rw [zero] at listed
      exact absurd (listed.symm.trans (show _ = none from rfl)) (by simp)
    have small : newFieldDictionary.nextID.toNat = 2 := rfl
    constructor
    · apply Nat.pos_of_ne_zero
      intro zero
      exact positive (UInt32.toNat.inj zero)
    · omega
  next := rfl

theorem Counted.assign {count : Nat} (counted : dict.Counted count)
    {name : Bytes} (fresh : dict.getID name = none)
    (room : count + 1 < 2 ^ 32) : (dict.assign name).Counted (count + 1) := by
  have number : dict.nextID.toNat = count + 1 := by
    rw [counted.next, Nat.mod_eq_of_lt room]
  have unused : ∀ other fieldID, dict.getID other = some fieldID →
      fieldID ≠ dict.nextID := by
    intro other fieldID known same
    have last := (counted.upTo other fieldID known).2
    rw [same, number] at last
    omega
  constructor
  · intro other fieldID
    by_cases sameName : other = name
    · rw [sameName, getID_assign_self]
      by_cases sameID : fieldID = dict.nextID
      · rw [sameID, getName_assign_self]
        exact iff_of_true rfl rfl
      · rw [getName_assign_ne dict name sameID]
        apply iff_of_false
        · intro equal
          exact sameID (Option.some.inj equal).symm
        · intro listed
          rw [(counted.inverse name fieldID).mpr listed] at fresh
          cases fresh
    · rw [getID_assign_ne dict sameName]
      by_cases sameID : fieldID = dict.nextID
      · rw [sameID, getName_assign_self]
        apply iff_of_false
        · intro known
          exact unused other _ known rfl
        · intro equal
          exact sameName (Option.some.inj equal).symm
      · rw [getName_assign_ne dict name sameID]
        exact counted.inverse other fieldID
  · intro other fieldID known
    by_cases sameName : other = name
    · rw [sameName, getID_assign_self] at known
      rw [← Option.some.inj known, number]
      omega
    · rw [getID_assign_ne dict sameName] at known
      have bounds := counted.upTo other fieldID known
      omega
  · change (dict.nextID + 1).toNat = _
    rw [UInt32.toNat_add, number]
    rfl

theorem Counted.assignAll {names : List Bytes} {count : Nat}
    (counted : dict.Counted count)
    (room : count + (dict.freshNames names).card < 2 ^ 32) :
    (dict.assignAll names).Counted
      (count + (dict.freshNames names).card) := by
  induction names generalizing dict count with
  | nil => exact counted
  | cons name rest inductionHypothesis =>
      rw [assignAll_cons]
      cases found : dict.getID name with
      | some fieldID =>
          rw [freshNames_of_known rest found] at room ⊢
          rw [getOrAssignID_of_known found]
          exact inductionHypothesis counted room
      | none =>
          rw [card_freshNames_of_fresh rest found] at room ⊢
          rw [getOrAssignID_of_fresh found]
          have next := inductionHypothesis
            (counted.assign found (by omega)) (by omega)
          rwa [Nat.add_assoc, Nat.add_comm 1] at next

theorem length_assignAll (names : List Bytes) (dict : FieldDictionary) :
    (dict.assignAll names).nameToID.entries.length =
      dict.nameToID.entries.length + (dict.freshNames names).card := by
  induction names generalizing dict with
  | nil => rfl
  | cons name rest inductionHypothesis =>
      rw [assignAll_cons]
      cases found : dict.getID name with
      | some fieldID =>
          rw [freshNames_of_known rest found, getOrAssignID_of_known found]
          exact inductionHypothesis dict
      | none =>
          have absent : name ∉ dict.nameToID := AList.lookup_eq_none.mp found
          have longer : (dict.assign name).nameToID.entries.length =
              dict.nameToID.entries.length + 1 := by
            simp only [FieldDictionary.assign]
            rw [AList.insert_of_notMem absent]
            rfl
          rw [card_freshNames_of_fresh rest found,
            getOrAssignID_of_fresh found]
          simp only
          rw [inductionHypothesis, longer]
          omega

theorem getID_assignAll_of_not_mem {names : List Bytes} {name : Bytes}
    (absent : name ∉ names) (dict : FieldDictionary) :
    (dict.assignAll names).getID name = dict.getID name := by
  induction names generalizing dict with
  | nil => rfl
  | cons head rest inductionHypothesis =>
      rw [List.mem_cons, not_or] at absent
      rw [assignAll_cons, inductionHypothesis absent.2]
      cases found : dict.getID head with
      | some fieldID => rw [getOrAssignID_of_known found]
      | none =>
          rw [getOrAssignID_of_fresh found]
          exact getID_assign_ne dict absent.1

theorem card_freshNames_mono {names front : List Bytes}
    (isPrefix : front <+: names) (dict : FieldDictionary) :
    (dict.freshNames front).card ≤ (dict.freshNames names).card := by
  apply Finset.card_le_card
  apply Finset.filter_subset_filter
  intro name member
  rw [List.mem_toFinset] at member ⊢
  exact isPrefix.subset member

/-! ## Reloading -/

/-- The dictionary of a collection after some calls of `GetOrAssignID`. -/
def numbered (names : List Bytes) : FieldDictionary :=
  newFieldDictionary.assignAll names

def recounted (whole : FieldDictionary) : FieldDictionary :=
  { newFieldDictionary with nextID := whole.nextID }

theorem reload_eq (order : Shuffle NamedID) (whole : FieldDictionary) :
    reload order whole =
      readEntries (whole.nameToID.entries.length % 2 ^ 32)
        ((order.arrange whole.nameToID.entries).flatMap encodeEntry)
        whole.recounted := by
  have long : ¬ (whole.encode order).length < 8 := by
    simp only [encode, List.length_append, be_length]
    omega
  have small : whole.nextID.toNat % 2 ^ 32 = whole.nextID.toNat :=
    Nat.mod_eq_of_lt whole.nextID.toNat_lt
  rw [reload, decode, if_neg long, encode]
  simp only [readUint32_be_mod, small, UInt32.ofNat_toNat]
  rfl

/-- What a dictionary promises about a sequence of calls and the order in which
it is written afterwards. -/
structure Persistent (order : Shuffle NamedID) (names : List Bytes) :
    Prop where
  bijection : ∀ front, front <+: names → ∀ name fieldID,
    (numbered front).getID name = some fieldID ↔
      (numbered front).getName fieldID = some name
  neverReused : ∀ front, front <+: names → ∀ name fieldID,
    (numbered front).getID name = some fieldID →
      ∀ other, (numbered names).getID other = some fieldID → other = name
  accepted : (reload order (numbered names)).1 = .ok ()
  sameIDs : ∀ name,
    (reload order (numbered names)).2.getID name =
      (numbered names).getID name
  sameNames : ∀ fieldID,
    (reload order (numbered names)).2.getName fieldID =
      (numbered names).getName fieldID
  sameNext : (reload order (numbered names)).2.nextID =
    (numbered names).nextID
  nextUnused : ∀ name, (numbered names).getID name ≠
    some (reload order (numbered names)).2.nextID

section Reloading

variable {names : List Bytes}

theorem counted_numbered
    (room : (newFieldDictionary.freshNames names).card + 1 < 2 ^ 32) :
    (numbered names).Counted
      (1 + (newFieldDictionary.freshNames names).card) :=
  counted_newFieldDictionary.assignAll (by omega)

theorem length_numbered (names : List Bytes) :
    (numbered names).nameToID.entries.length =
      1 + (newFieldDictionary.freshNames names).card :=
  length_assignAll names newFieldDictionary

theorem short_numbered (short : ∀ name ∈ names, name.length ≤ 65535)
    {entry : NamedID} (member : entry ∈ (numbered names).nameToID.entries) :
    entry.1.length ≤ 65535 := by
  by_cases listed : entry.1 ∈ names
  · exact short entry.1 listed
  · have known : (numbered names).getID entry.1 = some entry.2 :=
      AList.mem_lookup_iff.mpr member
    rw [numbered, getID_assignAll_of_not_mem listed] at known
    by_cases reserved : entry.1 = idField
    · rw [reserved]
      decide
    · have unknown : newFieldDictionary.getID entry.1 = none :=
        AList.lookup_insert_ne reserved
      rw [unknown] at known
      cases known

theorem reload_numbered (short : ∀ name ∈ names, name.length ≤ 65535)
    (order : Shuffle NamedID)
    (room : (newFieldDictionary.freshNames names).card + 1 < 2 ^ 32) :
    reload order (numbered names) =
      if (order.arrange (numbered names).nameToID.entries).getLast?.map
          Sigma.fst = some [] then
        (.error .eof, (numbered names).recounted.loadAll
          (order.arrange (numbered names).nameToID.entries).dropLast)
      else (.ok (), (numbered names).recounted.loadAll
        (order.arrange (numbered names).nameToID.entries)) := by
  have arranged := order.perm (numbered names).nameToID.entries
  have sized := length_numbered names
  rw [reload_eq, Nat.mod_eq_of_lt (by omega), ← arranged.length_eq]
  apply readEntries_written
  intro entry member
  exact short_numbered short (arranged.mem_iff.mp member)

theorem within_recounted
    (room : (newFieldDictionary.freshNames names).card + 1 < 2 ^ 32) :
    Within (numbered names) (numbered names).recounted := by
  have grown := extends_assignAll newFieldDictionary names
  constructor
  · exact grown
  · intro fieldID name listed
    apply ((counted_numbered room).inverse name fieldID).mp
    apply grown
    exact (newFieldDictionary_wellFormed.inverse name fieldID).mpr listed

theorem persistent_of_last (short : ∀ name ∈ names, name.length ≤ 65535)
    (order : Shuffle NamedID)
    (room : (newFieldDictionary.freshNames names).card + 1 < 2 ^ 32)
    (last : (order.arrange (numbered names).nameToID.entries).getLast?.map
      Sigma.fst ≠ some []) : Persistent order names := by
  have counted := counted_numbered room
  have reloaded := reload_numbered short order room
  rw [if_neg last] at reloaded
  have same := loadAll_eq counted.inverse (within_recounted room)
    fun entry => (order.perm (numbered names).nameToID.entries).mem_iff
  have next : (reload order (numbered names)).2.nextID =
      (numbered names).nextID := by
    rw [reloaded]
    exact loadAll_nextID _ _
  constructor
  · intro front isPrefix
    have fewer := card_freshNames_mono isPrefix newFieldDictionary
    exact (counted_numbered (by omega)).inverse
  · intro front isPrefix name fieldID known other taken
    obtain ⟨back, rfl⟩ := isPrefix
    rw [numbered, assignAll_append] at taken counted
    have later := extends_assignAll (numbered front) back name fieldID known
    have one := (counted.inverse name fieldID).mp later
    rw [(counted.inverse other fieldID).mp taken] at one
    exact Option.some.inj one
  · rw [reloaded]
  · rw [reloaded]
    exact same.1
  · rw [reloaded]
    exact same.2
  · exact next
  · intro name known
    rw [next] at known
    have bounds := counted.upTo name _ known
    rw [counted.next] at bounds
    omega

theorem Persistent.room {order : Shuffle NamedID}
    (persistent : Persistent order names) :
    (newFieldDictionary.freshNames names).card + 1 < 2 ^ 32 := by
  have reserved : newFieldDictionary.getID idField = some 1 := rfl
  have resolves : (numbered names).Resolves idField := by
    have known := extends_assignAll newFieldDictionary names idField 1 reserved
    rw [Resolves, idOf]
    change (numbered names).getID idField = some 1 at known
    rw [known]
    exact (persistent.bijection names (List.prefix_refl names) _ _).mp known
  have most := (resolves_assignAll_iff names reserved rfl).mp resolves
  change _ ≤ 2 ^ 32 - 1 at most
  apply Nat.lt_of_le_of_ne (by omega)
  intro full
  -- the number of names is written as zero
  have sized := length_numbered names
  have reloaded : reload order (numbered names) =
      (.ok (), (numbered names).recounted) := by
    rw [reload_eq, sized, Nat.add_comm, full, Nat.mod_self]
    rfl
  have nonempty : (newFieldDictionary.freshNames names).Nonempty :=
    Finset.card_pos.mp (by omega)
  obtain ⟨name, member⟩ := nonempty
  rw [freshNames, Finset.mem_filter, List.mem_toFinset] at member
  obtain ⟨fieldID, known⟩ := known_assignAll member.1 newFieldDictionary
  have lost := persistent.sameIDs name
  rw [reloaded] at lost
  change newFieldDictionary.getID name = (numbered names).getID name at lost
  rw [member.2, numbered, known] at lost
  cases lost

end Reloading

/-- A dictionary survives with fewer than `2 ^ 32` names, unless the empty name
is the last to be written. -/
theorem persistent_iff {names : List Bytes}
    (short : ∀ name ∈ names, name.length ≤ 65535)
    (order : Shuffle NamedID) :
    Persistent order names ↔
      (newFieldDictionary.freshNames names).card + 1 < 2 ^ 32 ∧
        (order.arrange (numbered names).nameToID.entries).getLast?.map
          Sigma.fst ≠ some [] := by
  constructor
  · intro persistent
    refine ⟨persistent.room, ?_⟩
    intro last
    have accepted := persistent.accepted
    rw [reload_numbered short order persistent.room, if_pos last] at accepted
    cases accepted
  · rintro ⟨room, last⟩
    exact persistent_of_last short order room last

theorem persistent_of_title :
    Persistent (.listed NamedID) [[0x74], [], [0x61]] := by
  apply (persistent_iff _ (.listed NamedID)).mpr
  · exact ⟨by decide, by decide⟩
  · decide

/-- An empty name that is written last is not read. -/
theorem not_persistent_of_empty :
    ¬ Persistent ⟨List.reverse, List.reverse_perm⟩ [[0x74], []] := by
  intro persistent
  exact absurd persistent.accepted (by decide)

end FieldDictionary

end CocoDB.Cson
