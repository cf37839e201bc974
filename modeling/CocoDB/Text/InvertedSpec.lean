import CocoDB.Lib.Run
import CocoDB.Text.Inverted
import Mathlib.Algebra.BigOperators.Group.Finset.Piecewise
import Mathlib.Data.FinEnum
import Mathlib.Data.Fintype.BigOperators

/-!
# What the inverted index holds

The index against the texts that the records have now.  `IndexDoc` visits only
the terms of the new text, so that the postings of a record are exact as long as
no text loses a term of the one before it.
-/

namespace CocoDB.Text

open Lib

abbrev Tokens := UInt64 → List Bytes

/-- The index says what the current texts are. -/
structure Indexes (tokens : Tokens) (index : InvertedIndex) : Prop where
  postings : ∀ term posting, (index.postings term).count posting =
    if 0 < (tokens posting.recordID).count term ∧
        posting.tf.toNat = (tokens posting.recordID).count term then 1 else 0
  docLengths : ∀ recID, index.docLengths recID =
    if tokens recID = [] then none else some (tokens recID).length
  totalDocLen : index.totalDocLen = ∑ recID, ((tokens recID).length : Int)
  totalDocNum : index.totalDocNum =
    ∑ recID, if tokens recID = [] then (0 : Int) else 1

/-- The lists of terms that `DeleteDoc` goes through. -/
def ListsTerms (tokens : Tokens) (index : InvertedIndex) : Prop :=
  ∀ recID, if tokens recID = [] then index.docTerms recID = none
    else ∃ terms, index.docTerms recID = some terms ∧
      ∀ term, term ∈ terms ↔ term ∈ tokens recID

/-! ## Term frequencies -/

theorem lookup_termFrequencies (tokens : List Bytes) (term : Bytes) :
    (termFrequencies tokens).lookup term =
      if term ∈ tokens then some (UInt32.ofNat (tokens.count term))
      else none := by
  induction tokens using List.reverseRecOn with
  | nil => rfl
  | append_singleton tokens token inductionHypothesis =>
      have unfolded : termFrequencies (tokens ++ [token]) =
          (termFrequencies tokens).insert token
            (((termFrequencies tokens).lookup token).getD 0 + 1) := by
        unfold termFrequencies
        rw [List.foldl_append, List.foldl_cons, List.foldl_nil]
      rw [unfolded]
      by_cases same : term = token
      · subst same
        rw [AList.lookup_insert, inductionHypothesis, List.count_append,
          List.count_singleton_self]
        by_cases member : term ∈ tokens
        · rw [if_pos member, if_pos (List.mem_append_left _ member)]
          simp [UInt32.ofNat_add]
        · rw [if_neg member, if_pos (by simp), List.count_eq_zero.mpr member]
          rfl
      · rw [AList.lookup_insert_ne same, inductionHypothesis,
          List.count_append, List.count_singleton]
        simp [same, Ne.symm same]

section Visits

variable {order : Shuffle (Sigma fun _ : Bytes => UInt32)}
  {tokens : List Bytes}

theorem mem_visited {entry : Sigma fun _ : Bytes => UInt32} :
    entry ∈ visited order tokens ↔ entry.1 ∈ tokens ∧
      entry.2 = UInt32.ofNat (tokens.count entry.1) := by
  rw [visited, (order.perm _).mem_iff, ← AList.mem_lookup_iff,
    lookup_termFrequencies]
  by_cases member : entry.1 ∈ tokens
  · simp [member, eq_comm]
  · simp [member]

theorem visited_nodup : ((visited order tokens).map Sigma.fst).Nodup :=
  ((order.perm _).map Sigma.fst).nodup_iff.mpr
    (termFrequencies tokens).nodupKeys

theorem mem_visited_terms {term : Bytes} :
    term ∈ (visited order tokens).map Sigma.fst ↔ term ∈ tokens := by
  rw [List.mem_map]
  constructor
  · rintro ⟨entry, member, rfl⟩
    exact (mem_visited.mp member).1
  · intro member
    exact ⟨⟨term, UInt32.ofNat (tokens.count term)⟩,
      mem_visited.mpr ⟨member, rfl⟩, rfl⟩

end Visits

section Loops

variable {recID : UInt64} {term : Bytes} {postings : Bytes → List Posting}

theorem post_other {entry : Sigma fun _ : Bytes => UInt32}
    (other : term ≠ entry.1) :
    InvertedIndex.post recID postings entry term = postings term :=
  Function.update_of_ne other _ _

theorem posted_absent {entries : List (Sigma fun _ : Bytes => UInt32)}
    (absent : term ∉ entries.map Sigma.fst) :
    entries.foldl (InvertedIndex.post recID) postings term =
      postings term := by
  induction entries generalizing postings with
  | nil => rfl
  | cons entry rest inductionHypothesis =>
      rw [List.map_cons, List.mem_cons, not_or] at absent
      rw [List.foldl_cons, inductionHypothesis absent.2, post_other absent.1]

theorem posted_member {entries : List (Sigma fun _ : Bytes => UInt32)}
    {tf : UInt32} (distinct : (entries.map Sigma.fst).Nodup)
    (member : ⟨term, tf⟩ ∈ entries) :
    entries.foldl (InvertedIndex.post recID) postings term =
      without recID (postings term) ++ [⟨recID, tf⟩] := by
  induction entries generalizing postings with
  | nil => cases member
  | cons entry rest inductionHypothesis =>
      rw [List.map_cons, List.nodup_cons] at distinct
      rw [List.foldl_cons]
      rcases List.mem_cons.mp member with here | later
      · subst here
        rw [posted_absent distinct.1]
        exact Function.update_self _ _ _
      · have other : term ≠ entry.1 := by
          intro same
          exact distinct.1 (List.mem_map.mpr ⟨⟨term, tf⟩, later, same⟩)
        rw [inductionHypothesis distinct.2 later, post_other other]

theorem without_without (list : List Posting) :
    without recID (without recID list) = without recID list := by
  simp [without, List.filter_filter]

theorem unposted {terms : List Bytes} :
    terms.foldl (InvertedIndex.unpost recID) postings term =
      if term ∈ terms then without recID (postings term)
      else postings term := by
  induction terms generalizing postings with
  | nil => rfl
  | cons first rest inductionHypothesis =>
      rw [List.foldl_cons, inductionHypothesis]
      by_cases same : term = first
      · subst same
        have here : InvertedIndex.unpost recID postings term term =
            without recID (postings term) := Function.update_self _ _ _
        rw [here, without_without, ite_self, if_pos List.mem_cons_self]
      · have other : InvertedIndex.unpost recID postings first term =
            postings term := Function.update_of_ne same _ _
        simp [other, List.mem_cons, same]

theorem count_without (list : List Posting) (posting : Posting) :
    (without recID list).count posting =
      if posting.recordID = recID then 0 else list.count posting := by
  unfold without
  by_cases same : posting.recordID = recID
  · rw [if_pos same, List.count_eq_zero]
    intro member
    simpa [same] using (List.mem_filter.mp member).2
  · rw [if_neg same, List.count_filter (by simpa using same)]

theorem count_posted {order : Shuffle (Sigma fun _ : Bytes => UInt32)}
    {tokens : List Bytes} (member : term ∈ tokens) (posting : Posting) :
    ((visited order tokens).foldl (InvertedIndex.post recID)
        postings term).count posting =
      if posting.recordID = recID then
        if posting.tf = UInt32.ofNat (tokens.count term) then 1 else 0
      else (postings term).count posting := by
  have entered : (⟨term, UInt32.ofNat (tokens.count term)⟩ :
      Sigma fun _ : Bytes => UInt32) ∈ visited order tokens :=
    mem_visited.mpr ⟨member, rfl⟩
  rw [posted_member visited_nodup entered, List.count_append, count_without,
    List.count_singleton]
  obtain ⟨record, tf⟩ := posting
  by_cases same : record = recID
  · subst same
    by_cases equal : tf = UInt32.ofNat (tokens.count term)
    · simp [equal]
    · simp [equal, Ne.symm equal]
  · simp [same, Ne.symm same]

end Loops

/-! ## Totals -/

theorem sum_revised (measure : List Bytes → Int) (tokens : Tokens)
    (recID : UInt64) (new : List Bytes) :
    ∑ other, measure (Function.update tokens recID new other) =
      ∑ other, measure (tokens other) - measure (tokens recID) +
        measure new := by
  have revised : (fun other =>
      measure (Function.update tokens recID new other)) =
        Function.update (fun other => measure (tokens other)) recID
          (measure new) :=
    Function.comp_update measure tokens recID new
  have split := Finset.sum_eq_sum_sdiff_singleton_add
    (Finset.mem_univ recID) fun other => measure (tokens other)
  rw [revised, Finset.sum_update_of_mem (Finset.mem_univ recID), split]
  omega

section Calls

variable {tokens : Tokens} {index : InvertedIndex} {recID : UInt64}

theorem unchanged (empty : tokens recID = []) :
    Function.update tokens recID [] = tokens := by
  rw [Function.update_eq_self_iff]
  exact empty.symm

theorem Indexes.other_postings (indexes : Indexes tokens index)
    {posting : Posting} (other : posting.recordID ≠ recID)
    (new : List Bytes) (term : Bytes) :
    (index.postings term).count posting =
      if 0 < (Function.update tokens recID new posting.recordID).count term ∧
        posting.tf.toNat =
          (Function.update tokens recID new posting.recordID).count term
      then 1 else 0 := by
  rw [Function.update_of_ne other]
  exact indexes.postings term posting

theorem Indexes.indexDoc (indexes : Indexes tokens index) (unicode : Unicode)
    (order : Shuffle (Sigma fun _ : Bytes => UInt32)) {text : Bytes}
    (keeps : tokens recID ⊆ tokenize unicode text)
    (few : ∀ term, (tokenize unicode text).count term < 2 ^ 32) :
    Indexes (Function.update tokens recID (tokenize unicode text))
      (index.indexDoc unicode order recID text) := by
  unfold InvertedIndex.indexDoc
  generalize tokenize unicode text = new at *
  by_cases none : new.length = 0
  · obtain rfl := List.length_eq_zero_iff.mp none
    rw [if_pos none, unchanged (List.subset_nil.mp keeps)]
    exact indexes
  have nonempty : new ≠ [] := fun empty => none (by rw [empty]; rfl)
  rw [if_neg none]
  refine ⟨fun term posting => ?_, fun other => ?_, ?_, ?_⟩
  · simp only
    by_cases member : term ∈ new
    · rw [count_posted member]
      by_cases same : posting.recordID = recID
      · have present : 0 < new.count term := List.count_pos_iff.mpr member
        have fits : (UInt32.ofNat (new.count term)).toNat = new.count term :=
          UInt32.toNat_ofNat_of_lt' (few term)
        rw [if_pos same, same, Function.update_self]
        simp only [present, true_and, ← UInt32.toNat_inj, fits]
      · rw [if_neg same]
        exact indexes.other_postings same new term
    · rw [posted_absent fun visits => member (mem_visited_terms.mp visits)]
      by_cases same : posting.recordID = recID
      · -- neither text has the term
        have before : term ∉ tokens posting.recordID := fun old =>
          member (keeps (same ▸ old))
        rw [indexes.postings, same, Function.update_self,
          List.count_eq_zero.mpr (same ▸ before), List.count_eq_zero.mpr member]
      · exact indexes.other_postings same new term
  · by_cases same : other = recID
    · subst same
      simp only [Function.update_self]
      rw [if_neg nonempty]
    · simp only [Function.update_of_ne same]
      exact indexes.docLengths other
  · rw [sum_revised fun tokens => (tokens.length : Int), ← indexes.totalDocLen,
      indexes.docLengths]
    by_cases empty : tokens recID = []
    · rw [if_pos empty, empty]
      rfl
    · rw [if_neg empty]
      rfl
  · rw [sum_revised fun tokens => if tokens = [] then (0 : Int) else 1,
      ← indexes.totalDocNum, indexes.docLengths, if_neg nonempty]
    by_cases empty : tokens recID = []
    · rw [if_pos empty, if_pos empty]
      simp
    · rw [if_neg empty, if_neg empty]
      simp

theorem Indexes.deleteDoc (indexes : Indexes tokens index)
    (lists : ListsTerms tokens index) (recID : UInt64) :
    Indexes (Function.update tokens recID []) (index.deleteDoc recID) := by
  have listed := lists recID
  have length := indexes.docLengths recID
  unfold InvertedIndex.deleteDoc
  by_cases empty : tokens recID = []
  · rw [if_pos empty] at listed length
    simp only [length, listed]
    rw [unchanged empty]
    exact indexes
  rw [if_neg empty] at listed length
  obtain ⟨terms, found, exact⟩ := listed
  simp only [length, found]
  refine ⟨fun term posting => ?_, fun other => ?_, ?_, ?_⟩
  · simp only [unposted]
    by_cases same : posting.recordID = recID
    · rw [same, Function.update_self, List.count_nil]
      by_cases member : term ∈ terms
      · rw [if_pos member, count_without, if_pos same]
        rfl
      · have absent : term ∉ tokens recID := fun old =>
          member ((exact term).mpr old)
        rw [if_neg member, indexes.postings, same,
          List.count_eq_zero.mpr absent]
    · rw [← indexes.other_postings same [] term]
      by_cases member : term ∈ terms
      · rw [if_pos member, count_without, if_neg same]
      · rw [if_neg member]
  · by_cases same : other = recID
    · subst same
      simp only [Function.update_self]
      rfl
    · simp only [Function.update_of_ne same]
      exact indexes.docLengths other
  · rw [sum_revised fun tokens => (tokens.length : Int), ← indexes.totalDocLen]
    simp
  · rw [sum_revised fun tokens => if tokens = [] then (0 : Int) else 1,
      ← indexes.totalDocNum, if_neg empty]
    simp

theorem ListsTerms.indexDoc (lists : ListsTerms tokens index)
    (unicode : Unicode) (order : Shuffle (Sigma fun _ : Bytes => UInt32))
    {text : Bytes} (keeps : tokens recID ⊆ tokenize unicode text) :
    ListsTerms (Function.update tokens recID (tokenize unicode text))
      (index.indexDoc unicode order recID text) := by
  intro other
  unfold InvertedIndex.indexDoc
  generalize tokenize unicode text = new at *
  by_cases none : new.length = 0
  · obtain rfl := List.length_eq_zero_iff.mp none
    rw [if_pos none, unchanged (List.subset_nil.mp keeps)]
    exact lists other
  have nonempty : new ≠ [] := fun empty => none (by rw [empty]; rfl)
  rw [if_neg none]
  by_cases same : other = recID
  · subst same
    simp only [Function.update_self]
    rw [if_neg nonempty]
    exact ⟨_, rfl, fun term => mem_visited_terms⟩
  · simp only [Function.update_of_ne same]
    exact lists other

theorem ListsTerms.deleteDoc (lists : ListsTerms tokens index)
    (indexes : Indexes tokens index) (recID : UInt64) :
    ListsTerms (Function.update tokens recID []) (index.deleteDoc recID) := by
  intro other
  have listed := lists recID
  have length := indexes.docLengths recID
  unfold InvertedIndex.deleteDoc
  by_cases empty : tokens recID = []
  · rw [if_pos empty] at listed length
    simp only [length, listed]
    rw [unchanged empty]
    exact lists other
  rw [if_neg empty] at listed length
  obtain ⟨terms, found, _⟩ := listed
  simp only [length, found]
  by_cases same : other = recID
  · subst same
    simp
  · simp only [Function.update_of_ne same]
    exact lists other

end Calls

section Search

variable {Score : Type} {scoring : Scoring Score}

theorem pop_members {heap : List (SearchResult Score)}
    {result : SearchResult Score} :
    ((pop scoring heap).1 = some result → result ∈ heap) ∧
      (result ∈ (pop scoring heap).2 → result ∈ heap) := by
  cases heap with
  | nil =>
      refine ⟨fun popped => ?_, fun member => ?_⟩
      · cases popped
      · cases member
  | cons first rest =>
      obtain ⟨head, others⟩ := @heapPop_cons _ (srHeap scoring) first rest
      refine ⟨fun popped => ?_, fun member => ?_⟩
      · obtain rfl : first = result :=
          Option.some.inj (head.symm.trans popped)
        exact List.mem_cons_self
      · exact List.mem_cons_of_mem _ (others.mem_iff.mp member)

theorem mem_of_mem_offer {k : Nat} {heap : List (SearchResult Score)}
    {offered result : SearchResult Score}
    (member : result ∈ offer scoring k heap offered) :
    result = offered ∨ result ∈ heap := by
  unfold offer at member
  split at member
  · exact List.mem_cons.mp ((heapPush_perm offered heap).mem_iff.mp member)
  · split at member
    · exact .inr member
    · split at member
      · rcases List.mem_cons.mp ((heapPush_perm offered _).mem_iff.mp member)
          with here | kept
        · exact .inl here
        · exact .inr (pop_members.2 kept)
      · exact .inr member

theorem mem_of_mem_offers {k : Nat} {results heap : List (SearchResult Score)}
    {result : SearchResult Score}
    (member : result ∈ results.foldl (offer scoring k) heap) :
    result ∈ results ∨ result ∈ heap := by
  induction results generalizing heap with
  | nil => exact .inr member
  | cons first rest inductionHypothesis =>
      rcases inductionHypothesis member with later | kept
      · exact .inl (List.mem_cons_of_mem _ later)
      · rcases mem_of_mem_offer kept with rfl | old
        · exact .inl List.mem_cons_self
        · exact .inr old

theorem mem_of_mem_drain {count : Nat} {heap : List (SearchResult Score)}
    {result : SearchResult Score} (member : result ∈ drain scoring count heap) :
    result ∈ heap := by
  induction count generalizing heap with
  | zero => cases member
  | succ count inductionHypothesis =>
      rcases List.mem_append.mp member with later | here
      · exact pop_members.2 (inductionHypothesis later)
      · exact pop_members.1 (Option.mem_toList.mp here)

theorem mem_credits {index : InvertedIndex} {df : Nat}
    {postings : List Posting} {scores : AList fun _ : UInt64 => Score}
    {recID : UInt64}
    (member : recID ∈ postings.foldl (credit scoring index df) scores) :
    (∃ posting ∈ postings, posting.recordID = recID) ∨ recID ∈ scores := by
  induction postings generalizing scores with
  | nil => exact .inr member
  | cons first rest inductionHypothesis =>
      rcases inductionHypothesis member with ⟨posting, later, same⟩ | kept
      · exact .inl ⟨posting, List.mem_cons_of_mem _ later, same⟩
      · rcases (AList.mem_insert scores).mp kept with here | old
        · exact .inl ⟨first, List.mem_cons_self, here.symm⟩
        · exact .inr old

theorem mem_scoresOf {index : InvertedIndex} {terms : List Bytes}
    {recID : UInt64} (member : recID ∈ scoresOf scoring index terms) :
    ∃ term ∈ terms, ∃ posting ∈ index.postings term,
      posting.recordID = recID := by
  unfold scoresOf at member
  induction terms using List.reverseRecOn with
  | nil => cases member
  | append_singleton front term inductionHypothesis =>
      rw [List.foldl_append, List.foldl_cons, List.foldl_nil] at member
      rcases mem_credits member with ⟨posting, here, same⟩ | before
      · exact ⟨term, List.mem_append_right _ (List.mem_singleton_self term),
          posting, here, same⟩
      · obtain ⟨other, inFront, found⟩ := inductionHypothesis before
        exact ⟨other, List.mem_append_left _ inFront, found⟩

theorem search_posted {unicode : Unicode}
    {order : Shuffle (Sigma fun _ : UInt64 => Score)} {query : Bytes} {k : Int}
    {index : InvertedIndex} {result : SearchResult Score}
    (member : result ∈ search scoring unicode order query k index) :
    ∃ term ∈ tokenize unicode query, ∃ posting ∈ index.postings term,
      posting.recordID = result.recordID := by
  have scored : result ∈ (order.arrange
      (scoresOf scoring index (tokenize unicode query)).entries).map
        fun entry => SearchResult.mk entry.1 entry.2 := by
    unfold search at member
    simp only at member
    split at member
    · cases member
    · split at member
      · exact List.mem_mergeSort.mp member
      · rcases mem_of_mem_offers (mem_of_mem_drain member) with here | none
        · exact here
        · cases none
  obtain ⟨entry, inScores, rfl⟩ := List.mem_map.mp scored
  have entered := (order.perm _).mem_iff.mp inScores
  exact mem_scoresOf (List.mem_keys_of_mem entered)

end Search

/-! ## Runs -/

/-- A call, with the order in which its loop visits the terms. -/
inductive Call where
  | indexDoc (order : Shuffle (Sigma fun _ : Bytes => UInt32))
      (recID : UInt64) (text : Bytes)
  | deleteDoc (recID : UInt64)

/-- The index and the text of the last `IndexDoc` of every record that no
`DeleteDoc` has followed. -/
structure Session where
  index : InvertedIndex
  current : UInt64 → Option Bytes

namespace Session

def start : Session where
  index := .newInvertedIndex
  current := fun _ => none

def perform (unicode : Unicode) (session : Session) : Call → Session
  | .indexDoc order recID text =>
      { index := session.index.indexDoc unicode order recID text
        current := Function.update session.current recID (some text) }
  | .deleteDoc recID =>
      { index := session.index.deleteDoc recID
        current := Function.update session.current recID none }

def tokens (unicode : Unicode) (session : Session) : Tokens :=
  fun recID => ((session.current recID).map (tokenize unicode)).getD []

end Session

def Performs (unicode : Unicode) (call : Call) (before after : Session) :
    Prop :=
  after = before.perform unicode call

/-- The new text of a record has every term of its current one, and none of them
`2 ^ 32` times. -/
def Covered (unicode : Unicode) : Call → Session → Prop
  | .indexDoc _ recID text, session =>
      session.tokens unicode recID ⊆ tokenize unicode text ∧
        ∀ term, (tokenize unicode text).count term < 2 ^ 32
  | .deleteDoc _, _ => True

section Runs

variable {unicode : Unicode}

theorem tokens_update (session : Session) (recID : UInt64)
    (text : Option Bytes) (index : InvertedIndex) :
    Session.tokens unicode
        ⟨index, Function.update session.current recID text⟩ =
      Function.update (session.tokens unicode) recID
        ((text.map (tokenize unicode)).getD []) := by
  funext other
  by_cases same : other = recID
  · subst same
    simp only [Session.tokens, Function.update_self]
  · simp only [Session.tokens, Function.update_of_ne same]

/-- The invariant of the sessions that `Covered` calls reach. -/
def Faithful (unicode : Unicode) (session : Session) : Prop :=
  Indexes (session.tokens unicode) session.index ∧
    ListsTerms (session.tokens unicode) session.index

theorem faithful_start : Faithful unicode .start := by
  refine ⟨⟨fun term posting => ?_, fun recID => ?_, ?_, ?_⟩, fun recID => ?_⟩
  all_goals simp [Session.tokens, Session.start,
    InvertedIndex.newInvertedIndex]

theorem Performs.faithful {call : Call} {before after : Session}
    (performs : Performs unicode call before after)
    (covered : Covered unicode call before)
    (faithful : Faithful unicode before) : Faithful unicode after := by
  obtain ⟨indexes, lists⟩ := faithful
  rw [performs]
  unfold Faithful
  cases call with
  | indexDoc order recID text =>
      rw [Session.perform, tokens_update]
      exact ⟨indexes.indexDoc unicode order covered.1 covered.2,
        lists.indexDoc unicode order covered.1⟩
  | deleteDoc recID =>
      rw [Session.perform, tokens_update]
      exact ⟨indexes.deleteDoc lists recID, lists.deleteDoc indexes recID⟩

theorem Indexes.posted {tokens : Tokens} {index : InvertedIndex}
    (indexes : Indexes tokens index) {term : Bytes} {posting : Posting}
    (member : posting ∈ index.postings term) :
    term ∈ tokens posting.recordID := by
  have counted := indexes.postings term posting
  have positive := List.count_pos_iff.mpr member
  split at counted
  · rename_i both
    exact List.count_pos_iff.mp both.1
  · omega

/-- When every text that replaces another has the terms of the other, the index
is exact, and a search finds only records with a term of the query. -/
theorem invertedIndex_exact {calls : List Call} {final : Session}
    (execution : Execution (Guarded (Covered unicode) (Performs unicode))
      .start calls final) :
    Indexes (final.tokens unicode) final.index ∧
      ∀ {Score : Type} (scoring : Scoring Score)
        (order : Shuffle (Sigma fun _ : UInt64 => Score)) (query : Bytes)
        (k : Int), ∀ result ∈ search scoring unicode order query k final.index,
          ∃ term ∈ tokenize unicode query,
            term ∈ final.tokens unicode result.recordID := by
  have faithful : Faithful unicode final :=
    execution.invariant
      (fun holds guarded => guarded.2.faithful guarded.1 holds) faithful_start
  refine ⟨faithful.1, fun scoring order query k result member => ?_⟩
  obtain ⟨term, asked, posting, posted, same⟩ := search_posted member
  exact ⟨term, asked, same ▸ faithful.1.posted posted⟩

/-! ## Two texts of one record -/

def ascii : Unicode where
  isLetter := fun _ => false
  isDigit := fun _ => false
  toLower := List.map fun byte =>
    if 0x41 ≤ byte && byte ≤ 0x5A then byte + 0x20 else byte

def red : Bytes := [0x72, 0x65, 0x64]

def car : Bytes := [0x63, 0x61, 0x72]

/-- `Red car` -/
def redCar : Bytes := [0x52, 0x65, 0x64, 0x20, 0x63, 0x61, 0x72]

/-- The text `red`, then the text `Red car`. -/
theorem invertedIndex_exact_sample :
    ∃ final, Execution (Guarded (Covered ascii) (Performs ascii)) .start
        [.indexDoc (.listed _) 1 red, .indexDoc (.listed _) 1 redCar] final ∧
      final.tokens ascii 1 = [red, car] ∧
      Indexes (final.tokens ascii) final.index := by
  have short : ∀ {tokens : List Bytes}, tokens.length < 2 ^ 32 →
      ∀ term, tokens.count term < 2 ^ 32 := fun small term =>
    lt_of_le_of_lt List.count_le_length small
  have execution : Execution (Guarded (Covered ascii) (Performs ascii)) .start
      [.indexDoc (.listed _) 1 red, .indexDoc (.listed _) 1 redCar]
      ((Session.start.perform ascii (.indexDoc (.listed _) 1 red)).perform
        ascii (.indexDoc (.listed _) 1 redCar)) :=
    .cons ⟨⟨by decide, short (by decide)⟩, rfl⟩
      (.cons ⟨⟨by decide, short (by decide)⟩, rfl⟩ (.nil _))
  exact ⟨_, execution, by decide, (invertedIndex_exact execution).1⟩

/-- The text `red`, then the text `car`: the posting of `red` stays. -/
theorem invertedIndex_stale :
    ∃ final, Execution (Performs ascii) .start
        [.indexDoc (.listed _) 1 red, .indexDoc (.listed _) 1 car] final ∧
      ¬ Indexes (final.tokens ascii) final.index := by
  refine ⟨_, .cons rfl (.cons rfl (.nil _)), fun indexes => ?_⟩
  have stale := indexes.postings red ⟨1, 1⟩
  revert stale
  decide

end Runs

end CocoDB.Text
