import CocoDB.Lib.Heap
import CocoDB.Lib.Sweep
import CocoDB.Text.Tokenizer
import Mathlib.Data.List.AList

/-!
# The inverted index

`internal/text/inverted.go`: posting lists by term, the length and the terms of
every indexed document, and the totals that BM25 needs.  Scores are floats, so
that their arithmetic and their comparisons are parameters of `Search`.
-/

namespace CocoDB.Text

open Lib

structure Posting where
  recordID : UInt64
  tf : UInt32
deriving DecidableEq, Repr

/-- `InvertedIndex`.  A term without postings has the empty list. -/
structure InvertedIndex where
  postings : Bytes → List Posting
  docLengths : UInt64 → Option Nat
  docTerms : UInt64 → Option (List Bytes)
  totalDocLen : Int
  totalDocNum : Int

def without (recID : UInt64) (postings : List Posting) : List Posting :=
  postings.filter fun posting => posting.recordID ≠ recID

/-- `tfMap`, whose counters are 32 bits wide -/
def termFrequencies (tokens : List Bytes) : AList fun _ : Bytes => UInt32 :=
  tokens.foldl (fun counts token =>
    counts.insert token ((counts.lookup token).getD 0 + 1)) ∅

/-- The entries of `tfMap` in the order in which a loop visits them. -/
def visited (order : Shuffle (Sigma fun _ : Bytes => UInt32))
    (tokens : List Bytes) : List (Sigma fun _ : Bytes => UInt32) :=
  order.arrange (termFrequencies tokens).entries

namespace InvertedIndex

def newInvertedIndex : InvertedIndex where
  postings := fun _ => []
  docLengths := fun _ => none
  docTerms := fun _ => none
  totalDocLen := 0
  totalDocNum := 0

def post (recID : UInt64) (postings : Bytes → List Posting)
    (entry : Sigma fun _ : Bytes => UInt32) : Bytes → List Posting :=
  Function.update postings entry.1
    (without recID (postings entry.1) ++ [⟨recID, entry.2⟩])

def indexDoc (unicode : Unicode)
    (order : Shuffle (Sigma fun _ : Bytes => UInt32)) (recID : UInt64)
    (text : Bytes) (index : InvertedIndex) : InvertedIndex :=
  let tokens := tokenize unicode text
  if tokens.length = 0 then index
  else
    let entries := visited order tokens
    { postings := entries.foldl (post recID) index.postings
      docLengths := Function.update index.docLengths recID (some tokens.length)
      docTerms := Function.update index.docTerms recID
        (some (entries.map Sigma.fst))
      totalDocLen :=
        index.totalDocLen - (index.docLengths recID).getD 0 + tokens.length
      totalDocNum :=
        if (index.docLengths recID).isSome then index.totalDocNum
        else index.totalDocNum + 1 }

def unpost (recID : UInt64) (postings : Bytes → List Posting)
    (term : Bytes) : Bytes → List Posting :=
  Function.update postings term (without recID (postings term))

def deleteDoc (recID : UInt64) (index : InvertedIndex) : InvertedIndex :=
  let counted : InvertedIndex :=
    match index.docLengths recID with
    | none => index
    | some docLen =>
        { index with
          totalDocLen := index.totalDocLen - docLen
          totalDocNum := index.totalDocNum - 1
          docLengths := Function.update index.docLengths recID none }
  match counted.docTerms recID with
  | none => counted
  | some terms =>
      { counted with
        postings := terms.foldl (unpost recID) counted.postings
        docTerms := Function.update counted.docTerms recID none }

end InvertedIndex

/-! ## Search -/

/-- The arithmetic of scores: `contribution` is the summand of one posting, from
`totalDocLen`, `totalDocNum`, the number of postings, `TF` and the length of the
document. -/
structure Scoring (Score : Type) where
  contribution : Int → Int → Nat → Nat → Nat → Score
  zero : Score
  add : Score → Score → Score
  less : Score → Score → Bool
  atLeast : Score → Score → Bool

structure SearchResult (Score : Type) where
  recordID : UInt64
  score : Score

section Search

variable {Score : Type} (scoring : Scoring Score)

/-- The comparisons of `srHeap`. -/
def srHeap : HeapOrder (SearchResult Score) where
  before := fun right left => scoring.less right.score left.score
  stays := fun child parent => scoring.atLeast child.score parent.score

def push (result : SearchResult Score) (heap : List (SearchResult Score)) :
    List (SearchResult Score) :=
  heapPush (srHeap scoring) result heap

def pop (heap : List (SearchResult Score)) :
    Option (SearchResult Score) × List (SearchResult Score) :=
  heapPop (srHeap scoring) heap

/-- Keep the best `k` results. -/
def offer (k : Nat) (heap : List (SearchResult Score))
    (result : SearchResult Score) : List (SearchResult Score) :=
  if heap.length < k then push scoring result heap
  else
    match heap.head? with
    | none => heap
    | some least =>
        if scoring.less least.score result.score then
          push scoring result (pop scoring heap).2
        else heap

/-- The last loop of `Search`: the results from the best down. -/
def drain : Nat → List (SearchResult Score) → List (SearchResult Score)
  | 0, _ => []
  | count + 1, heap =>
      drain count (pop scoring heap).2 ++ (pop scoring heap).1.toList

/-- `scores[p.RecordID] += …` -/
def credit (index : InvertedIndex) (df : Nat)
    (scores : AList fun _ : UInt64 => Score) (posting : Posting) :
    AList fun _ : UInt64 => Score :=
  scores.insert posting.recordID
    (scoring.add ((scores.lookup posting.recordID).getD scoring.zero)
      (scoring.contribution index.totalDocLen index.totalDocNum df
        posting.tf.toNat ((index.docLengths posting.recordID).getD 0)))

def scoresOf (index : InvertedIndex) (terms : List Bytes) :
    AList fun _ : UInt64 => Score :=
  terms.foldl (fun scores term =>
    (index.postings term).foldl
      (credit scoring index (index.postings term).length) scores) ∅

def search (unicode : Unicode) (order : Shuffle (Sigma fun _ : UInt64 => Score))
    (query : Bytes) (k : Int) (index : InvertedIndex) :
    List (SearchResult Score) :=
  let tokens := tokenize unicode query
  if tokens.length = 0 ∨ index.totalDocNum = 0 then []
  else
    let results := (order.arrange (scoresOf scoring index tokens).entries).map
      fun entry => SearchResult.mk entry.1 entry.2
    if k ≤ 0 then
      results.mergeSort fun left right =>
        !scoring.less left.score right.score
    else
      let heap := results.foldl (offer scoring k.toNat) []
      drain scoring heap.length heap

end Search

end CocoDB.Text
