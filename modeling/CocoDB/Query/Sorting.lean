import CocoDB.Query.Stream

/-!
# Sorting a list of documents

The comparison of `Sort` on readable documents, and what is assumed of
`sort.Slice`.
-/

namespace CocoDB.Query

open Lib Cson

def sortsBefore : List SortField → Item → Item → Bool
  | [], _, _ => false
  | sortField :: rest, first, second =>
      match compareAny (valueAt first.view sortField.field)
        (valueAt second.view sortField.field) with
      | .eq => sortsBefore rest first second
      | .lt => !sortField.desc
      | .gt => sortField.desc

theorem lessItems_eq (fields : List SortField) {first second : Item}
    (one : Readable first.view) (other : Readable second.view) :
    lessItems fields first second = .ok (sortsBefore fields first second) := by
  induction fields with
  | nil => rfl
  | cons sortField rest inductionHypothesis =>
      have left := (one.reads sortField.field).get
      have right := (other.reads sortField.field).get
      simp only [lessItems, left, right, Outcome.ok_bind, sortsBefore,
        inductionHypothesis]
      cases compareAny (valueAt first.view sortField.field)
        (valueAt second.view sortField.field) <;>
        cases sortField.desc <;> rfl

structure StrictWeakOn {α : Type} (less : α → α → Bool) (items : List α) :
    Prop where
  irrefl : ∀ one ∈ items, less one one = false
  trans : ∀ one ∈ items, ∀ two ∈ items, ∀ three ∈ items,
    less one two = true → less two three = true → less one three = true
  incomparable : ∀ one ∈ items, ∀ two ∈ items, ∀ three ∈ items,
    less one two = false → less two one = false →
    less two three = false → less three two = false →
    less one three = false ∧ less three one = false

theorem StrictWeakOn.subset {α : Type} {less : α → α → Bool}
    {items fewer : List α} (weak : StrictWeakOn less items)
    (within : fewer ⊆ items) : StrictWeakOn less fewer where
  irrefl one first := weak.irrefl one (within first)
  trans one first two second three third :=
    weak.trans one (within first) two (within second) three (within third)
  incomparable one first two second three third :=
    weak.incomparable one (within first) two (within second) three
      (within third)

def Ordered {α : Type} (less : α → α → Bool) (items : List α) : Prop :=
  items.Pairwise fun earlier later => less later earlier = false

/-- `sort.Slice` comes back with the elements when the comparison comes back,
in order when it is a strict weak order. -/
def LawfulSlice (slice : Slice) : Prop :=
  ∀ (compare : Item → Item → Outcome Bool) (less : Item → Item → Bool)
    (items : List Item),
    (∀ one ∈ items, ∀ other ∈ items, compare one other = .ok (less one other)) →
    ∃ out, slice compare items = .ok out ∧ out.Perm items ∧
      (StrictWeakOn less items → Ordered less out)

/-- The elements as `sort.Slice` leaves them. -/
def arrange (slice : Slice) (fields : List SortField) (items : List Item) :
    List Item :=
  match slice (lessItems fields) items with
  | .ok out => out
  | _ => items

theorem arrange_spec {slice : Slice} (lawful : LawfulSlice slice)
    (fields : List SortField) {items : List Item}
    (readable : ∀ item ∈ items, Readable item.view) :
    slice (lessItems fields) items = .ok (arrange slice fields items) ∧
      (arrange slice fields items).Perm items ∧
      (StrictWeakOn (sortsBefore fields) items →
        Ordered (sortsBefore fields) (arrange slice fields items)) := by
  obtain ⟨out, sorted, perm, ordered⟩ :=
    lawful (lessItems fields) (sortsBefore fields) items
      fun one first other second =>
        lessItems_eq fields (readable one first) (readable other second)
  have result : arrange slice fields items = out := by
    rw [arrange, sorted]
  rw [result]
  exact ⟨sorted, perm, ordered⟩

/-! ## Insertion -/

/-- `insertionSort` of the standard library puts one element after the other in
its place. -/
def insertItem (compare : Item → Item → Outcome Bool) (item : Item) :
    List Item → Outcome (List Item)
  | [] => .ok [item]
  | first :: rest => do
      if ← compare item first then return item :: first :: rest
      else return first :: (← insertItem compare item rest)

def insertionSlice : Slice := fun compare items =>
  items.foldr (fun item sorted => do insertItem compare item (← sorted))
    (.ok [])

section Insertion

variable {compare : Item → Item → Outcome Bool} {less : Item → Item → Bool}
  {item : Item} {sorted : List Item}

theorem insertItem_spec
    (compares : ∀ other ∈ sorted, compare item other = .ok (less item other)) :
    ∃ out, insertItem compare item sorted = .ok out ∧
      out.Perm (item :: sorted) ∧
      (StrictWeakOn less (item :: sorted) → Ordered less sorted →
        Ordered less out) := by
  induction sorted with
  | nil => exact ⟨[item], rfl, .refl _, fun _ _ => List.pairwise_singleton _ _⟩
  | cons first rest inductionHypothesis =>
      have here := compares first (List.mem_cons_self ..)
      obtain ⟨out, inserted, perm, ordered⟩ := inductionHypothesis
        fun other member => compares other (List.mem_cons_of_mem _ member)
      cases before : less item first with
      | true =>
          refine ⟨item :: first :: rest, ?_, .refl _, fun weak order => ?_⟩
          · simp [insertItem, here, before]
          · have apart : ∀ other ∈ first :: rest, less other item = false := by
              intro other member
              by_contra smaller
              have below : less other first = true :=
                weak.trans other (List.mem_cons_of_mem _ member) item
                  (List.mem_cons_self ..) first (by simp) (by simpa using
                    smaller) before
              rw [List.mem_cons] at member
              cases member with
              | inl same =>
                  rw [same, weak.irrefl first (by simp)] at below
                  cases below
              | inr later =>
                  rw [List.rel_of_pairwise_cons order later] at below
                  cases below
            exact List.pairwise_cons.mpr ⟨apart, order⟩
      | false =>
          refine ⟨first :: out, ?_, ?_, fun weak order => ?_⟩
          · simp [insertItem, here, before, inserted]
          · exact (perm.cons first).trans (.swap item first rest)
          · have fewer : StrictWeakOn less (item :: rest) := by
              apply weak.subset
              exact List.cons_subset_cons _ (List.subset_cons_self _ _)
            rw [Ordered, List.pairwise_cons] at order ⊢
            refine ⟨fun other member => ?_, ordered fewer order.2⟩
            have place := perm.mem_iff.mp member
            rw [List.mem_cons] at place
            cases place with
            | inl same =>
                rw [same]
                exact before
            | inr later => exact order.1 other later

theorem insertionSlice_lawful : LawfulSlice insertionSlice := by
  intro compare less items compares
  induction items with
  | nil => exact ⟨[], rfl, .refl _, fun _ => List.Pairwise.nil⟩
  | cons item rest inductionHypothesis =>
      obtain ⟨sorted, done, perm, ordered⟩ := inductionHypothesis
        fun one first other second => compares one
          (List.mem_cons_of_mem _ first) other (List.mem_cons_of_mem _ second)
      have known : ∀ other ∈ sorted,
          compare item other = .ok (less item other) := fun other member =>
        compares item (List.mem_cons_self ..) other
          (List.mem_cons_of_mem _ (perm.mem_iff.mp member))
      obtain ⟨out, inserted, again, order⟩ := insertItem_spec known
      have all := again.trans (perm.cons item)
      refine ⟨out, ?_, all, fun weak => ?_⟩
      · simp only [insertionSlice, List.foldr_cons] at done ⊢
        rw [done]
        exact inserted
      · apply order (weak.subset (perm.cons item).subset)
        exact ordered (weak.subset (List.subset_cons_self _ _))

end Insertion

end CocoDB.Query
