import CocoDB.Document.Restored

/-!
# Documents in another order

`Encode` visits the fields of a map in any order.  What comes back does not
depend on it.
-/

namespace CocoDB.Document

open Lib Cson

section Rearranged

def SameField (field other : Bytes × Value) : Prop :=
  field.1 = other.1 ∧ Rearranged field.2 other.2

theorem forall₂_iff {α β : Type} {rel : α → β → Prop} {first : α → Prop}
    {second : β → Prop} {items : List α} {others : List β}
    (related : List.Forall₂ rel items others)
    (agree : ∀ item ∈ items, ∀ other, rel item other →
      (first item ↔ second other)) :
    (∀ item ∈ items, first item) ↔ ∀ other ∈ others, second other := by
  induction related with
  | nil => simp
  | cons head _ inductionHypothesis =>
      rw [List.forall_mem_cons, List.forall_mem_cons,
        agree _ List.mem_cons_self _ head, inductionHypothesis fun item member =>
          agree item (List.mem_cons_of_mem _ member)]

theorem sameFields {fields : List (Bytes × Value)} {values : List Value}
    (related : List.Forall₂ Rearranged (fields.map Prod.snd) values) :
    List.Forall₂ SameField fields ((fields.map Prod.fst).zip values) := by
  induction fields generalizing values with
  | nil => exact .nil
  | cons field rest inductionHypothesis =>
      rw [List.map_cons] at related
      cases related with
      | cons head tail => exact .cons ⟨rfl, head⟩ (inductionHypothesis tail)

theorem Rearranged.fields {fields others : List (Bytes × Value)}
    (rearranged : Rearranged (.object fields) (.object others)) :
    ∃ listed, List.Forall₂ SameField fields listed ∧ others.Perm listed := by
  cases rearranged with
  | object related perm => exact ⟨_, sameFields related, perm⟩

theorem Rearranged.widensTo_iff {value other : Value}
    (rearranged : Rearranged value other) (shown : Value) :
    widensTo value shown = true ↔ widensTo other shown = true := by
  induction value using Value.nested generalizing other shown with
  | scalar value =>
      cases rearranged
      rfl
  | unsupported typeName =>
      cases rearranged
      rfl
  | array items inductionHypothesis =>
      cases rearranged with
      | @array _ others related =>
          cases shown with
          | array results =>
              rw [widensTo, widensTo]
              induction related generalizing results with
              | nil => rfl
              | @cons item other rest others head _ tailHypothesis =>
                  cases results with
                  | nil => simp [itemsWidenTo]
                  | cons result results =>
                      rw [itemsWidenTo, itemsWidenTo, Bool.and_eq_true,
                        Bool.and_eq_true, inductionHypothesis item
                          List.mem_cons_self head result,
                        tailHypothesis fun item member =>
                          inductionHypothesis item
                            (List.mem_cons_of_mem _ member)]
          | _ => simp [widensTo]
  | object fields inductionHypothesis =>
      have object := rearranged
      cases rearranged with
      | @object _ others _ related perm =>
          obtain ⟨listed, same, perm⟩ := object.fields
          cases shown with
          | object results =>
              have length : fields.length = others.length := by
                rw [perm.length_eq, same.length_eq]
              rw [widensTo, widensTo, Bool.and_eq_true, Bool.and_eq_true,
                fieldsWidenTo_iff, fieldsWidenTo_iff, length]
              apply and_congr_right
              intro _
              rw [@forall₂_iff _ _ _ _ (fun other : Bytes × Value =>
                ∃ result ∈ results, other.1 = result.1 ∧
                  widensTo other.2 result.2 = true) _ _ same]
              · exact forall_congr' fun other => by rw [perm.mem_iff]
              · intro field member other both
                obtain ⟨named, valued⟩ := both
                rw [named]
                apply exists_congr
                intro result
                rw [inductionHypothesis field member valued]
          | _ => simp [widensTo]

theorem Rearranged.blank_eq {value other : Value}
    (rearranged : Rearranged value other) : blank value = blank other := by
  cases rearranged <;> rfl

theorem lastFilled_iff {items others : List Value}
    (related : List.Forall₂ (fun item other => blank item = blank other)
      items others) :
    LastFilled items ↔ LastFilled others := by
  induction related with
  | nil => rfl
  | @cons item other rest others head tail inductionHypothesis =>
      have ends : rest = [] ↔ others = [] := by
        rw [← List.length_eq_zero_iff, ← List.length_eq_zero_iff,
          tail.length_eq]
      rw [lastFilled_cons, lastFilled_cons, inductionHypothesis,
        head, ends]

theorem Rearranged.endsFilled_iff {value other : Value}
    (rearranged : Rearranged value other) :
    EndsFilled value ↔ EndsFilled other := by
  induction value using Value.nested generalizing other with
  | scalar value =>
      cases rearranged
      rfl
  | unsupported typeName =>
      cases rearranged
      rfl
  | array items inductionHypothesis =>
      cases rearranged with
      | @array _ others related =>
          rw [EndsFilled, EndsFilled, itemsEndFilled_iff, itemsEndFilled_iff,
            lastFilled_iff (related.imp fun _ _ => Rearranged.blank_eq),
            forall₂_iff related
              (fun item member other => inductionHypothesis item member)]
  | object fields inductionHypothesis =>
      have object := rearranged
      cases rearranged with
      | @object _ others _ related perm =>
          obtain ⟨listed, same, perm⟩ := object.fields
          rw [EndsFilled, EndsFilled, fieldsEndFilled_iff,
            fieldsEndFilled_iff, @forall₂_iff _ _ _ _
              (fun other : Bytes × Value => EndsFilled other.2) _ _ same]
          · exact forall_congr' fun other => by rw [perm.mem_iff]
          · intro field member other both
            exact inductionHypothesis field member both.2

/-! ## Lookups -/

theorem sameFields_names {fields others : List (Bytes × Value)}
    (same : List.Forall₂ SameField fields others) :
    fields.map Prod.fst = others.map Prod.fst := by
  induction same with
  | nil => rfl
  | cons head _ inductionHypothesis =>
      rw [List.map_cons, List.map_cons, inductionHypothesis, head.1]

theorem Rearranged.lookup {doc other : Cson.Document}
    (rearranged : Rearranged (.object doc) (.object other))
    (distinct : (doc.map Prod.fst).Nodup) (name : Bytes) :
    Option.Rel Rearranged (Document.lookup doc name)
      (Document.lookup other name) := by
  obtain ⟨listed, same, perm⟩ := rearranged.fields
  have listedDistinct : (listed.map Prod.fst).Nodup := by
    rw [← sameFields_names same]
    exact distinct
  have otherDistinct : (other.map Prod.fst).Nodup :=
    (perm.map Prod.fst).nodup_iff.mpr listedDistinct
  have whole : Document.lookup other name = Document.lookup listed name := by
    apply Option.ext
    intro value
    rw [lookup_eq_some_iff otherDistinct, lookup_eq_some_iff listedDistinct,
      perm.mem_iff]
  rw [whole, Document.lookup, Document.lookup]
  clear whole perm listedDistinct otherDistinct distinct rearranged
  induction same with
  | nil => exact .none
  | @cons field other rest others head _ inductionHypothesis =>
      rw [List.find?_cons, List.find?_cons, ← head.1]
      by_cases own : field.1 = name
      · simpa [own] using Option.Rel.some head.2
      · simpa [own] using inductionHypothesis

end Rearranged

end CocoDB.Document
