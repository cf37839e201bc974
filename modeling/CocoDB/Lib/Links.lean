import Mathlib.Data.List.Induction
import Mathlib.Data.List.Nodup
import Mathlib.Logic.Function.Basic

/-!
# Doubly linked lists

The nodes of a heap with links in two directions and the two ends of a list.  A
list of nodes is laid out when a walk along one direction meets the nodes in
order and a walk along the other meets them in reverse.  Taking a node out and
putting one in front change the links of the neighbours only.
-/

namespace CocoDB.Lib

section Path

variable {α : Type}

/-- The walk along `next` from `first` meets the nodes and then `stop`. -/
def Path (next : α → Option α) : Option α → List α → Option α → Prop
  | first, [], stop => first = stop
  | first, node :: rest, stop =>
      first = some node ∧ Path next (next node) rest stop

variable {next : α → Option α} {first stop : Option α} {nodes : List α}

theorem path_append {front back : List α} :
    Path next first (front ++ back) stop ↔
      ∃ middle, Path next first front middle ∧ Path next middle back stop := by
  induction front generalizing first with
  | nil => simp [Path]
  | cons node rest inductionHypothesis =>
      rw [List.cons_append, Path, inductionHypothesis]
      simp [Path, and_assoc]

theorem path_cons_append {front back : List α} {node : α} :
    Path next first (front ++ node :: back) stop ↔
      Path next first front (some node) ∧
        Path next (next node) back stop := by
  rw [path_append]
  constructor
  · rintro ⟨_, before, rfl, after⟩
    exact ⟨before, after⟩
  · rintro ⟨before, after⟩
    exact ⟨_, before, rfl, after⟩

theorem path_concat {node : α} :
    Path next first (nodes ++ [node]) stop ↔
      Path next first nodes (some node) ∧ next node = stop :=
  path_cons_append

theorem Path.congr {other : α → Option α}
    (path : Path next first nodes stop)
    (same : ∀ node ∈ nodes, other node = next node) :
    Path other first nodes stop := by
  induction nodes generalizing first with
  | nil => exact path
  | cons node rest inductionHypothesis =>
      obtain ⟨here, later⟩ := List.forall_mem_cons.mp same
      obtain ⟨start, path⟩ := path
      refine ⟨start, ?_⟩
      rw [here]
      exact inductionHypothesis path later

theorem Path.first_eq (path : Path next first nodes none) :
    first = nodes.head? := by
  cases nodes with
  | nil => exact path
  | cons node rest => exact path.1

variable [DecidableEq α]

theorem Path.redirect {node : α}
    (path : Path next first (nodes ++ [node]) stop) (fresh : node ∉ nodes)
    (target : Option α) :
    Path (Function.update next node target) first (nodes ++ [node])
      target := by
  obtain ⟨before, _⟩ := path_concat.mp path
  apply path_concat.mpr
  refine ⟨before.congr ?_, Function.update_self node target next⟩
  intro other member
  apply Function.update_of_ne
  rintro rfl
  exact fresh member

/-- The node before a hole, or the start of the list, is sent past it. -/
def bypass (before after : Option α) (next : α → Option α)
    (first : Option α) : (α → Option α) × Option α :=
  match before with
  | some node => (Function.update next node after, first)
  | none => (next, after)

theorem Path.bypass {front back : List α} {node : α}
    (path : Path next first (front ++ node :: back) stop)
    (distinct : (front ++ node :: back).Nodup) :
    Path (Lib.bypass front.getLast? (next node) next first).1
      (Lib.bypass front.getLast? (next node) next first).2
      (front ++ back) stop := by
  obtain ⟨before, after⟩ := path_cons_append.mp path
  induction front using List.reverseRecOn with
  | nil => exact after
  | append_singleton front last _ =>
      rw [List.append_assoc, List.singleton_append] at distinct
      have fresh : last ∉ front := fun member =>
        (List.nodup_append.mp distinct).2.2 last member last
          List.mem_cons_self rfl
      have apart : last ∉ back := by
        have later := (List.nodup_append.mp distinct).2.1
        intro member
        exact (List.nodup_cons.mp later).1 (List.mem_cons_of_mem node member)
      rw [List.getLast?_concat]
      apply path_append.mpr
      refine ⟨next node, before.redirect fresh (next node), after.congr ?_⟩
      intro other member
      apply Function.update_of_ne
      rintro rfl
      exact apart member

/-- The first node of a walk that meets a condition, looked for in so many
steps. -/
def seek (next : α → Option α) (wanted : α → Bool) :
    Nat → Option α → Option α
  | 0, _ => none
  | _ + 1, none => none
  | steps + 1, some node =>
      if wanted node then some node else seek next wanted steps (next node)

omit [DecidableEq α] in
theorem Path.seek_eq {wanted : α → Bool}
    (path : Path next first nodes none) {steps : Nat}
    (enough : nodes.length < steps) :
    seek next wanted steps first = nodes.find? wanted := by
  induction nodes generalizing first steps with
  | nil =>
      rw [path]
      cases steps <;> rfl
  | cons node rest inductionHypothesis =>
      obtain ⟨start, path⟩ := path
      rw [List.length_cons] at enough
      cases steps with
      | zero => omega
      | succ steps =>
          rw [start, seek, List.find?_cons]
          cases wanted node with
          | true => rfl
          | false => exact inductionHypothesis path (by omega)

end Path

/-! ## Both directions -/

/-- The links of the nodes and the ends of a list. -/
structure Links (α : Type) where
  next : α → Option α
  prev : α → Option α
  head : Option α
  tail : Option α

namespace Links

variable {α : Type} [DecidableEq α]

def addToHead (node : α) (links : Links α) : Links α where
  next := Function.update links.next node links.head
  prev :=
    match links.head with
    | some old =>
        Function.update (Function.update links.prev node none) old (some node)
    | none => Function.update links.prev node none
  head := some node
  tail := links.tail.or (some node)

def removeEntry (node : α) (links : Links α) : Links α where
  next := Function.update
    (bypass (links.prev node) (links.next node) links.next links.head).1
    node none
  prev := Function.update
    (bypass (links.next node) (links.prev node) links.prev links.tail).1
    node none
  head :=
    (bypass (links.prev node) (links.next node) links.next links.head).2
  tail :=
    (bypass (links.next node) (links.prev node) links.prev links.tail).2

/-- From head to tail and back the list is made of the nodes, each once. -/
structure LaidOut (links : Links α) (order : List α) : Prop where
  forward : Path links.next links.head order none
  backward : Path links.prev links.tail order.reverse none
  distinct : order.Nodup

variable {links : Links α} {order : List α} {node : α}

omit [DecidableEq α] in
theorem laidOut_nil (next prev : α → Option α) :
    LaidOut ⟨next, prev, none, none⟩ [] :=
  ⟨rfl, rfl, List.nodup_nil⟩

theorem LaidOut.addToHead (laidOut : links.LaidOut order)
    (fresh : node ∉ order) :
    (links.addToHead node).LaidOut (node :: order) := by
  have other : ∀ member ∈ order, member ≠ node := by
    rintro member inOrder rfl
    exact fresh inOrder
  refine ⟨⟨rfl, ?_⟩, ?_, List.nodup_cons.mpr ⟨fresh, laidOut.distinct⟩⟩
  · have here : (links.addToHead node).next node = links.head :=
      Function.update_self _ _ _
    rw [here]
    apply laidOut.forward.congr
    intro member inOrder
    exact Function.update_of_ne (other member inOrder) _ _
  · have start := laidOut.forward.first_eq
    have finish := laidOut.backward.first_eq
    rw [List.head?_reverse] at finish
    rw [List.reverse_cons]
    cases order with
    | nil =>
        rw [List.head?_nil] at start
        rw [List.getLast?_nil] at finish
        simp only [Links.addToHead, start, finish]
        exact ⟨rfl, Function.update_self _ _ _⟩
    | cons old rest =>
        have backward := laidOut.backward
        rw [List.reverse_cons] at backward
        rw [List.head?_cons] at start
        have last : links.tail.or (some node) = links.tail := by
          rw [finish, List.getLast?_cons, Option.some_or]
        have apart : old ≠ node := other old List.mem_cons_self
        have distinct := List.nodup_cons.mp laidOut.distinct
        simp only [Links.addToHead, start, last, List.reverse_cons]
        have moved : Path (Function.update links.prev node none) links.tail
            (rest.reverse ++ [old]) none := by
          apply backward.congr
          intro member inOrder
          apply Function.update_of_ne
          apply other member
          rw [List.mem_append, List.mem_reverse, List.mem_singleton]
            at inOrder
          exact List.mem_cons.mpr inOrder.symm
        apply path_concat.mpr
        constructor
        · exact moved.redirect
            (fun member => distinct.1 (List.mem_reverse.mp member)) (some node)
        · rw [Function.update_of_ne apart.symm, Function.update_self]

omit [DecidableEq α] in
theorem LaidOut.neighbours {front back : List α}
    (laidOut : links.LaidOut (front ++ node :: back)) :
    links.next node = back.head? ∧ links.prev node = front.getLast? := by
  have forward := (path_cons_append.mp laidOut.forward).2
  have backward := laidOut.backward
  rw [List.reverse_append, List.reverse_cons, List.append_assoc,
    List.singleton_append] at backward
  have back' := (path_cons_append.mp backward).2
  refine ⟨forward.first_eq, ?_⟩
  rw [back'.first_eq, List.head?_reverse]

theorem LaidOut.removeEntry {front back : List α}
    (laidOut : links.LaidOut (front ++ node :: back)) :
    (links.removeEntry node).LaidOut (front ++ back) := by
  obtain ⟨after, before⟩ := laidOut.neighbours
  have distinct := laidOut.distinct
  have absent : node ∉ front ++ back :=
    (List.nodup_middle.mp distinct |> List.nodup_cons.mp).1
  have kept : (front ++ back).Nodup :=
    (List.nodup_middle.mp distinct |> List.nodup_cons.mp).2
  have backward := laidOut.backward
  rw [List.reverse_append, List.reverse_cons, List.append_assoc,
    List.singleton_append] at backward
  have reversed : (back.reverse ++ node :: front.reverse).Nodup := by
    have same := List.nodup_reverse.mpr distinct
    rwa [List.reverse_append, List.reverse_cons, List.append_assoc,
      List.singleton_append] at same
  refine ⟨?_, ?_, kept⟩
  · have path := laidOut.forward.bypass distinct
    rw [← before] at path
    apply path.congr
    intro member inOrder
    apply Function.update_of_ne
    rintro rfl
    exact absent inOrder
  · have path := backward.bypass reversed
    rw [List.getLast?_reverse, ← after] at path
    rw [List.reverse_append]
    apply path.congr
    intro member inOrder
    apply Function.update_of_ne
    rintro rfl
    rw [List.mem_append, List.mem_reverse, List.mem_reverse] at inOrder
    exact absent (List.mem_append.mpr inOrder.symm)

theorem LaidOut.erase (laidOut : links.LaidOut order)
    (member : node ∈ order) :
    (links.removeEntry node).LaidOut (order.erase node) := by
  obtain ⟨front, back, rfl⟩ := List.append_of_mem member
  have absent : node ∉ front := fun inFront =>
    (List.nodup_append.mp laidOut.distinct).2.2 node inFront node
      List.mem_cons_self rfl
  rw [List.erase_append_right _ absent, List.erase_cons_head]
  exact laidOut.removeEntry

end Links

end CocoDB.Lib
