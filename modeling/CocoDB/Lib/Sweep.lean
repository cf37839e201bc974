import Mathlib.Data.List.Forall2
import Mathlib.Data.List.Perm.Basic

/-!
# Loops over the entries of a map

A loop that visits every entry of a map in some order, rewrites the entry and
threads a state.  The state may hold a resource for each entry; a loop body that
works on the resource of its own entry and leaves the others alone can be
described one entry at a time.
-/

namespace CocoDB.Lib

/-- An order in which the entries of a map are visited. -/
structure Shuffle (α : Type) where
  arrange : List α → List α
  perm : ∀ items, (arrange items).Perm items

def Shuffle.listed (α : Type) : Shuffle α where
  arrange := id
  perm := .refl

section Sweep

variable {α σ ε : Type}

def sweep (body : α → σ → α × σ) : List α → σ → List α × σ
  | [], state => ([], state)
  | item :: rest, state =>
      let (changed, next) := body item state
      let (others, final) := sweep body rest next
      (changed :: others, final)

def attempt (body : α → σ → Except ε Unit × α × σ) :
    List α → σ → Except ε Unit × List α × σ
  | [], state => (.ok (), [], state)
  | item :: rest, state =>
      match body item state with
      | (.error cause, changed, next) => (.error cause, changed :: rest, next)
      | (.ok (), changed, next) =>
          match attempt body rest next with
          | (result, others, final) => (result, changed :: others, final)

def SweepMeets (body : α → σ → α × σ) (cond : α → σ → Prop) :
    List α → σ → Prop
  | [], _ => True
  | item :: rest, state =>
      cond item state ∧ SweepMeets body cond rest (body item state).2

theorem sweepMeets_of_forall {body : α → σ → α × σ} {cond : α → σ → Prop} :
    ∀ {items : List α} {state : σ},
      (∀ item ∈ items, ∀ state, cond item state) →
      SweepMeets body cond items state
  | [], _, _ => trivial
  | item :: rest, _, each => by
      obtain ⟨first, others⟩ := List.forall_mem_cons.mp each
      exact ⟨first _, sweepMeets_of_forall others⟩

end Sweep

section Related

variable {β γ : Type} {rel : β → β → Prop} {left right : List β}

theorem forall_of_forall₂ {before after : β → Prop}
    (carries : ∀ {one two}, rel one two → before one → after two)
    (related : List.Forall₂ rel left right)
    (each : ∀ item ∈ left, before item) : ∀ item ∈ right, after item := by
  induction related with
  | nil => exact fun item member => nomatch member
  | cons head _ inductionHypothesis =>
      obtain ⟨first, rest⟩ := List.forall_mem_cons.mp each
      exact List.forall_mem_cons.mpr ⟨carries head first,
        inductionHypothesis rest⟩

theorem map_eq_of_forall₂ {kept : β → γ}
    (keeps : ∀ {one two}, rel one two → kept two = kept one)
    (related : List.Forall₂ rel left right) :
    right.map kept = left.map kept := by
  induction related with
  | nil => rfl
  | cons head _ inductionHypothesis =>
      rw [List.map_cons, List.map_cons, inductionHypothesis, keeps head]

end Related

section Resources

variable {α β σ ε : Type} {value : β → α} {Owns : Nat → σ → List β → Prop}

theorem Shuffle.exists_arranged (order : Shuffle α) (value : β → α)
    (items : List β) :
    ∃ arranged : List β, order.arrange (items.map value) = arranged.map value ∧
      arranged.Perm items := by
  have aligned : List.Forall₂ (fun entry item => entry = value item)
      (items.map value) items :=
    List.forall₂_map_left_iff.mpr (List.forall₂_same.mpr fun _ _ => rfl)
  obtain ⟨arranged, listed, perm⟩ :=
    List.perm_comp_forall₂ (order.perm (items.map value)) aligned
  refine ⟨arranged, ?_, perm⟩
  have same := List.forall₂_map_right_iff.mpr listed
  exact List.forall₂_eq_eq_eq ▸ same

/-- Resources of a number of entries, with a supply.  Their order does not
matter, and neither does a larger supply. -/
structure Pool (Owns : Nat → σ → List β → Prop) : Prop where
  swap : ∀ {spare state left right}, left.Perm right →
    Owns spare state left → Owns spare state right
  fewer : ∀ {less more state items}, less ≤ more →
    Owns more state items → Owns less state items

/-- A body that keeps the resources of the other entries, at the price of one
for each entry. -/
theorem sweep_spec {body : α → σ → α × σ} {cond : α → σ → Prop}
    {rel : β → β → Prop}
    (pool : Pool Owns)
    (step : ∀ {spare item others state}, Owns (spare + 1) state
      (item :: others) → cond (value item) state →
      ∃ changed, (body (value item) state).1 = value changed ∧
        rel item changed ∧ Owns spare (body (value item) state).2
          (changed :: others)) :
    ∀ {items others : List β} {spare : Nat} {state : σ},
      Owns (items.length + spare) state (items ++ others) →
      SweepMeets body cond (items.map value) state →
      ∃ changed, (sweep body (items.map value) state).1 =
          changed.map value ∧
        List.Forall₂ rel items changed ∧
        Owns spare (sweep body (items.map value) state).2 (changed ++ others)
  | [], _, spare, _, owns, _ =>
      ⟨[], rfl, .nil, by rw [List.length_nil, Nat.zero_add] at owns; exact owns⟩
  | item :: rest, others, spare, state, owns, meets => by
      rw [List.length_cons, Nat.add_right_comm] at owns
      obtain ⟨changed, bodyEq, related, next⟩ := step owns meets.1
      obtain ⟨tail, sweepEq, relatedTail, final⟩ :=
        sweep_spec pool step (pool.swap List.perm_middle.symm next) meets.2
      refine ⟨changed :: tail, ?_, .cons related relatedTail,
        pool.swap List.perm_middle final⟩
      simp only [List.map_cons, sweep]
      rw [bodyEq, sweepEq]

theorem sweep_shuffled {body : α → σ → α × σ} {cond : α → σ → Prop}
    {rel : β → β → Prop}
    (pool : Pool Owns)
    (step : ∀ {spare item others state}, Owns (spare + 1) state
      (item :: others) → cond (value item) state →
      ∃ changed, (body (value item) state).1 = value changed ∧
        rel item changed ∧ Owns spare (body (value item) state).2
          (changed :: others))
    (order : Shuffle α) {items : List β} {spare : Nat} {state : σ}
    (owns : Owns (items.length + spare) state items)
    (meets : SweepMeets body cond (order.arrange (items.map value)) state) :
    ∃ arranged changed, arranged.Perm items ∧
      List.Forall₂ rel arranged changed ∧
      (sweep body (order.arrange (items.map value)) state).1 =
        changed.map value ∧
      Owns spare (sweep body (order.arrange (items.map value)) state).2
        changed := by
  obtain ⟨arranged, listed, perm⟩ := order.exists_arranged value items
  rw [listed] at meets ⊢
  have start : Owns (arranged.length + spare) state (arranged ++ []) := by
    rw [List.append_nil, perm.length_eq]
    exact pool.swap perm.symm owns
  obtain ⟨changed, sweepEq, related, final⟩ :=
    @sweep_spec α β σ value Owns body cond rel pool step arranged [] spare
      state start meets
  rw [List.append_nil] at final
  exact ⟨arranged, changed, perm, related, sweepEq, final⟩

/-- How a loop ends that stops at the first entry that fails. -/
inductive Ends (value : β → α) (Owns : Nat → σ → List β → Prop)
    (Refuses : β → β → ε → Prop) (Done : β → β → Prop) (spare : Nat)
    (items others : List β) : Except ε Unit × List α × σ → Prop
  | refused {front back changed : List β} {item later : β} {cause : ε}
      {state : σ} : items = front ++ item :: back →
      List.Forall₂ Done front changed → Refuses item later cause →
      Owns spare state (changed ++ later :: back ++ others) →
      Ends value Owns Refuses Done spare items others
        (.error cause, (changed ++ later :: back).map value, state)
  | finished {changed : List β} {state : σ} :
      List.Forall₂ Done items changed → Owns spare state (changed ++ others) →
      Ends value Owns Refuses Done spare items others
        (.ok (), changed.map value, state)

variable {body : α → σ → Except ε Unit × α × σ}
  {Refuses : β → β → ε → Prop} {Done : β → β → Prop}

def Turn (value : β → α) (Owns : Nat → σ → List β → Prop)
    (Refuses : β → β → ε → Prop) (Done : β → β → Prop)
    (body : α → σ → Except ε Unit × α × σ) : Prop :=
  ∀ {spare item others state}, Owns (spare + 1) state (item :: others) →
    ∃ changed, (body (value item) state).2.1 = value changed ∧
      Owns spare (body (value item) state).2.2 (changed :: others) ∧
      ((∃ cause, (body (value item) state).1 = .error cause ∧
          Refuses item changed cause) ∨
        ((body (value item) state).1 = .ok () ∧ Done item changed))

theorem attempt_ends
    (pool : Pool Owns)
    (turn : Turn value Owns Refuses Done body) :
    ∀ {items others : List β} {spare : Nat} {state : σ},
      Owns (items.length + spare) state (items ++ others) →
      Ends value Owns Refuses Done spare items others
        (attempt body (items.map value) state)
  | [], others, spare, state, owns => by
      rw [List.length_nil, Nat.zero_add] at owns
      exact .finished .nil owns
  | item :: rest, others, spare, state, owns => by
      rw [List.length_cons, Nat.add_right_comm] at owns
      have turned := turn owns
      rw [List.map_cons, attempt]
      rcases outcome : body (value item) state with ⟨result, after, final⟩
      rw [outcome] at turned
      simp only at turned
      obtain ⟨changed, rfl, next, either⟩ := turned
      rcases either with ⟨cause, rfl, refuses⟩ | ⟨rfl, done⟩
      · exact @Ends.refused α β σ ε value Owns Refuses Done spare
          (item :: rest) others [] rest [] item changed cause final rfl .nil
          refuses (pool.fewer (Nat.le_add_left _ _) next)
      · have later := attempt_ends pool turn
          (pool.swap List.perm_middle.symm next)
        simp only
        generalize attempt body (rest.map value) final = result at later ⊢
        cases later with
        | @refused front back others' refuser other cause state split entered
            refuses owned =>
            rw [← List.map_cons, ← List.cons_append]
            refine .refused (by rw [split, List.cons_append])
              (.cons done entered) refuses (pool.swap ?_ owned)
            rw [List.cons_append, List.cons_append]
            exact List.perm_middle
        | finished entered owned =>
            rw [← List.map_cons]
            exact .finished (.cons done entered)
              (pool.swap List.perm_middle owned)

theorem attempt_shuffled
    (pool : Pool Owns)
    (turn : Turn value Owns Refuses Done body)
    (order : Shuffle α) {items : List β} {spare : Nat} {state : σ}
    (owns : Owns (items.length + spare) state items) :
    ∃ arranged, arranged.Perm items ∧
      order.arrange (items.map value) = arranged.map value ∧
      Ends value Owns Refuses Done spare arranged []
        (attempt body (order.arrange (items.map value)) state) := by
  obtain ⟨arranged, listed, perm⟩ := order.exists_arranged value items
  refine ⟨arranged, perm, listed, ?_⟩
  rw [listed]
  apply attempt_ends pool turn
  rw [List.append_nil, perm.length_eq]
  exact pool.swap perm.symm owns

end Resources

end CocoDB.Lib
