import Mathlib.Algebra.Order.Ring.Nat
import Mathlib.Data.List.Basic

/-!
# Runs of fallible operations

A run performs operations one after another and stops at the first error.  What
each operation preserves, given a condition on the state it starts from, a run
preserves.
-/

namespace CocoDB.Lib

section Run

variable {Op σ ε : Type} (step : Op → σ → Except ε Unit × σ)

def run : List Op → σ → Except ε Unit × σ
  | [], state => (.ok (), state)
  | op :: rest, state =>
      match step op state with
      | (.error error, after) => (.error error, after)
      | (.ok _, after) => run rest after

/-- Every operation of a run meets `cond` in the state it starts from. -/
def Along (cond : Op → σ → Prop) : List Op → σ → Prop
  | [], _ => True
  | op :: rest, state =>
      cond op state ∧
        ((step op state).1 = .ok () → Along cond rest (step op state).2)

variable {step} {cond stronger : Op → σ → Prop}

theorem run_nil (state : σ) : run step [] state = (.ok (), state) := rfl

theorem run_cons {op : Op} {rest : List Op} {state : σ}
    (done : (step op state).1 = .ok ()) :
    run step (op :: rest) state = run step rest (step op state).2 := by
  unfold run
  rcases pair : step op state with ⟨outcome, after⟩
  rw [pair] at done
  simp only at done
  subst done
  cases rest <;> rfl

theorem run_cons_ok {op : Op} {rest : List Op} {state : σ}
    (done : (run step (op :: rest) state).1 = .ok ()) :
    (step op state).1 = .ok () := by
  unfold run at done
  rcases pair : step op state with ⟨outcome, after⟩
  rw [pair] at done
  cases outcome with
  | error error => cases done
  | ok value => rfl

theorem run_append {front back : List Op} {state : σ}
    (done : (run step front state).1 = .ok ()) :
    run step (front ++ back) state =
      run step back (run step front state).2 := by
  induction front generalizing state with
  | nil => rfl
  | cons op rest inductionHypothesis =>
      have first := run_cons_ok done
      rw [run_cons first] at done
      rw [List.cons_append, run_cons first, run_cons first,
        inductionHypothesis done]

theorem Along.mono {ops : List Op} {state : σ}
    (along : Along step stronger ops state)
    (weaken : ∀ op state, stronger op state → cond op state) :
    Along step cond ops state := by
  induction ops generalizing state with
  | nil => trivial
  | cons op rest inductionHypothesis =>
      exact ⟨weaken op state along.1, fun done =>
        inductionHypothesis (along.2 done)⟩

theorem run_invariant {Inv : List Op → σ → Prop}
    (preserved : ∀ {past op state}, Inv past state → cond op state →
      (step op state).1 = .ok () → Inv (past ++ [op]) (step op state).2) :
    ∀ {ops past state}, Inv past state → Along step cond ops state →
      (run step ops state).1 = .ok () →
      Inv (past ++ ops) (run step ops state).2
  | [], past, state, holds, _, _ => by
      rw [List.append_nil]
      exact holds
  | op :: rest, past, state, holds, along, done => by
      have first := run_cons_ok done
      rw [run_cons first] at done ⊢
      have next := run_invariant preserved
        (preserved holds along.1 first) (along.2 first) done
      rwa [List.append_assoc] at next

theorem run_total {Inv : List Op → σ → Prop}
    (preserved : ∀ {past op state}, Inv past state → cond op state →
      (step op state).1 = .ok () ∧ Inv (past ++ [op]) (step op state).2) :
    ∀ {ops past state}, Inv past state → Along step cond ops state →
      (run step ops state).1 = .ok ()
  | [], _, _, _, _ => rfl
  | op :: rest, past, state, holds, along => by
      obtain ⟨first, next⟩ := preserved holds along.1
      rw [run_cons first]
      exact run_total preserved next (along.2 first)

/-- When the condition decides whether an operation succeeds and keeps an
invariant, every operation of a run meets it just when every part of the run
does so. -/
theorem along_iff {Inv Formed : σ → Prop}
    (decided : ∀ {op state}, Formed state → Inv state →
      (cond op state ↔ (step op state).1 = .ok () ∧ Inv (step op state).2))
    (formed : ∀ {op state}, Formed state → (step op state).1 = .ok () →
      Formed (step op state).2) {ops : List Op} {state : σ}
    (start : Formed state) (holds : Inv state) :
    Along step cond ops state ↔ ∀ front, front <+: ops →
      (run step front state).1 = .ok () ∧ Inv (run step front state).2 := by
  induction ops generalizing state with
  | nil =>
      refine iff_of_true trivial fun front isPrefix => ?_
      rw [List.prefix_nil.mp isPrefix]
      exact ⟨rfl, holds⟩
  | cons op rest inductionHypothesis =>
      constructor
      · rintro ⟨first, later⟩ front isPrefix
        obtain ⟨done, kept⟩ := (decided start holds).mp first
        cases front with
        | nil => exact ⟨rfl, holds⟩
        | cons head tail =>
            obtain ⟨rfl, tailPrefix⟩ := List.cons_prefix_cons.mp isPrefix
            rw [run_cons done]
            exact (inductionHypothesis (formed start done) kept).mp
              (later done) tail tailPrefix
      · intro parts
        have first := parts [op] (List.cons_prefix_cons.mpr
          ⟨rfl, List.nil_prefix⟩)
        have done := run_cons_ok first.1
        rw [run_cons done] at first
        refine ⟨(decided start holds).mpr ⟨done, first.2⟩, fun _ => ?_⟩
        refine (inductionHypothesis (formed start done) first.2).mpr
          fun front isPrefix => ?_
        have longer := parts (op :: front)
          (List.cons_prefix_cons.mpr ⟨rfl, isPrefix⟩)
        rwa [run_cons done] at longer

end Run

/-! ## Operations that answer

Errors are answers like any other, so such a run goes on to its end.
-/

section Serve

variable {Op σ τ α : Type} (step : Op → σ → α × σ) (spec : Op → τ → α × τ)

def serve : List Op → σ → List α × σ
  | [], state => ([], state)
  | op :: rest, state =>
      let (answer, next) := step op state
      let (answers, final) := serve rest next
      (answer :: answers, final)

/-- Every operation meets `cond` in the state it starts from. -/
def Throughout (cond : Op → σ → Prop) : List Op → σ → Prop
  | [], _ => True
  | op :: rest, state => cond op state ∧ Throughout cond rest (step op state).2

variable {step spec} {cond : Op → σ → Prop} {Related : τ → σ → Prop}

/-- Two machines whose related states give the same answer to an operation, and
go on to related states, give the same answers to a list of operations. -/
theorem serve_simulates
    (simulates : ∀ {op abstract state}, Related abstract state →
      cond op state → (step op state).1 = (spec op abstract).1 ∧
        Related (spec op abstract).2 (step op state).2)
    {ops : List Op} {abstract : τ} {state : σ}
    (related : Related abstract state)
    (throughout : Throughout step cond ops state) :
    (serve step ops state).1 = (serve spec ops abstract).1 ∧
      Related (serve spec ops abstract).2 (serve step ops state).2 := by
  induction ops generalizing abstract state with
  | nil => exact ⟨rfl, related⟩
  | cons op rest inductionHypothesis =>
      obtain ⟨same, next⟩ := simulates related throughout.1
      obtain ⟨answers, final⟩ := inductionHypothesis next throughout.2
      exact ⟨congrArg₂ List.cons same answers, final⟩

end Serve

/-! ## Loops over a list -/

theorem foldlM_ok {α σ ε : Type} {turn : σ → α → Except ε σ}
    (Inv : σ → Prop) {items : List α}
    (kept : ∀ state item, item ∈ items → Inv state →
      ∃ after, turn state item = .ok after ∧ Inv after) {start : σ}
    (holds : Inv start) :
    ∃ final, items.foldlM turn start = .ok final ∧ Inv final := by
  induction items generalizing start with
  | nil => exact ⟨start, rfl, holds⟩
  | cons item rest inductionHypothesis =>
      obtain ⟨after, done, next⟩ := kept start item List.mem_cons_self holds
      obtain ⟨final, finished, last⟩ := inductionHypothesis
        (fun state other member => kept state other
          (List.mem_cons_of_mem item member)) next
      refine ⟨final, ?_, last⟩
      rw [List.foldlM_cons, done]
      exact finished

theorem countP_lt_countP {α : Type} {strict test : α → Bool}
    {items : List α} {item : α} (member : item ∈ items)
    (passes : test item = true) (fails : ¬ strict item = true)
    (stricter : ∀ other ∈ items, strict other = true → test other = true) :
    items.countP strict < items.countP test := by
  induction items with
  | nil => cases member
  | cons first rest inductionHypothesis =>
      have later := fun other inside =>
        stricter other (List.mem_cons_of_mem first inside)
      have fewer : rest.countP strict ≤ rest.countP test :=
        List.countP_mono_left later
      rcases List.mem_cons.mp member with rfl | inside
      · rw [List.countP_cons_of_neg fails, List.countP_cons_of_pos passes]
        omega
      · have less := inductionHypothesis inside later
        have here := stricter first List.mem_cons_self
        rw [List.countP_cons, List.countP_cons]
        split
        · next yes =>
            rw [if_pos (here yes)]
            omega
        · omega

end CocoDB.Lib

/-! ## Executions of a transition relation

Labelled transitions, finite executions and the invariant rule.  A condition on
the label and on the state a transition starts from cuts the relation down to
the transitions that meet it.
-/

namespace CocoDB.Lib

section Execution

variable {State Action : Type} {step : Action → State → State → Prop}

inductive Execution (step : Action → State → State → Prop) :
    State → List Action → State → Prop where
  | nil (state : State) : Execution step state [] state
  | cons {action : Action} {rest : List Action} {start next final : State} :
      step action start next → Execution step next rest final →
      Execution step start (action :: rest) final

def Guarded (cond : Action → State → Prop)
    (step : Action → State → State → Prop) (action : Action)
    (start next : State) : Prop :=
  cond action start ∧ step action start next

theorem Execution.invariant {Inv : State → Prop} {start final : State}
    {actions : List Action} (execution : Execution step start actions final)
    (preserved : ∀ {action start next}, Inv start → step action start next →
      Inv next) (holds : Inv start) : Inv final := by
  induction execution with
  | nil state => exact holds
  | cons first _ inductionHypothesis =>
      exact inductionHypothesis (preserved holds first)

theorem Execution.mono {wider : Action → State → State → Prop}
    {start final : State} {actions : List Action}
    (execution : Execution step start actions final)
    (weaken : ∀ {action start next}, step action start next →
      wider action start next) : Execution wider start actions final := by
  induction execution with
  | nil state => exact .nil state
  | cons first _ inductionHypothesis =>
      exact .cons (weaken first) inductionHypothesis

theorem Execution.append {start middle final : State}
    {front back : List Action} (first : Execution step start front middle)
    (second : Execution step middle back final) :
    Execution step start (front ++ back) final := by
  induction first with
  | nil state => exact second
  | cons head _ inductionHypothesis =>
      exact .cons head (inductionHypothesis second)

end Execution

end CocoDB.Lib
