import Mathlib.Data.Finset.Filter
import Mathlib.Data.Finset.Card
import Mathlib.Logic.Function.Iterate
import ParserGenerator.Fixpoint

/-!
# Fixed points reached by growth

A value that is iterated stands for a set of facts. If an application only adds
facts and there are finitely many of them, the iteration ends at a fixed point.
What is added in some order of single steps is known at a fixed point, whatever
the order.
-/

namespace ParserGenerator

variable {Value Fact Step : Type}

section Settling

variable [DecidableEq Value]

/-- What each application keeps holds of the value that is reached. -/
theorem settle_induction
    (holds : Value → Prop)
    {step : Value → Value}
    (keeps : ∀ value, holds value → holds (step value))
    (fuel : Nat)
    {start : Value}
    (initially : holds start) :
    holds (settle step fuel start).value := by
  induction fuel generalizing start with
  | zero => exact initially
  | succ fuel inductionHypothesis =>
      unfold settle
      dsimp only
      split
      · exact initially
      · exact inductionHypothesis (keeps start initially)

/-- The value that is reached is a fixed point if the fuel exceeds the growth
that is possible. -/
theorem settle_fixed
    {step : Value → Value}
    {holds : Value → Prop}
    {size : Value → Nat}
    {bound fuel : Nat}
    {start : Value}
    (keeps : ∀ value, holds value → holds (step value))
    (grows : ∀ value, holds value → step value ≠ value →
      size value < size (step value))
    (bounded : ∀ value, holds value → size value ≤ bound)
    (initially : holds start)
    (enough : bound < fuel + size start) :
    step (settle step fuel start).value = (settle step fuel start).value := by
  induction fuel generalizing start with
  | zero =>
      have small := bounded start initially
      omega
  | succ fuel inductionHypothesis =>
      unfold settle
      dsimp only
      split
      · assumption
      · next changed =>
          have larger := grows start initially changed
          exact inductionHypothesis (keeps start initially) (by omega)

/-- Applications that only add facts end at a fixed point, if values are
determined by their facts and the fuel exceeds the number of facts. -/
theorem settle_fixed_of_facts
    (holds : Value → Prop)
    (has : Value → Fact → Prop)
    (facts : Finset Fact)
    {step : Value → Value}
    {fuel : Nat}
    {start : Value}
    (keeps : ∀ value, holds value → holds (step value))
    (adds : ∀ value, holds value → ∀ fact, has value fact →
      has (step value) fact)
    (inside : ∀ value, holds value → ∀ fact, has value fact → fact ∈ facts)
    (determined : ∀ left right, holds left → holds right →
      (∀ fact, has left fact ↔ has right fact) → left = right)
    (initially : holds start)
    (enough : facts.card < fuel) :
    step (settle step fuel start).value = (settle step fuel start).value := by
  classical
  let size value := (facts.filter (has value)).card
  have grows : ∀ value, holds value → step value ≠ value →
      size value < size (step value) := by
    intro value valueHolds changed
    have subset : facts.filter (has value) ⊆ facts.filter (has (step value)) :=
      fun fact member => by
        obtain ⟨known, found⟩ := Finset.mem_filter.mp member
        exact Finset.mem_filter.mpr ⟨known, adds value valueHolds fact found⟩
    refine Finset.card_lt_card (subset.ssubset_of_ne fun same => changed ?_)
    have stepHolds := keeps value valueHolds
    refine determined _ _ stepHolds valueHolds fun fact => ⟨fun found => ?_,
      adds value valueHolds fact⟩
    have member : fact ∈ facts.filter (has (step value)) :=
      Finset.mem_filter.mpr ⟨inside _ stepHolds fact found, found⟩
    exact (Finset.mem_filter.mp (same ▸ member)).2
  have bounded : ∀ value, holds value → size value ≤ facts.card :=
    fun value _ => Finset.card_filter_le facts (has value)
  exact settle_fixed keeps grows bounded initially (by omega)

/-- Applications without any bound lead from one value to another, the first
that changes nothing being the last one. -/
inductive SettlesAt (step : Value → Value) : Value → Value → Prop
  | here
      {value : Value}
      (fixed : step value = value) :
      SettlesAt step value value
  | later
      {value last : Value}
      (changes : step value ≠ value)
      (rest : SettlesAt step (step value) last) :
      SettlesAt step value last

/-- If the value that is reached is a fixed point, the bound plays no part. -/
theorem settlesAt_settle
    {step : Value → Value}
    {fuel : Nat}
    {start : Value}
    (fixed : step (settle step fuel start).value =
      (settle step fuel start).value) :
    SettlesAt step start (settle step fuel start).value := by
  induction fuel generalizing start with
  | zero => exact .here fixed
  | succ fuel inductionHypothesis =>
      unfold settle at fixed ⊢
      dsimp only at fixed ⊢
      split
      · next stays => exact .here stays
      · next changes =>
          rw [if_neg changes] at fixed
          exact .later changes (inductionHypothesis fixed)

/-- A fixed point that some applications lead to is reached. -/
theorem settle_value_of_iterate
    {step : Value → Value}
    {count fuel : Nat}
    {start value : Value}
    (reaches : step^[count] start = value)
    (fixed : step value = value)
    (enough : count ≤ fuel) :
    (settle step fuel start).value = value := by
  induction count generalizing fuel start with
  | zero =>
      obtain rfl : start = value := reaches
      cases fuel with
      | zero => rfl
      | succ fuel => rw [settle, if_pos fixed]
  | succ count inductionHypothesis =>
      obtain ⟨fuel, rfl⟩ := Nat.exists_eq_add_of_le' enough
      rw [← Nat.add_assoc, settle]
      dsimp only
      split
      · next stays =>
          rw [← reaches, Function.iterate_fixed stays]
      · exact inductionHypothesis reaches (Nat.le_add_left ..)

end Settling

/-! ## Passes of single steps -/

section Passes

variable (has : Value → Fact → Prop) {step : Value → Step → Value}
  (increases : ∀ value next fact, has value fact → has (step value next) fact)

include increases

/-- A pass keeps all facts. -/
theorem has_foldl
    (steps : List Step)
    {value : Value}
    {fact : Fact}
    (found : has value fact) :
    has (steps.foldl step value) fact := by
  induction steps generalizing value with
  | nil => exact found
  | cons next rest inductionHypothesis =>
      exact inductionHypothesis (increases value next fact found)

/-- A pass adds what one of its steps adds to every value with at least the
facts from before the pass. -/
theorem has_foldl_of_mem
    (holds : Value → Prop)
    {steps : List Step}
    {next : Step}
    {value : Value}
    {fact : Fact}
    (keeps : ∀ value next, holds value → holds (step value next))
    (initially : holds value)
    (member : next ∈ steps)
    (added : ∀ later, holds later →
      (∀ known, has value known → has later known) →
      has (step later next) fact) :
    has (steps.foldl step value) fact := by
  obtain ⟨before, after, rfl⟩ := List.append_of_mem member
  rw [List.foldl_append, List.foldl_cons]
  apply has_foldl has increases after
  refine added _ ?_ fun known found => has_foldl has increases before found
  exact List.foldlRecOn before step initially
    fun value valueHolds next _ => keeps value next valueHolds

end Passes

end ParserGenerator
