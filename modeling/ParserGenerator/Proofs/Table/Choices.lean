import ParserGenerator.Proofs.Table.Closure
import ParserGenerator.Table.Conflict

/-!
# The action that is chosen

Whatever overrides and a resolver decide, the action is one of the candidates.
With neither of them there must be no more than one candidate.
-/

namespace ParserGenerator
namespace Table

/-- An action that competes on a symbol. -/
inductive Candidates.Offers (rules : Rules) (candidates : Candidates) :
    Action → Prop
  | shift
      {target : Nat}
      (offered : candidates.shift = some target) :
      Offers rules candidates (.shift target)
  | reduce
      {production : ProductionId}
      (offered : production ∈ candidates.reduces) :
      Offers rules candidates (rules.reduceAction production)

namespace Rules

variable {rules : Rules} {resolver : Option Resolver}
  {candidates : Candidates} {action : Action}

/-- The dot of an item that asks for a symbol is not at the end. -/
theorem not_isComplete_of_next?
    {item : Item}
    {symbol : SymbolId}
    (next : rules.next? item = some symbol) :
    rules.isComplete item = false := by
  have inside := (List.getElem?_eq_some_iff.mp next).1
  simpa [isComplete] using Nat.ne_of_lt inside

/-- Items that are kept by a resolver denote a candidate. -/
theorem offers_of_keptAction?
    {kept : List Item}
    (incomplete : ∀ item ∈ candidates.shiftItems,
      rules.isComplete item = false)
    (denoted : rules.keptAction? candidates (rules.competing candidates) kept =
      some action) :
    candidates.Offers rules action := by
  unfold keptAction? at denoted
  split at denoted
  · simp at denoted
  · next usable =>
      have keptCompetes : ∀ item ∈ kept,
          item ∈ rules.competing candidates := by
        simp only [Bool.or_eq_true, Bool.not_eq_true', not_or,
          Bool.not_eq_false, List.all_eq_true, List.contains_iff_mem] at usable
        exact usable.2
      split at denoted
      · next shifts =>
          obtain rfl := Option.some.inj denoted
          exact .shift shifts
      · next item single =>
          split at denoted
          · obtain rfl := Option.some.inj denoted
            have member : item ∈ kept.filter rules.isComplete :=
              single ▸ List.mem_singleton_self item
            obtain ⟨itemKept, isComplete⟩ := List.mem_filter.mp member
            rcases List.mem_append.mp (keptCompetes item itemKept) with
              reduces | shifts
            · obtain ⟨production, offered, rfl⟩ := List.mem_map.mp reduces
              exact .reduce offered
            · simp [incomplete item shifts] at isComplete
          · simp at denoted
      · simp at denoted

theorem offers_of_chooseCore
    (incomplete : ∀ item ∈ candidates.shiftItems,
      rules.isComplete item = false)
    (chosen : (rules.chooseCore resolver candidates).2 = .ok (some action)) :
    candidates.Offers rules action := by
  unfold chooseCore at chosen
  dsimp only at chosen
  split at chosen
  · simp at chosen
  · split at chosen
    · simp at chosen
    · split at chosen
      · next kept other denoted =>
          obtain rfl : other = action := by simpa using chosen
          exact offers_of_keptAction? incomplete denoted
      · simp at chosen

theorem offers_of_chooseReduce
    (incomplete : ∀ item ∈ candidates.shiftItems,
      rules.isComplete item = false)
    (chosen : (rules.chooseReduce resolver candidates).2 = .ok (some action)) :
    candidates.Offers rules action := by
  unfold chooseReduce at chosen
  dsimp only at chosen
  split at chosen
  · next production preferred =>
      obtain rfl : rules.reduceAction production = action := by
        simpa using chosen
      have member : production ∈ candidates.reduces.filter
          (rules.prefersReduce candidates.symbol) :=
        preferred ▸ List.mem_singleton_self production
      exact .reduce (List.mem_filter.mp member).1
  · split at chosen
    · next target shifts =>
        split at chosen
        · obtain rfl : Action.shift target = action := by simpa using chosen
          exact .shift shifts
        · exact offers_of_chooseCore incomplete chosen
    · exact offers_of_chooseCore incomplete chosen

theorem offers_of_chooseShift
    {target : Nat}
    {production : ProductionId}
    (shifts : candidates.shift = some target)
    (reduces : production ∈ candidates.reduces)
    (chosen : (rules.chooseShift resolver candidates target production).2 =
      .ok (some action)) :
    candidates.Offers rules action := by
  unfold chooseShift at chosen
  dsimp only at chosen
  split at chosen
  · obtain rfl : Action.shift target = action := by simpa using chosen
    exact .shift shifts
  · split at chosen
    · obtain rfl : rules.reduceAction production = action := by
        simpa using chosen
      exact .reduce reduces
    · split at chosen
      · simp at chosen
      · split at chosen
        · simp at chosen
        · split at chosen
          · obtain rfl : Action.shift target = action := by simpa using chosen
            exact .shift shifts
          · obtain rfl : rules.reduceAction production = action := by
              simpa using chosen
            exact .reduce reduces

/-- The action that is chosen is a candidate. -/
theorem offers_of_choose
    (incomplete : ∀ item ∈ candidates.shiftItems,
      rules.isComplete item = false)
    (chosen : (rules.choose resolver candidates).2 = .ok (some action)) :
    candidates.Offers rules action := by
  unfold choose at chosen
  split at chosen
  · obtain ⟨target, shifts, rfl⟩ : ∃ target,
          candidates.shift = some target ∧ Action.shift target = action := by
        simpa using chosen
    exact .shift shifts
  · next production reducesIs shiftIs =>
      obtain rfl : rules.reduceAction production = action := by
        simpa using chosen
      exact .reduce (reducesIs ▸ List.mem_singleton_self production)
  · next production target reducesIs shiftIs =>
      exact offers_of_chooseShift shiftIs
        (reducesIs ▸ List.mem_singleton_self production) chosen
  · exact offers_of_chooseReduce incomplete chosen

/-! ## Choices without overrides and resolver -/

/-- No production says how a conflict is to be decided. -/
def Undecided (rules : Rules) : Prop :=
  ∀ production ∈ rules.grammar.productions,
    production.shiftOn = [] ∧ production.reduceOn = []

theorem Undecided.prefersShift
    (undecided : rules.Undecided)
    (symbol : SymbolId)
    (production : ProductionId) :
    rules.prefersShift symbol production = false := by
  unfold Rules.prefersShift
  cases found : rules.grammar.productions[production]? with
  | none => rfl
  | some rule => simp [(undecided rule (Array.mem_of_getElem? found)).1]

theorem Undecided.prefersReduce
    (undecided : rules.Undecided)
    (symbol : SymbolId)
    (production : ProductionId) :
    rules.prefersReduce symbol production = false := by
  unfold Rules.prefersReduce
  cases found : rules.grammar.productions[production]? with
  | none => rfl
  | some rule => simp [(undecided rule (Array.mem_of_getElem? found)).2]

/-- Several reductions, if nothing decides between them, are an error. -/
theorem Undecided.chooseReduce_ne_ok
    (undecided : rules.Undecided)
    (several : candidates.reduces ≠ [])
    {choice : Option Action} :
    (rules.chooseReduce none candidates).2 ≠ .ok choice := by
  obtain ⟨production, member⟩ := List.exists_mem_of_ne_nil _ several
  have noneWins : candidates.reduces.filter
      (rules.prefersReduce candidates.symbol) = [] := by
    simp [undecided.prefersReduce]
  have notAll : candidates.reduces.all
      (rules.prefersShift candidates.symbol) = false := by
    rw [List.all_eq_false]
    exact ⟨production, member, by simp [undecided.prefersShift]⟩
  cases shifts : candidates.shift with
  | none => simp [chooseReduce, noneWins, shifts, chooseCore]
  | some target =>
      simp [chooseReduce, noneWins, notAll, shifts, chooseCore]

/-- If nothing decides conflicts, a choice is possible only where there is
none: a candidate is the only one and is taken. -/
theorem Undecided.choose_eq
    (undecided : rules.Undecided)
    {choice : Option Action}
    (chosen : (rules.choose none candidates).2 = .ok choice)
    (offers : candidates.Offers rules action) :
    choice = some action := by
  unfold choose at chosen
  split at chosen
  · next reducesIs =>
      cases offers with
      | shift offered => simpa [offered, eq_comm] using chosen
      | reduce offered => simp [reducesIs] at offered
  · next production reducesIs shiftIs =>
      cases offers with
      | shift offered => simp [shiftIs] at offered
      | reduce offered =>
          obtain rfl := List.mem_singleton.mp (reducesIs ▸ offered)
          simpa [eq_comm] using chosen
  · next production target reducesIs shiftIs =>
      simp [chooseShift, undecided.prefersShift, undecided.prefersReduce]
        at chosen
  · next several _ _ =>
      exact absurd chosen (undecided.chooseReduce_ne_ok several)

end Rules
end Table
end ParserGenerator
