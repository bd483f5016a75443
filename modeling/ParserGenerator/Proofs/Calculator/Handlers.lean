import ParserGenerator.Proofs.Calculator.Loading
import ParserGenerator.Proofs.Calculator.Semantics

/-!
# Handlers of the calculator

What the handlers do to the values of variables, and the values that they give
to tokens and productions.
-/

open ParserGenerator.Parse

namespace ParserGenerator
namespace Calculator

/-! ## Variables -/

namespace SymbolTable

variable {table after : SymbolTable} {name other : String} {index : Nat}

/-- The number of a variable depends on the names only. -/
theorem index?_eq (table : SymbolTable) (name : String) :
    table.index? name =
      (table.entries.map Prod.fst).findIdx? (· == name) := by
  rw [Array.findIdx?_map]
  rfl

/-- The value of a variable is that of the first entry with its name. -/
theorem lookup_eq (table : SymbolTable) (name : String) :
    table.lookup name =
      (table.index? name).bind fun index =>
        table.entries[index]?.bind Prod.snd := by
  unfold lookup SymbolTable.value
  congr 1
  funext index
  rcases table.entries[index]? with - | ⟨entryName, - | number⟩ <;> rfl

theorem exists_entry_of_index?
    (found : table.index? name = some index) :
    ∃ value, table.entries[index]? = some (name, value) := by
  obtain ⟨inside, isName, -⟩ :=
    Array.findIdx?_eq_some_iff_getElem.mp found
  refine ⟨(table.entries[index]).2, ?_⟩
  rw [Array.getElem?_eq_getElem inside, ← eq_of_beq isName]

/-- The value of a variable that is found by its name. -/
theorem value_of_index?
    (found : table.index? name = some index) :
    table.value index =
      match table.lookup name with
      | some number => .ok number
      | none => .error (.unassigned name) := by
  obtain ⟨value, isEntry⟩ := exists_entry_of_index? found
  cases value <;> simp [SymbolTable.value, lookup_eq, found, isEntry]

/-- Variables keep their numbers and values, and new ones have no value. -/
structure Extends (table after : SymbolTable) : Prop where
  /-- The numbers are kept. -/
  index? : ∀ {name index}, table.index? name = some index →
    after.index? name = some index
  /-- The values are the same. -/
  lookup : after.lookup = table.lookup

theorem Extends.refl (table : SymbolTable) : Extends table table :=
  ⟨id, rfl⟩

theorem Extends.trans
    {last : SymbolTable}
    (first : Extends table after)
    (second : Extends after last) :
    Extends table last :=
  ⟨fun found => second.index? (first.index? found),
    second.lookup.trans first.lookup⟩

/-- Reading a name adds it if it is new. -/
theorem extends_intern (table : SymbolTable) (name : String) :
    Extends table (table.intern name).2 ∧
      (table.intern name).2.index? name = some (table.intern name).1 := by
  unfold intern
  split
  · next index found => exact ⟨.refl table, found⟩
  · next absent =>
      have pushed : ∀ other,
          SymbolTable.index? ⟨table.entries.push (name, none)⟩ other =
            (table.index? other).or
              (if name = other then some table.size else none) := by
        intro other
        simp [SymbolTable.index?, Array.findIdx?_push, size]
      refine ⟨⟨fun found => by simp [pushed, found], funext fun other => ?_⟩,
        by simp [pushed, absent]⟩
      rw [lookup_eq, lookup_eq, pushed]
      cases found : table.index? other with
      | some index =>
          obtain ⟨inside, -⟩ := Array.findIdx?_eq_some_iff_getElem.mp found
          simp [Array.getElem?_push, Nat.ne_of_lt inside]
      | none =>
          by_cases isNew : name = other
          · simp [isNew, size]
          · simp [isNew]

/-- Assigning to a variable changes its value only. -/
theorem exists_assign
    (found : table.index? name = some index)
    (number : Int) :
    ∃ after, table.assign index number = .ok after ∧
      after.lookup = Function.update table.lookup name (some number) := by
  obtain ⟨value, isEntry⟩ := exists_entry_of_index? found
  obtain ⟨inside, -⟩ := Array.getElem?_eq_some_iff.mp isEntry
  refine ⟨⟨table.entries.setIfInBounds index (name, some number)⟩, ?_, ?_⟩
  · simp [assign, isEntry]
  -- The names stay, so all variables keep their numbers.
  have sameNames : (table.entries.setIfInBounds index
      (name, some number)).map Prod.fst = table.entries.map Prod.fst := by
    rw [Array.map_setIfInBounds]
    refine Array.ext_getElem? fun other => ?_
    rw [Array.getElem?_setIfInBounds]
    split
    · next same =>
        subst same
        rw [Array.size_map, if_pos inside, Array.getElem?_map, isEntry]
        rfl
    · rfl
  funext other
  rw [lookup_eq, index?_eq, sameNames, ← index?_eq]
  by_cases same : other = name
  · subst same
    simp [found, inside]
  · rw [Function.update_of_ne same, lookup_eq]
    cases otherFound : table.index? other with
    | none => rfl
    | some otherIndex =>
        obtain ⟨otherValue, isOther⟩ := exists_entry_of_index? otherFound
        have apart : index ≠ otherIndex := by
          rintro rfl
          have sameEntry := isEntry.symm.trans isOther
          simp only [Option.some.injEq, Prod.mk.injEq] at sameEntry
          exact same sameEntry.1.symm
        simp [Array.getElem?_setIfInBounds, apart]

end SymbolTable

/-! ## Values -/

/-- The handlers of the calculator by the numbers of their symbols and
productions. -/
def bindings : Actions :=
  ⟨[(4, nameHandler), (3, numberHandler)],
    [(1, pureHandler append),
      (2, pureHandler fun values => .ok (.results [statement values 0])),
      (5, assignmentHandler),
      (12, pureHandler negation),
      (11, pureHandler division),
      (10, pureHandler (binary Integer.multiply)),
      (9, pureHandler (binary Integer.subtract)),
      (8, pureHandler (binary Integer.add)),
      (7, referenceHandler)]⟩

theorem actions_grammar : actions grammar = .ok bindings := by
  cbv

/-- A number as the value of an expression. -/
def valueOf (result : Except Failure Int) : Except Failure (Option Value) :=
  result.map fun number => some (.number number)

theorem inRange_checked (number : Int) :
    (inRange (Integer.checked number)).map some =
      valueOf (bounded number) := by
  have sameRange : Integer.least ≤ number ∧ number ≤ Integer.greatest ↔
      -2 ^ 63 ≤ number ∧ number < 2 ^ 63 := by
    unfold Integer.least Integer.greatest
    omega
  unfold Integer.checked bounded
  rw [if_congr sameRange rfl rfl]
  split <;> rfl

variable {table : SymbolTable} {name : String} {index : Nat}

theorem token_number
    (text : String)
    (table : SymbolTable)
    (environment : Environment) :
    bindings.token 3 text table =
      (valueOf (Expression.value environment (.number text)), table) := by
  change (Except.map some (numberHandler text table).1,
    (numberHandler text table).2) = _
  unfold numberHandler Expression.value
  cases Integer.read text <;> rfl

theorem token_of_ne
    {symbol : SymbolId}
    (text : String)
    (table : SymbolTable)
    (notNumber : symbol ≠ 3)
    (notName : symbol ≠ 4) :
    bindings.token symbol text table = (.ok none, table) := by
  have noHandler : bindings.tokens.lookup symbol = none := by
    simp [bindings, List.lookup_cons, beq_eq_false_iff_ne.mpr notNumber,
      beq_eq_false_iff_ne.mpr notName]
  rw [Bindings.token, noHandler]

/-- A reference to a variable takes its value from the table. -/
theorem reference_name (index : Nat) (table : SymbolTable) :
    reference ⟨[some (.name index)]⟩ table =
      match table.value index with
      | .ok number => .ok (.number number)
      | .error error => .error (.symbol error) := rfl

/-- An assignment to a variable puts its value into the table. -/
theorem assignment_name (index : Nat) (number : Int) (table : SymbolTable) :
    assignment ⟨[some (.name index), none, some (.number number)]⟩ table =
      match table.assign index number with
      | .ok after => .ok (.number number, after)
      | .error error => .error (.symbol error) := rfl

theorem reduce_reference (found : table.index? name = some index) :
    bindings.reduce 7 ⟨[some (.name index)]⟩ table =
      (valueOf (Expression.value table.lookup (.name name)), table) := by
  have isReference := reference_name index table
  rw [SymbolTable.value_of_index? found] at isReference
  refine Prod.ext ?_ rfl
  change (reference _ table).map some = _
  rw [isReference, Expression.value]
  cases table.lookup name <;> rfl

theorem reduce_negation (number : Int) (table : SymbolTable) :
    bindings.reduce 12 ⟨[none, some (.number number)]⟩ table =
      (valueOf (bounded (-number)), table) :=
  Prod.ext (inRange_checked _) rfl

theorem exists_reduce_assignment
    (found : table.index? name = some index)
    (number : Int) :
    ∃ after,
      bindings.reduce 5 ⟨[some (.name index), none, some (.number number)]⟩
          table = (.ok (some (.number number)), after) ∧
        after.lookup = Function.update table.lookup name (some number) := by
  obtain ⟨after, assigned, isLookup⟩ := SymbolTable.exists_assign found number
  have isAssignment := assignment_name index number table
  rw [assigned] at isAssignment
  refine ⟨after, ?_, isLookup⟩
  change ((assignmentHandler _ table).1.map some,
    (assignmentHandler _ table).2) = _
  rw [assignmentHandler, isAssignment]
  rfl

theorem reduce_single (result : Option Int) (table : SymbolTable) :
    bindings.reduce 2 ⟨[result.map Value.number]⟩ table =
      (.ok (some (.results [result])), table) := by
  cases result <;> rfl

theorem reduce_more
    (results : List (Option Int))
    (result : Option Int)
    (table : SymbolTable) :
    bindings.reduce 1 ⟨[some (.results results), none,
        result.map Value.number]⟩ table =
      (.ok (some (.results (results ++ [result]))), table) := by
  cases result <;> rfl

namespace Operator

/-- The terminal of an operator. -/
def symbol : Operator → SymbolId
  | add => 5
  | subtract => 6
  | multiply => 7
  | divide => 8

/-- The production of an operator. -/
def production : Operator → ProductionId
  | add => 8
  | subtract => 9
  | multiply => 10
  | divide => 11

theorem reduce_production
    (operator : Operator)
    (left right : Int)
    (table : SymbolTable) :
    bindings.reduce operator.production
        ⟨[some (.number left), none, some (.number right)]⟩ table =
      (valueOf (operator.apply left right), table) := by
  cases operator with
  | add => exact Prod.ext (inRange_checked _) rfl
  | subtract => exact Prod.ext (inRange_checked _) rfl
  | multiply => exact Prod.ext (inRange_checked _) rfl
  | divide =>
      refine Prod.ext ?_ rfl
      change Except.map some (if some (Value.number right) =
        some (Value.number 0) then .error .divisionByZero else
          inRange (Integer.divide left right)) = _
      unfold Operator.apply Integer.divide
      by_cases isZero : right = 0
      · simp [isZero, valueOf, Except.map]
      · simp only [isZero, if_false, Option.some.injEq, Value.number.injEq]
        exact inRange_checked _

end Operator

end Calculator
end ParserGenerator
