import Mathlib
import ParserGenerator.Proofs.Table.States

/-!
# Where a resolver is asked

A resolver is asked only where the build would otherwise fail. Up to its first
question a table is built in the same way with a resolver as without one, and
the build without a resolver ends there, with the conflict that the question is
about. A table that is built without a resolver is therefore the table that is
built with any resolver.
-/

namespace ParserGenerator
namespace Table

/-- The state and the symbol that a question to a resolver is about. -/
def Event.question? : Event → Option (Nat × SymbolId)
  | .shiftAsked state symbol _ _ => some (state, symbol)
  | .coreAsked state symbol _ _ => some (state, symbol)
  | _ => none

/-- The questions to a resolver among some events, in order. -/
def questions (events : List Event) : List (Nat × SymbolId) :=
  events.filterMap Event.question?

@[simp] theorem questions_nil : questions [] = [] := rfl

@[simp] theorem questions_append (events others : List Event) :
    questions (events ++ others) = questions events ++ questions others :=
  List.filterMap_append

@[simp] theorem questions_kernels (count : Nat) (events : List Event) :
    questions (.kernels count :: events) = questions events := rfl

@[simp] theorem questions_settled (passes : Nat) (events : List Event) :
    questions (.settled passes :: events) = questions events := rfl

@[simp] theorem questions_completed (states actions : Nat) :
    questions [.completed states actions] = [] := rfl

/-- A part of a build: what happened and what came out. -/
abbrev Built (Result : Type) := List Event × Except TableError Result

/-- What an error is raised for. -/
def TableError.ArisesAt (error : TableError) (grammar : Grammar) (state : Nat)
    (symbol : SymbolId) : Prop :=
  ∃ conflict, error.conflict? = some conflict ∧ conflict.state = state ∧
    conflict.symbol = grammar.name symbol

/-- A part of a build without a resolver foretells the same part with one: both
are the same and nothing is asked, or the former fails for the state and the
symbol that the first question is about. -/
inductive Anticipates {Result : Type} (grammar : Grammar) :
    Built Result → Built Result → Prop
  | same
      {built : Built Result}
      (unasked : questions built.1 = []) :
      Anticipates grammar built built
  | asked
      {plain resolved : Built Result}
      {error : TableError}
      {state : Nat}
      {symbol : SymbolId}
      {later : List (Nat × SymbolId)}
      (fails : plain.2 = .error error)
      (arises : error.ArisesAt grammar state symbol)
      (first : questions resolved.1 = (state, symbol) :: later) :
      Anticipates grammar plain resolved

/-- One part of a build after another that succeeds. -/
def Built.andThen {Result Other : Type} (first : Built Result)
    (next : Result → Built Other) : Built Other :=
  match first.2 with
  | .error error => (first.1, .error error)
  | .ok result => (first.1 ++ (next result).1, (next result).2)

@[simp] theorem Built.andThen_error
    {Result Other : Type}
    (events : List Event)
    (error : TableError)
    (next : Result → Built Other) :
    Built.andThen (events, .error error) next = (events, .error error) := rfl

@[simp] theorem Built.andThen_ok
    {Result Other : Type}
    (events : List Event)
    (result : Result)
    (next : Result → Built Other) :
    Built.andThen (events, .ok result) next =
      (events ++ (next result).1, (next result).2) := rfl

/-- A part of a build with its result changed. -/
def Built.map {Result Other : Type} (change : Result → Other)
    (built : Built Result) : Built Other :=
  (built.1, built.2.map change)

namespace Anticipates

variable {Result Other : Type} {grammar : Grammar}
  {plain resolved : Built Result}

theorem map
    (anticipates : Anticipates grammar plain resolved)
    (change : Result → Other) :
    Anticipates grammar (plain.map change) (resolved.map change) := by
  cases anticipates with
  | same unasked => exact .same unasked
  | asked fails arises first =>
      refine .asked ?_ arises first
      rw [Built.map, fails]
      rfl

theorem andThen
    {next resolvedNext : Result → Built Other}
    (anticipates : Anticipates grammar plain resolved)
    (nextAnticipates : ∀ result,
      Anticipates grammar (next result) (resolvedNext result)) :
    Anticipates grammar (plain.andThen next)
      (resolved.andThen resolvedNext) := by
  cases anticipates with
  | same unasked =>
      obtain ⟨events, outcome⟩ := plain
      cases outcome with
      | error error => exact .same unasked
      | ok result =>
          -- Nothing was asked so far, so the first question is that of the rest.
          have anticipatesNext := nextAnticipates result
          rw [Built.andThen_ok, Built.andThen_ok]
          generalize next result = rest at anticipatesNext ⊢
          generalize resolvedNext result = resolvedRest at anticipatesNext ⊢
          cases anticipatesNext with
          | same unaskedNext =>
              refine .same ?_
              rw [questions_append, unaskedNext, List.append_nil]
              exact unasked
          | @asked _ error state symbol later fails arises first =>
              have isFirst : questions (events ++ resolvedRest.1) =
                  (state, symbol) :: later := by
                rw [questions_append, show questions events = [] from unasked,
                  first]
                rfl
              exact .asked fails arises isFirst
  | @asked _ error state symbol later fails arises first =>
      have plainFails : (plain.andThen next).2 = .error error := by
        rw [Built.andThen, fails]
      have firstAfter : ∃ more,
          questions (resolved.andThen resolvedNext).1 =
            (state, symbol) :: more := by
        obtain ⟨events, outcome⟩ := resolved
        cases outcome with
        | error error => exact ⟨later, first⟩
        | ok result =>
            refine ⟨later ++ questions (resolvedNext result).1, ?_⟩
            rw [Built.andThen_ok, questions_append,
              show questions events = (state, symbol) :: later from first]
            rfl
      obtain ⟨more, isFirst⟩ := firstAfter
      exact .asked plainFails arises isFirst

/-- Where nothing fails without a resolver, nothing changes with one. -/
theorem of_ok
    {result : Result}
    (anticipates : Anticipates grammar plain resolved)
    (succeeds : plain.2 = .ok result) :
    resolved = plain ∧ questions plain.1 = [] := by
  cases anticipates with
  | same unasked => exact ⟨rfl, unasked⟩
  | asked fails => simp [succeeds] at fails

/-- Where something is asked, the build fails without a resolver. -/
theorem of_questions
    {state : Nat}
    {symbol : SymbolId}
    {later : List (Nat × SymbolId)}
    (anticipates : Anticipates grammar plain resolved)
    (first : questions resolved.1 = (state, symbol) :: later) :
    ∃ error, plain.2 = .error error ∧
      error.ArisesAt grammar state symbol := by
  cases anticipates with
  | same unasked => simp [unasked] at first
  | asked fails arises isFirst =>
      obtain ⟨same, -⟩ := List.cons.inj (isFirst.symm.trans first)
      obtain ⟨rfl, rfl⟩ := Prod.mk.inj same
      exact ⟨_, fails, arises⟩

end Anticipates

/-! ## Choices -/

namespace Rules

variable (rules : Rules) (resolver : Resolver) (candidates : Candidates)

theorem anticipates_chooseShift
    (target : Nat)
    (production : ProductionId) :
    Anticipates rules.grammar
      (rules.chooseShift none candidates target production)
      (rules.chooseShift (some resolver) candidates target production) := by
  unfold chooseShift
  dsimp only
  split
  · exact .same rfl
  · split
    · exact .same rfl
    · split
      · exact .same rfl
      · exact .asked rfl ⟨_, rfl, rfl, rfl⟩ rfl

theorem anticipates_chooseCore :
    Anticipates rules.grammar (rules.chooseCore none candidates)
      (rules.chooseCore (some resolver) candidates) := by
  have asks : questions (rules.chooseCore (some resolver) candidates).1 =
      [(candidates.state, candidates.symbol)] := by
    unfold chooseCore
    dsimp only
    split
    · rfl
    · split <;> rfl
  exact .asked rfl ⟨_, rfl, rfl, rfl⟩ asks

theorem anticipates_chooseReduce :
    Anticipates rules.grammar (rules.chooseReduce none candidates)
      (rules.chooseReduce (some resolver) candidates) := by
  have core := rules.anticipates_chooseCore resolver candidates
  unfold chooseReduce
  dsimp only
  split
  · exact .same rfl
  · split
    · split
      · exact .same rfl
      · exact core
    · exact core

/-- What is chosen without a resolver foretells what is chosen with one. -/
theorem anticipates_choose :
    Anticipates rules.grammar (rules.choose none candidates)
      (rules.choose (some resolver) candidates) := by
  unfold choose
  split
  · exact .same rfl
  · exact .same rfl
  · exact rules.anticipates_chooseShift resolver candidates _ _
  · exact rules.anticipates_chooseReduce resolver candidates

end Rules

/-! ## States -/

namespace Analysis

variable (analysis : Analysis)

theorem chooseAll_cons
    (resolver : Option Resolver)
    (candidates : SymbolId → Candidates)
    (symbol : SymbolId)
    (rest : List SymbolId) :
    analysis.chooseAll resolver candidates (symbol :: rest) =
      Built.andThen (analysis.rules.choose resolver (candidates symbol))
        fun action => Built.map
          (fun actions => (action.map (symbol, ·)).toList ++ actions)
          (analysis.chooseAll resolver candidates rest) := by
  rw [chooseAll]
  obtain ⟨events, choice⟩ :=
    analysis.rules.choose resolver (candidates symbol)
  cases choice <;> rfl

theorem parserStates_cons
    (resolver : Option Resolver)
    (state : Nat)
    (kernel : List LookaheadItem)
    (gotos : List (SymbolId × Nat))
    (rest : List (List LookaheadItem × List (SymbolId × Nat))) :
    analysis.parserStates resolver state ((kernel, gotos) :: rest) =
      Built.andThen (analysis.parserState resolver state kernel gotos)
        fun first => Built.map (first :: ·)
          (analysis.parserStates resolver (state + 1) rest) := by
  rw [parserStates]
  obtain ⟨events, built⟩ :=
    analysis.parserState resolver state kernel gotos
  cases built <;> rfl

theorem anticipates_chooseAll
    (resolver : Resolver)
    (candidates : SymbolId → Candidates)
    (symbols : List SymbolId) :
    Anticipates analysis.rules.grammar
      (analysis.chooseAll none candidates symbols)
      (analysis.chooseAll (some resolver) candidates symbols) := by
  induction symbols with
  | nil => exact .same rfl
  | cons symbol rest inductionHypothesis =>
      rw [chooseAll_cons, chooseAll_cons]
      exact (analysis.rules.anticipates_choose resolver
        (candidates symbol)).andThen fun _ => inductionHypothesis.map _

theorem anticipates_parserState
    (resolver : Resolver)
    (state : Nat)
    (kernel : List LookaheadItem)
    (gotos : List (SymbolId × Nat)) :
    Anticipates analysis.rules.grammar
      (analysis.parserState none state kernel gotos)
      (analysis.parserState (some resolver) state kernel gotos) :=
  (analysis.anticipates_chooseAll resolver _ _).map _

theorem anticipates_parserStates
    (resolver : Resolver)
    (state : Nat)
    (entries : List (List LookaheadItem × List (SymbolId × Nat))) :
    Anticipates analysis.rules.grammar
      (analysis.parserStates none state entries)
      (analysis.parserStates (some resolver) state entries) := by
  induction entries generalizing state with
  | nil => exact .same rfl
  | cons entry rest inductionHypothesis =>
      obtain ⟨kernel, gotos⟩ := entry
      rw [parserStates_cons, parserStates_cons]
      exact (analysis.anticipates_parserState resolver state kernel
        gotos).andThen fun _ => (inductionHypothesis (state + 1)).map _

end Analysis

/-! ## Parts of a build -/

/-- What a build has only if one of its parts has it, and not before something
is asked or fails. -/
structure Traceable (holds : (Result : Type) → Built Result → Prop) :
    Prop where
  andThen : ∀ {Result Other : Type} {first : Built Result}
    {next : Result → Built Other},
      holds Other (first.andThen next) →
        holds Result first ∨ ∃ result, holds Other (next result)
  map : ∀ {Result Other : Type} {change : Result → Other}
    {built : Built Result},
      holds Other (built.map change) → holds Result built
  unasked : ∀ {Result : Type} {events : List Event} {result : Result},
    questions events = [] → ¬holds Result (events, .ok result)

/-- That something is asked can be traced. -/
theorem traceable_question (question : Nat × SymbolId) :
    Traceable fun _ built => question ∈ questions built.1 where
  andThen {_ _ first _} asked := by
    obtain ⟨events, outcome⟩ := first
    cases outcome with
    | error error => exact .inl asked
    | ok result =>
        rw [Built.andThen_ok, questions_append, List.mem_append] at asked
        exact asked.imp_right fun later => ⟨result, later⟩
  map asked := asked
  unasked none asked := by simp [none] at asked

/-- That an error is raised can be traced. -/
theorem traceable_error (error : TableError) :
    Traceable fun _ built => built.2 = .error error where
  andThen {_ _ first _} fails := by
    obtain ⟨events, outcome⟩ := first
    cases outcome with
    | error other =>
        exact .inl (congrArg Except.error (Except.error.inj fails))
    | ok result => exact .inr ⟨result, fails⟩
  map {_ _ _ built} fails := by
    obtain ⟨events, outcome⟩ := built
    cases outcome with
    | error other => exact congrArg Except.error (Except.error.inj fails)
    | ok result => cases fails
  unasked _ fails := by cases fails

namespace Traceable

variable {holds : (Result : Type) → Built Result → Prop}
  {analysis : Analysis} {resolver : Option Resolver}

theorem exists_of_chooseAll
    (traceable : Traceable holds)
    {candidates : SymbolId → Candidates}
    {symbols : List SymbolId}
    (has : holds _ (analysis.chooseAll resolver candidates symbols)) :
    ∃ symbol,
      holds _ (analysis.rules.choose resolver (candidates symbol)) := by
  induction symbols with
  | nil => exact absurd has (traceable.unasked rfl)
  | cons symbol rest inductionHypothesis =>
      rw [Analysis.chooseAll_cons] at has
      rcases traceable.andThen has with atFirst | ⟨_, later⟩
      · exact ⟨symbol, atFirst⟩
      · exact inductionHypothesis (traceable.map later)

theorem exists_of_parserStates
    (traceable : Traceable holds)
    {entries : List (List LookaheadItem × List (SymbolId × Nat))}
    {start : Nat}
    (has : holds _ (analysis.parserStates resolver start entries)) :
    ∃ index kernel gotos symbol, entries[index]? = some (kernel, gotos) ∧
      holds _ (analysis.rules.choose resolver (analysis.candidates
        (start + index) gotos (analysis.closure kernel) symbol)) := by
  induction entries generalizing start with
  | nil => exact absurd has (traceable.unasked rfl)
  | cons entry rest inductionHypothesis =>
      obtain ⟨kernel, gotos⟩ := entry
      rw [Analysis.parserStates_cons] at has
      rcases traceable.andThen has with atFirst | ⟨_, later⟩
      · obtain ⟨symbol, hasThere⟩ :=
          traceable.exists_of_chooseAll (traceable.map atFirst)
        exact ⟨0, kernel, gotos, symbol, rfl, hasThere⟩
      · obtain ⟨index, kernel, gotos, symbol, found, hasThere⟩ :=
          inductionHypothesis (traceable.map later)
        refine ⟨index + 1, kernel, gotos, symbol, by simpa using found, ?_⟩
        rwa [Nat.add_assoc, Nat.add_comm 1] at hasThere

end Traceable

/-! ## Tables -/

/-- A build as a part of a build. -/
def Construction.built (construction : Construction) : Built Table :=
  (construction.events, construction.result)

namespace Rules

/-- What happens before the actions are chosen. -/
def opening (rules : Rules) : Built Unit :=
  ([.kernels rules.kernelGraph.kernels.size,
    .settled (rules.analysis.lookaheads rules.kernelGraph).passes], .ok ())

/-- The table that is made of some states. -/
def closing (rules : Rules) (states : List ParserState) : Built Table :=
  ([.completed states.length
      (states.foldr (fun state total => state.actions.length + total) 0)],
    .ok ⟨states.toArray, rules.goal, rules.accept⟩)

theorem built_construct (rules : Rules) (resolver : Option Resolver) :
    (rules.construct resolver).built =
      rules.opening.andThen fun _ =>
        Built.andThen
          (rules.analysis.parserStates resolver 0
            (Analysis.annotated rules.kernelGraph rules.slotSets))
          rules.closing := by
  unfold construct slotSets opening analysis
  dsimp only
  generalize Analysis.parserStates _ resolver 0 _ = built
  obtain ⟨events, states⟩ := built
  cases states <;> rfl

/-- What is traced to a part of the build of a table is traced to the choice
among the candidates in a state on a symbol. -/
theorem exists_of_construct
    {holds : (Result : Type) → Built Result → Prop}
    (traceable : Traceable holds)
    {rules : Rules}
    {resolver : Option Resolver}
    (has : holds _ (rules.construct resolver).built) :
    ∃ state symbol, state < rules.kernelGraph.kernels.size ∧
      holds _ (rules.choose resolver (rules.candidatesIn state symbol)) := by
  rw [built_construct] at has
  rcases traceable.andThen has with atOpening | ⟨_, inRest⟩
  · exact absurd atOpening (traceable.unasked rfl)
  · rcases traceable.andThen inRest with inStates | ⟨_, atClosing⟩
    · obtain ⟨index, kernel, gotos, symbol, found, hasThere⟩ :=
        traceable.exists_of_parserStates inStates
      obtain ⟨isKernel, isGotos⟩ := annotated_eq found
      refine ⟨index, symbol, ?_, ?_⟩
      · rw [← rules.length_annotated]
        exact (List.getElem?_eq_some_iff.mp found).1
      · rw [Nat.zero_add, isKernel] at hasThere
        rw [candidatesIn, isGotos, Option.getD_some]
        exact hasThere
    · exact absurd atClosing (traceable.unasked rfl)

theorem anticipates_construct (rules : Rules) (resolver : Resolver) :
    Anticipates rules.grammar (rules.construct none).built
      (rules.construct (some resolver)).built := by
  rw [built_construct, built_construct]
  refine .andThen (.same rfl) fun _ => ?_
  exact (rules.analysis.anticipates_parserStates resolver 0 _).andThen
    fun _ => .same rfl

end Rules

/-- A build without a resolver foretells the build with one. -/
theorem anticipates_construct
    (grammar : Grammar)
    (goal : SymbolId)
    (resolver : Resolver) :
    Anticipates grammar (construct grammar goal none).built
      (construct grammar goal (some resolver)).built := by
  unfold construct
  dsimp only
  split
  · exact .same rfl
  · split
    · exact .same rfl
    · exact (Rules.mk grammar goal).anticipates_construct resolver

/-- A resolver matters only where there is a conflict: a table that is built
without a resolver is built with any resolver, which is never asked; and where a
resolver is asked, the build without one fails for the state and the symbol of
the first question. -/
theorem resolver_matters_only_in_conflicts
    (grammar : Grammar)
    (goal : SymbolId)
    (resolver : Resolver) :
    (∀ table, (construct grammar goal none).result = .ok table →
      (construct grammar goal (some resolver)).result = .ok table ∧
        questions (construct grammar goal (some resolver)).events = []) ∧
    ∀ state symbol later,
      questions (construct grammar goal (some resolver)).events =
          (state, symbol) :: later →
        ∃ error, (construct grammar goal none).result = .error error ∧
          error.ArisesAt grammar state symbol := by
  have anticipates := anticipates_construct grammar goal resolver
  constructor
  · intro table succeeds
    obtain ⟨same, unasked⟩ := anticipates.of_ok succeeds
    obtain ⟨sameEvents, sameResult⟩ := Prod.mk.inj same
    exact ⟨sameResult.trans succeeds, sameEvents ▸ unasked⟩
  · intro state symbol later first
    exact anticipates.of_questions first

/-- The grammar of two letters `a`, of which the first may be something of its
own, and of that something where it is the goal. -/
def pairGrammar : Grammar :=
  ⟨false,
    #[⟨"$end", .endOfSource⟩, ⟨"$nl", .lineBreak⟩, ⟨"$nonl", .noLineBreak⟩,
      ⟨"a", .terminal (.text "a") ⟨false, false⟩⟩, ⟨"S", .nonTerminal⟩,
      ⟨"A", .nonTerminal⟩],
    #[⟨"S:1", 4, [3, 3], [], [], []⟩, ⟨"S:2", 4, [5, 3], [], [], []⟩,
      ⟨"A:1", 5, [3], [], [], []⟩]⟩

/-- The first letter alone is without conflicts; before the second one it
competes with a reduction. -/
theorem resolver_matters_only_in_conflicts_pair :
    (∃ table, (construct pairGrammar 5 none).result = .ok table ∧
      (construct pairGrammar 5 (some .shifting)).result = .ok table ∧
      questions (construct pairGrammar 5 (some .shifting)).events = []) ∧
    questions (construct pairGrammar 4 (some .shifting)).events = [(1, 3)] ∧
    ∃ error, (construct pairGrammar 4 none).result = .error error ∧
      error.ArisesAt pairGrammar 1 3 := by
  have built : (construct pairGrammar 5 none).result = .ok
      ⟨#[⟨[(⟨3, 0⟩, [0])], [(3, 1), (5, 2)], [(3, .shift 1)], none⟩,
        ⟨[(⟨2, 1⟩, [0])], [], [(0, .reduce 2)], some 3⟩,
        ⟨[(⟨3, 1⟩, [0])], [], [(0, .accept)], some 5⟩], 5, 3⟩ := by
    cbv
  have asked : questions
      (construct pairGrammar 4 (some .shifting)).events = [(1, 3)] := by
    decide +kernel
  refine ⟨⟨_, built, ?_⟩, asked, ?_⟩
  · exact (resolver_matters_only_in_conflicts pairGrammar 5 .shifting).1 _
      built
  · exact (resolver_matters_only_in_conflicts pairGrammar 4 .shifting).2 1 3
      [] asked

end Table
end ParserGenerator
