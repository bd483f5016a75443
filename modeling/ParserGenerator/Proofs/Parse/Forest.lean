import ParserGenerator.Proofs.Parse.Stack
import ParserGenerator.Proofs.Parse.Trees

/-!
# The forest on the stack

Each frame stands for a derivation tree of its symbol. Evaluating the trees
from the lowest to the topmost gives the values on the stack and the context
of the handlers.
-/

namespace ParserGenerator
namespace Parse

open Table (Rules Item Action)

variable {Context Failure Value : Type} {rules : Rules}
  {resolver : Option Table.Resolver} {table : Table}
  {bindings : Bindings Context Failure Value}

namespace Decision

variable {state : Nat} {markerShifted : Bool} {token : Token}

/-- A marker is shifted once, if it is the one before the token. -/
theorem make_eq_shiftMarker
    {target : Nat}
    {marker : SymbolId}
    (decided : make table state markerShifted token =
      .shiftMarker target marker) :
    markerShifted = false ∧ marker = token.marker ∧
      table.action state marker = some (.shift target) := by
  unfold make ofMarker ofToken at decided
  grind

theorem make_eq_shift
    {target : Nat}
    (decided : make table state markerShifted token = .shift target) :
    table.action state token.symbol = some (.shift target) := by
  unfold make ofMarker ofToken at decided
  grind

/-- A production is reduced on the token or on the marker before it. -/
theorem make_eq_reduce
    {production : ProductionId}
    (decided : make table state markerShifted token = .reduce production) :
    ∃ symbol ∈ [token.marker, token.symbol],
      table.action state symbol = some (.reduce production) := by
  unfold make ofMarker ofToken at decided
  grind

theorem make_eq_accept
    (decided : make table state markerShifted token = .accept) :
    table.action state token.symbol = some .accept := by
  unfold make ofMarker ofToken at decided
  grind

end Decision

namespace Configuration

variable {configuration next : Configuration Context Value} {token : Token}
  {decision : Decision}

/-- What a reduction that succeeds does. -/
theorem reduce_eq_kept
    {production : ProductionId}
    (reduced : configuration.reduce rules table bindings production =
      .kept next) :
    ∃ head value after target,
      bindings.reduce production
        ⟨((configuration.frames.take (rules.body production).length).map
          Frame.value).reverse⟩ configuration.context = (.ok value, after) ∧
      rules.head? production = some head ∧
      table.goto
        (topState (configuration.frames.drop (rules.body production).length))
        head = some target ∧
      next =
        ⟨⟨target, head, value⟩ ::
            configuration.frames.drop (rules.body production).length,
          configuration.markerShifted, after⟩ := by
  unfold reduce at reduced
  dsimp only at reduced
  split at reduced
  · simp at reduced
  · split at reduced
    · simp at reduced
    · next value after handled =>
        unfold goto at reduced
        dsimp only at reduced
        split at reduced
        · simp at reduced
        · next head isHead =>
            split at reduced
            · simp at reduced
            · next target edge =>
                rw [state_eq] at edge
                exact ⟨head, value, after, target, handled, isHead, edge,
                  (Outcome.kept.inj reduced).symm⟩

/-- A reduction keeps the token or fails. -/
theorem reduce_outcome
    {production : ProductionId}
    {outcome : Outcome Context Failure Value}
    (reduced : configuration.reduce rules table bindings production =
      outcome) :
    (∃ next, outcome = .kept next) ∨
      ∃ cause next, outcome = .failed cause next := by
  subst reduced
  unfold reduce goto
  dsimp only
  split
  · exact .inr ⟨_, _, rfl⟩
  · split
    · exact .inr ⟨_, _, rfl⟩
    · split
      · exact .inr ⟨_, _, rfl⟩
      · split
        · exact .inr ⟨_, _, rfl⟩
        · exact .inl ⟨_, rfl⟩

/-- A shift consumes the token or fails. -/
theorem shift_outcome
    {target : Nat}
    {outcome : Outcome Context Failure Value}
    (shifted : configuration.shift bindings target token = outcome) :
    (∃ next, outcome = .consumed next) ∨
      ∃ cause next, outcome = .failed cause next := by
  subst shifted
  unfold shift
  split
  · exact .inl ⟨_, rfl⟩
  · exact .inr ⟨_, _, rfl⟩

theorem perform_eq_kept
    (performed : configuration.perform rules table bindings token decision =
      .kept next) :
    (∃ target marker, decision = .shiftMarker target marker ∧
        next = configuration.shiftMarker target marker) ∨
      ∃ production, decision = .reduce production ∧
        configuration.reduce rules table bindings production = .kept next := by
  cases decision with
  | shiftMarker target marker =>
      exact .inl ⟨target, marker, rfl, (Outcome.kept.inj performed).symm⟩
  | reduce production => exact .inr ⟨production, rfl, performed⟩
  | shift target => simpa using shift_outcome performed
  | accept => simp [perform] at performed
  | reject => simp [perform] at performed

theorem perform_eq_consumed
    (performed : configuration.perform rules table bindings token decision =
      .consumed next) :
    ∃ target, decision = .shift target ∧
      configuration.shift bindings target token = .consumed next := by
  cases decision with
  | shift target => exact ⟨target, rfl, performed⟩
  | reduce production => simpa using reduce_outcome performed
  | shiftMarker target marker => simp [perform] at performed
  | accept => simp [perform] at performed
  | reject => simp [perform] at performed

theorem perform_eq_accepted
    {value : Option Value}
    (performed : configuration.perform rules table bindings token decision =
      .accepted value next) :
    decision = .accept ∧ value = configuration.goalValue ∧
      next = configuration := by
  cases decision with
  | accept =>
      obtain ⟨isValue, isNext⟩ := Outcome.accepted.inj performed
      exact ⟨rfl, isValue.symm, isNext.symm⟩
  | shift target => simpa using shift_outcome performed
  | reduce production => simpa using reduce_outcome performed
  | shiftMarker target marker => simp [perform] at performed
  | reject => simp [perform] at performed

end Configuration

/-- The frames of a configuration stand for trees, the topmost first. -/
structure Represents (rules : Rules) (table : Table)
    (bindings : Bindings Context Failure Value) (start : Context)
    (configuration : Configuration Context Value) (trees : List Tree) :
    Prop where
  /-- The states follow the symbols. -/
  rooted : Rooted table configuration.frames
  /-- Each tree derives the symbol of its frame. -/
  derives : List.Forall₂
    (fun frame tree => Tree.Derives rules.grammar frame.symbol tree)
    configuration.frames trees
  /-- The values and the context are those of the trees. -/
  evaluated : Tree.evaluateAll bindings trees.reverse start =
    (.ok (configuration.frames.map Frame.value).reverse,
      configuration.context)

namespace Represents

variable {start : Context} {configuration next : Configuration Context Value}
  {trees : List Tree}

theorem initial (start : Context) :
    Represents rules table bindings start (Configuration.start start) [] where
  rooted := .base
  derives := .nil
  evaluated := rfl

/-- A tree on top of the others is evaluated last. -/
theorem evaluated_push
    (represents :
      Represents rules table bindings start configuration trees)
    {tree : Tree}
    {value : Option Value}
    {after : Context}
    (isValue : Tree.evaluate bindings tree configuration.context =
      (.ok value, after)) :
    Tree.evaluateAll bindings (tree :: trees).reverse start =
      (.ok (value :: configuration.frames.map Frame.value).reverse,
        after) := by
  rw [List.reverse_cons, List.reverse_cons]
  refine Tree.evaluateAll_append_eq_ok.mpr
    ⟨_, [value], _, represents.evaluated, ?_, rfl⟩
  exact Tree.evaluateAll_cons_eq_ok.mpr ⟨value, [], after, isValue, rfl, rfl⟩

theorem shiftMarker
    (built : (rules.construct resolver).result = .ok table)
    (represents :
      Represents rules table bindings start configuration trees)
    {target : Nat}
    {marker : SymbolId}
    (acts : table.action configuration.state marker = some (.shift target)) :
    Represents rules table bindings start
      (configuration.shiftMarker target marker)
      (.leaf (.marker marker) :: trees) := by
  obtain ⟨edge, terminal⟩ := Rules.goto_of_action_shift built acts
  rw [configuration.state_eq] at edge
  have isValue : Tree.evaluate bindings (.leaf (.marker marker))
      configuration.context = (.ok none, configuration.context) := by
    rw [Tree.evaluate]
  have derives : Tree.Derives rules.grammar marker (.leaf (.marker marker)) :=
    @Tree.Derives.leaf rules.grammar (.marker marker) terminal
  exact ⟨.push represents.rooted edge, .cons derives represents.derives,
    represents.evaluated_push isValue⟩

theorem shift
    (built : (rules.construct resolver).result = .ok table)
    (represents :
      Represents rules table bindings start configuration trees)
    {target : Nat}
    {token : Token}
    (acts : table.action configuration.state token.symbol =
      some (.shift target))
    (shifted : configuration.shift bindings target token = .consumed next) :
    Represents rules table bindings start next
        (.leaf (.token token) :: trees) ∧
      next.markerShifted = false := by
  obtain ⟨edge, terminal⟩ := Rules.goto_of_action_shift built acts
  rw [configuration.state_eq] at edge
  unfold Configuration.shift at shifted
  split at shifted
  · next value after handled =>
      obtain rfl := Outcome.consumed.inj shifted
      rw [← Tree.evaluate_token] at handled
      have derives : Tree.Derives rules.grammar token.symbol
          (.leaf (.token token)) :=
        @Tree.Derives.leaf rules.grammar (.token token) terminal
      exact ⟨⟨.push represents.rooted edge, .cons derives represents.derives,
        represents.evaluated_push handled⟩, rfl⟩
  · simp at shifted

/-- The trees on top of the stack, evaluated after those below them. -/
theorem split
    (represents :
      Represents rules table bindings start configuration trees)
    (size : Nat) :
    ∃ middle,
      Tree.evaluateAll bindings (trees.drop size).reverse start =
        (.ok ((configuration.frames.drop size).map Frame.value).reverse,
          middle) ∧
      Tree.evaluateAll bindings (trees.take size).reverse middle =
        (.ok ((configuration.frames.take size).map Frame.value).reverse,
          configuration.context) := by
  have evaluated := represents.evaluated
  rw [← List.take_append_drop size trees, List.reverse_append] at evaluated
  obtain ⟨first, second, middle, below, above, values⟩ :=
    Tree.evaluateAll_append_eq_ok.mp evaluated
  have sameLength : configuration.frames.length = trees.length :=
    represents.derives.length_eq
  have firstLength : first.length =
      ((configuration.frames.drop size).map Frame.value).reverse.length := by
    rw [Tree.length_of_evaluateAll below]
    simp [sameLength]
  rw [← List.take_append_drop size configuration.frames, List.map_append,
    List.reverse_append] at values
  obtain ⟨rfl, rfl⟩ := List.append_inj values.symm firstLength
  exact ⟨middle, below, above⟩

/-- Reducing a production puts a node in place of the trees of its body. -/
theorem reduce
    (built : (rules.construct resolver).result = .ok table)
    (represents :
      Represents rules table bindings start configuration trees)
    {production : ProductionId}
    {symbol : SymbolId}
    (acts : table.action configuration.state symbol =
      some (.reduce production))
    (reduced : configuration.reduce rules table bindings production =
      .kept next) :
    ∃ others, Represents rules table bindings start next others ∧
      Tree.leavesOf others.reverse = Tree.leavesOf trees.reverse ∧
      next.markerShifted = configuration.markerShifted := by
  obtain ⟨notAccept, kernel, found, complete⟩ :=
    Rules.mem_closure_of_action_reduce built acts
  rw [configuration.state_eq] at found
  obtain ⟨enough, spelt⟩ :=
    represents.rooted.spells_body built found complete
  obtain ⟨head, value, after, target, handled, isHead, edge, rfl⟩ :=
    Configuration.reduce_eq_kept reduced
  generalize sizeIs : (rules.body production).length = size at *
  obtain ⟨middle, below, above⟩ := represents.split size
  refine ⟨.node production (trees.take size).reverse :: trees.drop size,
    ⟨.push (represents.rooted.drop size) edge, .cons ?_ ?_, ?_⟩, ?_, rfl⟩
  · obtain ⟨rule, isRule, rfl⟩ := Option.map_eq_some_iff.mp isHead
    have isBody : rules.body production = rule.body := by
      simp [Rules.body, notAccept, isRule]
    refine .node isRule ?_
    rw [← isBody, ← spelt, ← List.map_reverse, List.forall₂_map_left_iff]
    exact List.rel_reverse (List.forall₂_take size represents.derives)
  · exact List.forall₂_drop size represents.derives
  · rw [List.reverse_cons, List.map_cons, List.reverse_cons]
    refine Tree.evaluateAll_append_eq_ok.mpr ⟨_, [value], _, below, ?_, rfl⟩
    refine Tree.evaluateAll_cons_eq_ok.mpr ⟨value, [], after, ?_, rfl, rfl⟩
    rw [Tree.evaluate_node above, handled]
  · rw [List.reverse_cons, Tree.leavesOf_append, Tree.leavesOf, Tree.leavesOf,
      Tree.leaves, List.append_nil, ← Tree.leavesOf_append,
      ← List.reverse_append, List.take_append_drop]

/-- An accepted goal is the root of the only tree. -/
theorem accept
    (built : (rules.construct resolver).result = .ok table)
    (represents :
      Represents rules table bindings start configuration trees)
    {symbol : SymbolId}
    (acts : table.action configuration.state symbol = some .accept) :
    symbol = Grammar.endSymbol ∧ ∃ tree, trees = [tree] ∧
      Tree.Derives rules.grammar rules.goal tree ∧
      Tree.evaluate bindings tree start =
        (.ok configuration.goalValue, configuration.context) := by
  obtain ⟨atEnd, kernel, found, complete⟩ :=
    Rules.mem_closure_of_action_accept built acts
  rw [configuration.state_eq] at found
  obtain ⟨frame, single, isGoal⟩ :=
    represents.rooted.eq_singleton_of_accept built found complete
  have derives := represents.derives
  have evaluated := represents.evaluated
  rw [single] at derives evaluated
  obtain ⟨tree, rest, derivesTree, restDerives, rfl⟩ :=
    List.forall₂_cons_left_iff.mp derives
  obtain rfl := List.forall₂_nil_left_iff.mp restDerives
  obtain ⟨value, others, after, isValue, isRest, values⟩ :=
    Tree.evaluateAll_cons_eq_ok.mp evaluated
  obtain ⟨rfl, rfl⟩ : [] = others ∧ after = configuration.context := by
    simpa [Tree.evaluateAll] using isRest
  obtain rfl : frame.value = value := by simpa using values
  refine ⟨atEnd, tree, rfl, isGoal ▸ derivesTree, ?_⟩
  rw [isValue, Configuration.goalValue, single]

end Represents
end Parse
end ParserGenerator
