import ParserGenerator.Proofs.Parse.Soundness

/-!
# Safety of parses

Whatever tokens come and whatever resolved the conflicts of a table, the stack
of a parser follows the transitions of the table from the first state. A
production is therefore reduced only where its body is on top of the stack, and
the state below the body has a transition over its head: the errors that the
parser keeps for itself never arise. That the states, symbols and values stay in
step also where each has a stack of its own is shown in
`ParserGenerator.Proofs.Parse.StackMachine`.
-/

open ParserGenerator.Stream

namespace ParserGenerator

/-- The transitions over some symbols and one more. -/
theorem Table.follow_concat
    (table : Table)
    (state : Nat)
    (symbols : List SymbolId)
    (symbol : SymbolId) :
    table.follow state (symbols ++ [symbol]) =
      (table.follow state symbols).bind (table.goto · symbol) := by
  induction symbols generalizing state with
  | nil =>
      simp only [List.nil_append, follow, Option.bind_some]
      cases table.goto state symbol <;> rfl
  | cons first rest inductionHypothesis =>
      simp only [List.cons_append, follow]
      cases table.goto state first with
      | none => rfl
      | some target => exact inductionHypothesis target

/-- A production that is called for is called for by an item of the closure. -/
theorem Table.Rules.exists_caller_of_mem_calledFor
    {rules : Table.Rules}
    {kernel : List Table.Item}
    {production : ProductionId}
    (called : production ∈ rules.calledFor kernel) :
    ∃ item ∈ rules.closure kernel, production ∈ rules.predicted item := by
  apply calledFor_induction _ _ called
  · intro item member production calls
    exact ⟨item, mem_closure.mpr (.inl member), calls⟩
  · intro caller isCalled _ production calls
    exact ⟨⟨caller, 0⟩, mem_closure.mpr (.inr ⟨rfl, isCalled⟩), calls⟩

namespace Parse

open Table (Rules)

variable {Supply Context Failure Value : Type}

/-- The causes that would be faults of the parser itself. -/
def Cause.IsInternal : Cause Failure → Prop
  | stackUnderflow => True
  | noGoto _ => True
  | _ => False

/-! ## Stacks -/

namespace Configuration

/-- The states on the stack, the lowest first; the first state lies below all
symbols. -/
def states (configuration : Configuration Context Value) : List Nat :=
  0 :: (configuration.frames.map Frame.state).reverse

/-- The values on the stack, the lowest first. -/
def values (configuration : Configuration Context Value) :
    List (Option Value) :=
  (configuration.frames.map Frame.value).reverse

/-- There is one state more than there are symbols and values, and the states
are those on the way over the symbols from the first state. -/
structure FollowsPath (table : Table)
    (configuration : Configuration Context Value) : Prop where
  /-- Each symbol has a state, and the first state comes before them. -/
  length_symbols :
    configuration.states.length = configuration.symbols.length + 1
  /-- Each value has a state, and the first state comes before them. -/
  length_values :
    configuration.states.length = configuration.values.length + 1
  /-- The states are those after each number of symbols. -/
  path : ∀ count ≤ configuration.symbols.length,
    table.follow 0 (configuration.symbols.take count) =
      configuration.states[count]?

end Configuration

namespace Rooted

variable {table : Table} {frames : List (Frame Value)}

/-- The symbols of a rooted stack lead from the first state to the topmost
one. -/
theorem follow_symbols (rooted : Rooted table frames) :
    table.follow 0 (frames.map Frame.symbol).reverse =
      some (topState frames) := by
  induction rooted with
  | base => rfl
  | push below edge inductionHypothesis =>
      rw [List.map_cons, List.reverse_cons, Table.follow_concat,
        inductionHypothesis]
      exact edge

/-- Every part of a rooted stack from the bottom up leads to its own topmost
state. -/
theorem followsPath
    (rooted : Rooted table frames)
    (markerShifted : Bool)
    (context : Context) :
    Configuration.FollowsPath table
      (⟨frames, markerShifted, context⟩ : Configuration Context Value) where
  length_symbols := by simp [Configuration.states, Configuration.symbols]
  length_values := by simp [Configuration.states, Configuration.values]
  path := by
    intro count bound
    simp only [Configuration.states, Configuration.symbols,
      List.length_reverse, List.length_map] at bound ⊢
    -- The first `count` symbols are those of the frames below the topmost ones.
    have prefixRooted := (rooted.drop (frames.length - count)).follow_symbols
    rw [← List.map_reverse, ← List.map_take, List.take_reverse,
      List.map_reverse, prefixRooted]
    cases count with
    | zero => simp [topState]
    | succ count =>
        rw [List.getElem?_cons_succ,
          List.getElem?_reverse (by simpa using Nat.lt_of_succ_le bound),
          List.getElem?_map, List.length_map]
        have place : frames.length - 1 - count = frames.length - (count + 1) := by
          omega
        have inside : frames.length - (count + 1) < frames.length := by
          omega
        rw [place, List.drop_eq_getElem_cons inside,
          List.getElem?_eq_getElem inside]
        rfl

end Rooted

/-! ## Steps -/

/-- An outcome that leaves a rooted stack and is no fault of the parser. -/
def Outcome.Safe (table : Table) : Outcome Context Failure Value → Prop
  | kept configuration => Rooted table configuration.frames
  | consumed configuration => Rooted table configuration.frames
  | accepted _ configuration => Rooted table configuration.frames
  | failed cause configuration =>
      ¬ cause.IsInternal ∧ Rooted table configuration.frames

namespace Configuration

variable {rules : Rules} {resolver : Option Table.Resolver} {table : Table}
  {bindings : Bindings Context Failure Value}
  {configuration : Configuration Context Value} {token : Token}
  {symbol : SymbolId}

/-- Where the table reduces, the body of the production is on the stack and the
state below it has a transition over the head. -/
theorem exists_goto_of_reduce
    (built : (rules.construct resolver).result = .ok table)
    (rooted : Rooted table configuration.frames)
    {production : ProductionId}
    (acts : table.action configuration.state symbol =
      some (.reduce production)) :
    (rules.body production).length ≤ configuration.frames.length ∧
      ∃ head target, rules.head? production = some head ∧
        table.goto (topState (configuration.frames.drop
          (rules.body production).length)) head = some target := by
  rw [configuration.state_eq] at acts
  obtain ⟨notAccept, kernel, found, complete⟩ :=
    Rules.mem_closure_of_action_reduce built acts
  obtain ⟨enough, -, below, belowFound, starts⟩ :=
    rooted.spells built found complete
  refine ⟨enough, ?_⟩
  rcases Rules.mem_closure.mp starts with inKernel | ⟨-, called⟩
  · -- Only the item of the goal stands at its start in a kernel.
    rcases (rules.explored_kernelGraph.isKernel _ _ belowFound).moved with
      isStart | dots
    · rw [isStart, Rules.startKernel, List.mem_singleton] at inKernel
      exact absurd (congrArg Table.Item.production inKernel) notAccept
    · exact absurd (dots _ inKernel) (Nat.lt_irrefl 0)
  · obtain ⟨item, member, calls⟩ := Rules.exists_caller_of_mem_calledFor called
    obtain ⟨head, next, -, isHead⟩ := Rules.mem_predicted.mp calls
    obtain ⟨target, edge⟩ := Rules.exists_goto belowFound member next
    refine ⟨head, target, isHead, ?_⟩
    rw [Rules.goto_of_construct built]
    exact edge

/-- A reduction that the table asks for never meets an internal error. -/
theorem safe_reduce
    (built : (rules.construct resolver).result = .ok table)
    (rooted : Rooted table configuration.frames)
    {production : ProductionId}
    (acts : table.action configuration.state symbol =
      some (.reduce production)) :
    (configuration.reduce rules table bindings production).Safe table := by
  obtain ⟨enough, head, target, isHead, edge⟩ :=
    exists_goto_of_reduce built rooted acts
  have below := rooted.drop (rules.body production).length
  unfold reduce
  dsimp only
  rw [List.length_take, Nat.min_eq_left enough, if_neg (Nat.lt_irrefl _)]
  split
  · exact ⟨id, below⟩
  · simp only [goto, isHead, state_eq, edge]
    exact .push below edge

theorem safe_shift
    (built : (rules.construct resolver).result = .ok table)
    (rooted : Rooted table configuration.frames)
    {target : Nat}
    (acts : table.action configuration.state token.symbol =
      some (.shift target)) :
    (configuration.shift bindings target token).Safe table := by
  obtain ⟨edge, -⟩ := Rules.goto_of_action_shift built acts
  rw [configuration.state_eq] at edge
  unfold shift
  split
  · exact .push rooted edge
  · exact ⟨id, rooted⟩

/-- What is decided about a token in a rooted configuration is safe to carry
out. -/
theorem safe_step
    (built : (rules.construct resolver).result = .ok table)
    (rooted : Rooted table configuration.frames)
    (token : Token) :
    (configuration.step rules table bindings token).Safe table := by
  unfold step
  cases decided : configuration.decision table token with
  | shiftMarker target marker =>
      obtain ⟨-, -, acts⟩ := Decision.make_eq_shiftMarker decided
      obtain ⟨edge, -⟩ := Rules.goto_of_action_shift built acts
      rw [configuration.state_eq] at edge
      exact .push rooted edge
  | shift target => exact safe_shift built rooted (Decision.make_eq_shift decided)
  | reduce production =>
      obtain ⟨symbol, -, acts⟩ := Decision.make_eq_reduce decided
      exact safe_reduce built rooted acts
  | accept => exact rooted
  | reject => exact ⟨id, rooted⟩

end Configuration

/-! ## Runs -/

namespace Run

variable {parser : Parser Context Failure Value}
  {run next : Run Supply Context Value}
  {resolver : Option Table.Resolver}

/-- Acting on a token keeps the stack rooted, or it ends without an internal
error. -/
theorem safe_actOn
    (built : (parser.compiled.rules.construct resolver).result =
      .ok parser.compiled.table)
    (rooted : Rooted parser.compiled.table run.configuration.frames)
    (token : Token) :
    (∀ next, run.actOn parser token = .ongoing next →
      Rooted parser.compiled.table next.configuration.frames) ∧
    ∀ report error, run.actOn parser token = .finished report →
      report.result = .error error → ¬ error.cause.IsInternal := by
  have safe : (run.outcome parser token).Safe parser.compiled.table :=
    Configuration.safe_step built rooted token
  constructor
  · intro next ongoing
    rcases outcome_of_ongoing ongoing with ⟨isKept, -⟩ | ⟨isConsumed, -⟩
    · rwa [isKept] at safe
    · rwa [isConsumed] at safe
  · intro report error finished isError
    unfold actOn at finished
    dsimp only at finished
    split at finished
    · simp at finished
    · simp at finished
    · obtain rfl := Progress.finished.inj finished
      simp at isError
    · next cause configuration isFailed =>
        have isOutcome : run.outcome parser token =
            .failed cause configuration := isFailed
        rw [isOutcome] at safe
        obtain rfl := Progress.finished.inj finished
        obtain rfl := Except.error.inj isError
        exact safe.1

section Steps

variable [CharacterData] [Source Supply]

/-- Scanning and refilling meet no internal error. -/
theorem safe_scanToken
    {compiled : Compiled}
    {report : Report Context Failure Value}
    {error : ParseError Failure}
    (finished : run.scanToken compiled =
      (.finished report : Progress Supply Context Failure Value))
    (isError : report.result = .error error) :
    ¬ error.cause.IsInternal := by
  unfold scanToken refill at finished
  dsimp only at finished
  split at finished
  · split at finished
    · simp at finished
    · obtain rfl := Progress.finished.inj finished
      obtain rfl := Except.error.inj isError
      exact id
  · obtain rfl := Progress.finished.inj finished
    obtain rfl := Except.error.inj isError
    exact id
  · simp at finished

/-- One step keeps the stack rooted, or it ends the run without an internal
error. -/
theorem safe_advance
    (built : (parser.compiled.rules.construct resolver).result =
      .ok parser.compiled.table)
    (rooted : Rooted parser.compiled.table run.configuration.frames) :
    (∀ next, run.advance parser = .ongoing next →
      Rooted parser.compiled.table next.configuration.frames) ∧
    ∀ report error, run.advance parser = .finished report →
      report.result = .error error → ¬ error.cause.IsInternal := by
  unfold advance
  cases run.token with
  | none =>
      constructor
      · intro next scans
        rw [configuration_scanToken scans]
        exact rooted
      · intro report error finished isError
        exact safe_scanToken finished isError
  | some token => exact safe_actOn built rooted token

/-- A step of a run, or the arrival of any token whatever where the next one
would be scanned. -/
inductive Moves (parser : Parser Context Failure Value) :
    Run Supply Context Value → Run Supply Context Value → Prop
  | advance
      {run next : Run Supply Context Value}
      (ongoing : run.advance parser = .ongoing next) :
      Moves parser run next
  | deliver
      {run : Run Supply Context Value}
      (token : Token)
      (noToken : run.token = none) :
      Moves parser run { run with token := some token }

theorem rooted_of_moves
    (built : (parser.compiled.rules.construct resolver).result =
      .ok parser.compiled.table)
    (rooted : Rooted parser.compiled.table run.configuration.frames)
    (moves : Relation.ReflTransGen (Moves parser) run next) :
    Rooted parser.compiled.table next.configuration.frames := by
  induction moves with
  | refl => exact rooted
  | tail _ move inductionHypothesis =>
      cases move with
      | advance ongoing =>
          exact (safe_advance built inductionHypothesis).1 _ ongoing
      | deliver token noToken => exact inductionHypothesis

end Steps
end Run

end Parse
end ParserGenerator
