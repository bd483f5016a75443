import ParserGenerator.Proofs.Parse.Safety

/-!
# Stacks held apart

A parser may hold its states, symbols and values on three stacks of their own,
the first state below all of them. A decision then pushes on each stack and cuts
each of them for itself: nothing but the decisions keeps the stacks in step, and
a cut too deep would set them apart. What the parser makes of the stacks is what
it makes of frames, so that the stacks stay in step and lie along a path of the
table, and no run meets an internal error.
-/

open ParserGenerator.Stream

namespace ParserGenerator
namespace Parse

open Table (Rules)

variable {Context Failure Value : Type}

/-- A parser with a stack each for its states, symbols and values, the lowest
entries first. -/
structure StackMachine (Context Value : Type) where
  /-- The states. -/
  states : List Nat
  /-- The symbols. -/
  symbols : List SymbolId
  /-- The values of the symbols. -/
  values : List (Option Value)
  /-- Whether a marker was shifted before the next token. -/
  markerShifted : Bool
  /-- The context of the handlers. -/
  context : Context

/-- What a decision about the stacks leads to. -/
inductive StackMachine.Outcome (Context Failure Value : Type)
  /-- The parse goes on. -/
  | ongoing (machine : StackMachine Context Value)
  /-- The goal was recognised; its value. -/
  | accepted (value : Option Value)
  /-- The parse failed. -/
  | failed (cause : Cause Failure) (machine : StackMachine Context Value)

namespace StackMachine

/-- The stacks before the first token. -/
def start (context : Context) : StackMachine Context Value :=
  ⟨[0], [], [], false, context⟩

/-- The state on top. -/
def state (machine : StackMachine Context Value) : Nat :=
  machine.states.getLast?.getD 0

/-- Put an entry on each stack. -/
def push (machine : StackMachine Context Value) (state : Nat) (symbol : SymbolId)
    (value : Option Value) : StackMachine Context Value :=
  { machine with
    states := machine.states ++ [state]
    symbols := machine.symbols ++ [symbol]
    values := machine.values ++ [value] }

/-- Keep the lowest symbols and values, and one state more. -/
def truncate (machine : StackMachine Context Value) (count : Nat) :
    StackMachine Context Value :=
  { machine with
    states := machine.states.take (count + 1)
    symbols := machine.symbols.take count
    values := machine.values.take count }

/-- Go over to the state after the head of a production that was popped. -/
def goto (rules : Rules) (table : Table) (machine : StackMachine Context Value)
    (production : ProductionId) (value : Option Value) :
    Outcome Context Failure Value :=
  let missing := .failed (.noGoto (rules.headName production)) machine
  match rules.head? production with
  | none => missing
  | some head =>
      match table.goto machine.state head with
      | none => missing
      | some target => .ongoing (machine.push target head value)

/-- Replace the body of a production by its head. -/
def reduce (rules : Rules) (table : Table)
    (bindings : Bindings Context Failure Value)
    (machine : StackMachine Context Value) (production : ProductionId) :
    Outcome Context Failure Value :=
  let size := (rules.body production).length
  if machine.values.length < size then
    .failed .stackUnderflow machine
  else
    let count := machine.values.length - size
    let below := machine.truncate count
    match bindings.reduce production ⟨machine.values.drop count⟩
      machine.context with
    | (.error failure, context) =>
        .failed (.handler failure) { below with context }
    | (.ok value, context) =>
        goto rules table { below with context } production value

/-- Carry out a decision about a token. -/
def perform (rules : Rules) (table : Table)
    (bindings : Bindings Context Failure Value)
    (machine : StackMachine Context Value) (token : Token) :
    Decision → Outcome Context Failure Value
  | .shiftMarker target marker =>
      .ongoing { machine.push target marker none with markerShifted := true }
  | .shift target =>
      match bindings.token token.symbol token.text machine.context with
      | (.ok value, context) =>
          .ongoing { machine.push target token.symbol value with
            markerShifted := false
            context }
      | (.error failure, context) =>
          .failed (.handler failure) { machine with context }
  | .reduce production => machine.reduce rules table bindings production
  | .accept => .accepted machine.values.getLast?.join
  | .reject =>
      .failed (.unexpectedToken (token.description rules.grammar)) machine

/-- Decide about a token by the state on top and carry it out. -/
def step (rules : Rules) (table : Table)
    (bindings : Bindings Context Failure Value)
    (machine : StackMachine Context Value) (token : Token) :
    Outcome Context Failure Value :=
  machine.perform rules table bindings token
    (Decision.make table machine.state machine.markerShifted token)

/-- The stacks that decisions about any tokens lead to. -/
inductive Reached (rules : Rules) (table : Table)
    (bindings : Bindings Context Failure Value) (context : Context) :
    StackMachine Context Value → Prop
  | start : Reached rules table bindings context (StackMachine.start context)
  | step
      {machine next : StackMachine Context Value}
      (reached : Reached rules table bindings context machine)
      (token : Token)
      (ongoing : machine.step rules table bindings token = .ongoing next) :
      Reached rules table bindings context next

/-- There is one state more than there are symbols and values, and the states
are those on the way over the symbols from the first state. -/
structure FollowsPath (table : Table) (machine : StackMachine Context Value) :
    Prop where
  /-- Each symbol has a state, and the first state comes before them. -/
  length_symbols : machine.states.length = machine.symbols.length + 1
  /-- Each value has a state, and the first state comes before them. -/
  length_values : machine.states.length = machine.values.length + 1
  /-- The states are those after each number of symbols. -/
  path : ∀ count ≤ machine.symbols.length,
    table.follow 0 (machine.symbols.take count) = machine.states[count]?

end StackMachine

/-! ## The stacks of frames -/

/-- The stacks that the frames of a configuration stand for. -/
def Configuration.machine (configuration : Configuration Context Value) :
    StackMachine Context Value where
  states := configuration.states
  symbols := configuration.symbols
  values := configuration.values
  markerShifted := configuration.markerShifted
  context := configuration.context

/-- An outcome for the stacks that the frames stand for. -/
def Outcome.onMachine :
    Outcome Context Failure Value → StackMachine.Outcome Context Failure Value
  | kept configuration | consumed configuration =>
      .ongoing configuration.machine
  | accepted value _ => .accepted value
  | failed cause configuration => .failed cause configuration.machine

namespace Configuration

/-- A frame is an entry on each stack. -/
theorem machine_push
    (configuration : Configuration Context Value)
    (frame : Frame Value) :
    ({ configuration with frames := frame :: configuration.frames } :
      Configuration Context Value).machine =
        configuration.machine.push frame.state frame.symbol frame.value := by
  simp [machine, states, symbols, values, StackMachine.push]

/-- Without its topmost frames a stack has the lowest entries left. -/
theorem machine_truncate
    (configuration : Configuration Context Value)
    (count : Nat) :
    ({ configuration with frames := configuration.frames.drop count } :
      Configuration Context Value).machine =
        configuration.machine.truncate
          (configuration.frames.length - count) := by
  simp only [machine, states, symbols, values, StackMachine.truncate,
    List.map_drop, List.reverse_drop, List.length_map, List.take_succ_cons]

@[simp] theorem context_machine
    (configuration : Configuration Context Value) :
    configuration.machine.context = configuration.context := rfl

@[simp] theorem length_values_machine
    (configuration : Configuration Context Value) :
    configuration.machine.values.length = configuration.frames.length := by
  simp [machine, values]

/-- The values of the topmost frames are those on top of the values. -/
theorem values_take
    (configuration : Configuration Context Value)
    (count : Nat) :
    ((configuration.frames.take count).map Frame.value).reverse =
      configuration.machine.values.drop
        (configuration.frames.length - count) := by
  simp only [machine, values, List.map_take, List.reverse_take, List.length_map]

/-- The state on top of the frames is the one on top of the states. -/
theorem state_machine (configuration : Configuration Context Value) :
    configuration.machine.state = configuration.state := by
  unfold StackMachine.state state machine states
  cases configuration.frames with
  | nil => rfl
  | cons frame rest =>
      rw [List.map_cons, List.reverse_cons, ← List.cons_append,
        List.getLast?_concat]
      rfl

/-- The value on top of the frames is the one on top of the values. -/
theorem goalValue_eq_join (configuration : Configuration Context Value) :
    configuration.goalValue = configuration.machine.values.getLast?.join := by
  unfold goalValue machine values
  cases configuration.frames <;> simp

/-! ## Decisions -/

variable {rules : Rules} {table : Table}
  {bindings : Bindings Context Failure Value}

theorem onMachine_goto
    (configuration : Configuration Context Value)
    (production : ProductionId)
    (value : Option Value) :
    (configuration.goto rules table production value :
      Outcome Context Failure Value).onMachine =
        configuration.machine.goto rules table production value := by
  unfold goto StackMachine.goto
  rw [state_machine]
  cases rules.head? production with
  | none => rfl
  | some head =>
      dsimp only
      cases table.goto configuration.state head with
      | none => rfl
      | some target =>
          exact congrArg StackMachine.Outcome.ongoing (configuration.machine_push _)

/-- A reduction takes as many entries from each stack as it takes frames. -/
theorem onMachine_reduce
    (configuration : Configuration Context Value)
    (production : ProductionId) :
    (configuration.reduce rules table bindings production).onMachine =
      configuration.machine.reduce rules table bindings production := by
  unfold reduce StackMachine.reduce
  dsimp only
  rw [length_values_machine, List.length_take]
  generalize (rules.body production).length = size
  by_cases short : configuration.frames.length < size
  · rw [if_pos (by omega), if_pos short]
    rfl
  · rw [if_neg (by omega), if_neg short, ← values_take,
      ← machine_truncate, context_machine]
    rcases bindings.reduce production _ configuration.context with
      ⟨failure | value, context⟩
    · rfl
    · exact onMachine_goto _ production value

/-- What a decision makes of the stacks is what it makes of the frames. -/
theorem onMachine_perform
    (configuration : Configuration Context Value)
    (token : Token)
    (decision : Decision) :
    (configuration.perform rules table bindings token decision).onMachine =
      configuration.machine.perform rules table bindings token decision := by
  cases decision with
  | shiftMarker target marker =>
      exact congrArg StackMachine.Outcome.ongoing
        (machine_push { configuration with markerShifted := true } _)
  | shift target =>
      unfold perform shift StackMachine.perform
      dsimp only [machine]
      rcases bindings.token token.symbol token.text configuration.context with
        ⟨failure | value, context⟩
      · rfl
      · exact congrArg StackMachine.Outcome.ongoing
          (machine_push ⟨configuration.frames, false, context⟩ _)
  | reduce production => exact onMachine_reduce configuration production
  | accept =>
      exact congrArg StackMachine.Outcome.accepted configuration.goalValue_eq_join
  | reject => rfl

/-- One step of the stacks is one step of the frames. -/
theorem onMachine_step
    (configuration : Configuration Context Value)
    (token : Token) :
    (configuration.step rules table bindings token).onMachine =
      configuration.machine.step rules table bindings token := by
  unfold step StackMachine.step decision
  rw [state_machine]
  exact onMachine_perform configuration token _

end Configuration

/-! ## Runs -/

namespace StackMachine

variable {rules : Rules} {resolver : Option Table.Resolver} {table : Table}
  {bindings : Bindings Context Failure Value} {context : Context}
  {machine : StackMachine Context Value}

/-- The stacks that are reached are those of a rooted stack of frames. -/
theorem Reached.exists_rooted
    (built : (rules.construct resolver).result = .ok table)
    (reached : Reached rules table bindings context machine) :
    ∃ configuration : Configuration Context Value,
      configuration.machine = machine ∧ Rooted table configuration.frames := by
  induction reached with
  | start => exact ⟨.start context, rfl, .base⟩
  | step _ token ongoing inductionHypothesis =>
      obtain ⟨configuration, rfl, rooted⟩ := inductionHypothesis
      have safe : (configuration.step rules table bindings token).Safe table :=
        Configuration.safe_step built rooted token
      rw [← Configuration.onMachine_step] at ongoing
      cases outcome : configuration.step rules table bindings token with
      | kept next | consumed next =>
          rw [outcome] at ongoing safe
          exact ⟨next, StackMachine.Outcome.ongoing.inj ongoing, safe⟩
      | accepted value last =>
          rw [outcome] at ongoing
          simp [Parse.Outcome.onMachine] at ongoing
      | failed cause last =>
          rw [outcome] at ongoing
          simp [Parse.Outcome.onMachine] at ongoing

/-- Whatever the tokens are, the stacks stay in step along a path of the
table. -/
theorem Reached.followsPath
    (built : (rules.construct resolver).result = .ok table)
    (reached : Reached rules table bindings context machine) :
    machine.FollowsPath table := by
  obtain ⟨configuration, rfl, rooted⟩ := reached.exists_rooted built
  obtain ⟨length_symbols, length_values, path⟩ :=
    rooted.followsPath configuration.markerShifted configuration.context
  exact ⟨length_symbols, length_values, path⟩

/-- Whatever the tokens are, no decision about the stacks meets an internal
error. -/
theorem Reached.not_internal
    (built : (rules.construct resolver).result = .ok table)
    (reached : Reached rules table bindings context machine)
    {token : Token}
    {cause : Cause Failure}
    {last : StackMachine Context Value}
    (failed : machine.step rules table bindings token = .failed cause last) :
    ¬ cause.IsInternal := by
  obtain ⟨configuration, rfl, rooted⟩ := reached.exists_rooted built
  have safe : (configuration.step rules table bindings token).Safe table :=
    Configuration.safe_step built rooted token
  rw [← Configuration.onMachine_step] at failed
  cases outcome : configuration.step rules table bindings token with
  | failed reason final =>
      rw [outcome] at failed safe
      obtain ⟨rfl, -⟩ := StackMachine.Outcome.failed.inj failed
      exact safe.1
  | kept next | consumed next | accepted value final =>
      rw [outcome] at failed
      simp [Parse.Outcome.onMachine] at failed

end StackMachine

namespace Run

variable {Supply : Type} {parser : Parser Context Failure Value}
  {run next : Run Supply Context Value} {context : Context}

/-- A step of a run decides about its token or leaves the stacks alone. -/
theorem reached_advance
    [CharacterData]
    [Source Supply]
    (reached : StackMachine.Reached parser.compiled.rules parser.compiled.table
      parser.bindings context run.configuration.machine)
    (ongoing : run.advance parser = .ongoing next) :
    StackMachine.Reached parser.compiled.rules parser.compiled.table
      parser.bindings context next.configuration.machine := by
  unfold advance at ongoing
  cases atToken : run.token with
  | none =>
      rw [atToken] at ongoing
      rwa [configuration_scanToken ongoing]
  | some token =>
      rw [atToken] at ongoing
      apply reached.step token
      rw [← Configuration.onMachine_step]
      change (run.outcome parser token).onMachine = _
      rcases outcome_of_ongoing ongoing with ⟨isKept, -⟩ | ⟨isConsumed, -⟩
      · rw [isKept]
        rfl
      · rw [isConsumed]
        rfl

/-- The stacks of a run are reached by decisions about its tokens. -/
theorem reached_of_moves
    [CharacterData]
    [Source Supply]
    {window : Window}
    {supply : Supply}
    (moves : Relation.ReflTransGen (Moves parser)
      (Run.start parser.options window supply context) run) :
    StackMachine.Reached parser.compiled.rules parser.compiled.table
      parser.bindings context run.configuration.machine := by
  induction moves with
  | refl => exact .start
  | tail _ move inductionHypothesis =>
      cases move with
      | advance ongoing => exact reached_advance inductionHypothesis ongoing
      | deliver token noToken => exact inductionHypothesis

end Run

namespace Parser

/-- Whatever tokens a run is given and whatever its handlers do, its stack
follows the transitions of the table and its next step meets no internal error.
This is so as well if the three stacks are cut and filled each for itself: a run
comes only to stacks that decisions lead to, and all of these stay in step and
meet no internal error. -/
theorem internal_errors_unreachable
    [CharacterData]
    [Source Supply]
    (parser : Parser Context Failure Value)
    (resolver : Option Table.Resolver)
    (built : (Table.construct parser.compiled.grammar
      parser.compiled.rules.goal resolver).result = .ok parser.compiled.table)
    (window : Window)
    (supply : Supply)
    (context : Context)
    (run : Run Supply Context Value)
    (reached : Relation.ReflTransGen (Run.Moves parser)
      (Run.start parser.options window supply context) run) :
    run.configuration.FollowsPath parser.compiled.table ∧
      (∀ report error, run.advance parser = .finished report →
        report.result = .error error → ¬ error.cause.IsInternal) ∧
      StackMachine.Reached parser.compiled.rules parser.compiled.table
        parser.bindings context run.configuration.machine ∧
      ∀ machine : StackMachine Context Value,
        StackMachine.Reached parser.compiled.rules parser.compiled.table
          parser.bindings context machine →
        machine.FollowsPath parser.compiled.table ∧
          ∀ (token : Token) (cause : Cause Failure)
              (last : StackMachine Context Value),
            machine.step parser.compiled.rules parser.compiled.table
                parser.bindings token = .failed cause last →
              ¬ cause.IsInternal := by
  have isBuilt := Rules.construct_of_ok built
  have rooted := Run.rooted_of_moves isBuilt .base reached
  refine ⟨?_, (Run.safe_advance isBuilt rooted).2,
    Run.reached_of_moves reached, fun machine machineReached => ?_⟩
  · apply rooted.followsPath
  · exact ⟨machineReached.followsPath isBuilt,
      fun _ _ _ failed => machineReached.not_internal isBuilt failed⟩

/-- A token of an unknown symbol is turned away without an internal error after
a marker was shifted in front of a letter. -/
theorem internal_errors_unreachable_unbroken :
    (Table.construct unbrokenLetterParser.compiled.grammar
        unbrokenLetterParser.compiled.rules.goal
        (some Table.Resolver.shifting)).result =
      .ok unbrokenLetterParser.compiled.table ∧
    ∃ run : Run InMemory (List String) String,
      run.configuration.states = [0, 1, 3] ∧
      run.configuration.symbols = [2, 3] ∧
      run.configuration.FollowsPath unbrokenLetterParser.compiled.table ∧
      run.configuration.machine =
        ⟨[0, 1, 3], [2, 3], [none, some "a"], false, ["a"]⟩ ∧
      run.configuration.machine.FollowsPath
        unbrokenLetterParser.compiled.table ∧
      run.token = some ⟨77, "?", 5, true⟩ ∧
      ∀ report error,
        @Run.advance _ _ _ _ Unicode.standard _ unbrokenLetterParser run =
            .finished report →
          report.result = .error error → ¬ error.cause.IsInternal := by
  let _ : CharacterData := Unicode.standard
  have built : (Table.construct unbrokenLetterParser.compiled.grammar
      unbrokenLetterParser.compiled.rules.goal
      (some Table.Resolver.shifting)).result =
        .ok unbrokenLetterParser.compiled.table := by
    cbv
  have reached : Relation.ReflTransGen (Run.Moves unbrokenLetterParser)
      (Run.start unbrokenLetterParser.options (Window.ofUnits [])
        (InMemory.mk []) [] : Run InMemory (List String) String) _ :=
    .tail (.tail (.tail (.single (.deliver ⟨3, "a", 0, false⟩ rfl))
      (.advance rfl)) (.advance rfl)) (.deliver ⟨77, "?", 5, true⟩ rfl)
  obtain ⟨follows, safe, machineReached, machineSafe⟩ :=
    internal_errors_unreachable unbrokenLetterParser
      (some Table.Resolver.shifting) built _ _ _ _ reached
  exact ⟨built, _, rfl, rfl, follows, rfl, (machineSafe _ machineReached).1,
    rfl, safe⟩

end Parser
end Parse
end ParserGenerator
