import Mathlib
import ParserGenerator.Parse.Run
import ParserGenerator.Proofs.Parse.Forest
import ParserGenerator.Unicode.Standard

/-!
# Soundness of parses

A parse that accepts has recognised a derivation tree of the goal over exactly
what it shifted, and its value and context are those of the tree. This holds
for every table that was built, whatever resolved its conflicts.
-/

open ParserGenerator.Stream

namespace ParserGenerator
namespace Parse

open Table (Rules)

variable {Supply Context Failure Value : Type}

namespace Run

/-- What the next step shifts, if it shifts something. -/
def shiftedNext (parser : Parser Context Failure Value)
    (run : Run Supply Context Value) : List Leaf :=
  match run.token with
  | none => []
  | some token =>
      match run.configuration.decision parser.compiled.table token with
      | .shiftMarker _ marker => [.marker marker]
      | .shift _ => [.token token]
      | _ => []

section Traces

variable [CharacterData] [Source Supply]

/-- The runs between the steps, the first one included. -/
def visited (parser : Parser Context Failure Value) :
    (fuel : Nat) → Run Supply Context Value → List (Run Supply Context Value)
  | 0, _ => []
  | fuel + 1, run =>
      run ::
        match run.advance parser with
        | .ongoing next => next.visited parser fuel
        | .finished _ => []

/-- The token that the next step scans, if it scans one. -/
def scannedNext (parser : Parser Context Failure Value)
    (run : Run Supply Context Value) : List Token :=
  match run.token, run.advance parser with
  | none, .ongoing next => next.token.toList
  | _, _ => []

/-- The tokens that a run scans, in order. -/
def scanned (parser : Parser Context Failure Value) (fuel : Nat)
    (run : Run Supply Context Value) : List Token :=
  (run.visited parser fuel).flatMap (scannedNext parser)

/-- What a run shifts, in order. -/
def shifted (parser : Parser Context Failure Value) (fuel : Nat)
    (run : Run Supply Context Value) : List Leaf :=
  (run.visited parser fuel).flatMap (shiftedNext parser)

end Traces

/-- The marker in front of the token that was not shifted yet. -/
def pendingMarker (run : Run Supply Context Value) : List Leaf :=
  if run.configuration.markerShifted then
    run.token.toList.map fun token => .marker token.marker
  else
    []

/-- A run stands for trees over all that was shifted, which is what was
scanned. -/
structure Accounts (parser : Parser Context Failure Value) (start : Context)
    (tokens : List Token) (leaves : List Leaf)
    (run : Run Supply Context Value) : Prop where
  /-- The stack stands for trees over what was shifted. -/
  trees : ∃ trees, Represents parser.compiled.rules parser.compiled.table
      parser.bindings start run.configuration trees ∧
    Tree.leavesOf trees.reverse = leaves
  /-- All tokens but the one at hand were shifted. -/
  spells : ∃ consumed before, tokens = consumed ++ run.token.toList ∧
    leaves = before ++ run.pendingMarker ∧ Leaf.Spells consumed before
  /-- A marker is shifted only in front of a token. -/
  unmarked : run.token = none → run.configuration.markerShifted = false

theorem accounts_start
    (parser : Parser Context Failure Value)
    (options : Options)
    (window : Window)
    (supply : Supply)
    (context : Context) :
    Accounts parser context [] []
      (Run.start options window supply context :
        Run Supply Context Value) where
  trees := ⟨[], .initial context, rfl⟩
  spells := ⟨[], [], rfl, rfl, .nil⟩
  unmarked _ := rfl

variable {parser : Parser Context Failure Value}
  {run next : Run Supply Context Value}

/-! ## Steps -/

theorem configuration_refill
    [Source Supply]
    {compiled : Compiled}
    (ongoing : run.refill compiled =
      (.ongoing next : Progress Supply Context Failure Value)) :
    next.configuration = run.configuration := by
  unfold refill at ongoing
  dsimp only at ongoing
  split at ongoing
  · obtain rfl := Progress.ongoing.inj ongoing
    split <;> rfl
  · simp [fail, finish] at ongoing

/-- Scanning leaves the stack as it is. -/
theorem configuration_scanToken
    [CharacterData]
    [Source Supply]
    {compiled : Compiled}
    (ongoing : run.scanToken compiled =
      (.ongoing next : Progress Supply Context Failure Value)) :
    next.configuration = run.configuration := by
  unfold scanToken at ongoing
  dsimp only at ongoing
  split at ongoing
  · have unchanged := configuration_refill ongoing
    exact unchanged
  · simp [fail, finish] at ongoing
  · obtain rfl := Progress.ongoing.inj ongoing
    split <;> rfl

/-- Scanning never ends a run well. -/
theorem result_scanToken
    [CharacterData]
    [Source Supply]
    {compiled : Compiled}
    {report : Report Context Failure Value}
    (finished : run.scanToken compiled =
      (.finished report : Progress Supply Context Failure Value))
    (value : Option Value) :
    report.result ≠ .ok value := by
  unfold scanToken refill at finished
  dsimp only at finished
  split at finished
  · split at finished
    · simp at finished
    · obtain rfl := Progress.finished.inj finished
      simp
  · obtain rfl := Progress.finished.inj finished
    simp
  · simp at finished

/-- What the decision about a token leads to. -/
def outcome (parser : Parser Context Failure Value)
    (run : Run Supply Context Value) (token : Token) :
    Outcome Context Failure Value :=
  run.configuration.step parser.compiled.rules parser.compiled.table
    parser.bindings token

/-- A step that goes on keeps the token or has shifted it. -/
theorem outcome_of_ongoing
    {token : Token}
    (ongoing : run.actOn parser token = .ongoing next) :
    run.outcome parser token = .kept next.configuration ∧
        next.token = run.token ∨
      run.outcome parser token = .consumed next.configuration ∧
        next.token = none := by
  unfold actOn at ongoing
  dsimp only at ongoing
  split at ongoing
  · next isKept =>
      obtain rfl := Progress.ongoing.inj ongoing
      exact .inl ⟨isKept, rfl⟩
  · next isConsumed =>
      obtain rfl := Progress.ongoing.inj ongoing
      exact .inr ⟨isConsumed, rfl⟩
  · simp [finish] at ongoing
  · simp [fail, finish] at ongoing

/-- A step that ends a run well accepts. -/
theorem decision_of_finished
    {token : Token}
    {report : Report Context Failure Value}
    {value : Option Value}
    (finished : run.actOn parser token = .finished report)
    (accepted : report.result = .ok value) :
    run.configuration.decision parser.compiled.table token = .accept ∧
      value = run.configuration.goalValue ∧
      report.context = run.configuration.context := by
  unfold actOn at finished
  dsimp only at finished
  split at finished
  · simp at finished
  · simp at finished
  · next isAccepted =>
      obtain ⟨decided, rfl, rfl⟩ :=
        Configuration.perform_eq_accepted isAccepted
      obtain rfl := Progress.finished.inj finished
      exact ⟨decided, (Except.ok.inj accepted).symm, rfl⟩
  · obtain rfl := Progress.finished.inj finished
    simp at accepted

variable {resolver : Option Table.Resolver} {start : Context}
  {tokens : List Token} {leaves : List Leaf} {token : Token}

/-- Shifting the token at hand shifts it behind its marker, if that was
shifted. -/
theorem spells_pendingMarker
    (atToken : run.token = some token) :
    Leaf.Spells [token] (run.pendingMarker ++ [.token token]) := by
  unfold pendingMarker
  rw [atToken]
  split
  · exact .marked .nil
  · exact .plain .nil

/-- A step about a token accounts for what it shifts. -/
theorem accounts_actOn
    (built : (parser.compiled.rules.construct resolver).result =
      .ok parser.compiled.table)
    (accounts : Accounts parser start tokens leaves run)
    (atToken : run.token = some token)
    (ongoing : run.actOn parser token = .ongoing next) :
    Accounts parser start tokens (leaves ++ run.shiftedNext parser) next := by
  obtain ⟨trees, represents, rfl⟩ := accounts.trees
  obtain ⟨consumed, before, isTokens, isLeaves, spells⟩ := accounts.spells
  simp only [shiftedNext, atToken]
  rcases outcome_of_ongoing ongoing with
    ⟨isKept, sameToken⟩ | ⟨isConsumed, noToken⟩
  · have someToken : next.token = some token := sameToken.trans atToken
    obtain ⟨target, marker, decided, isNext⟩ | ⟨production, decided, reduced⟩ :=
      Configuration.perform_eq_kept isKept
    · obtain ⟨unmarked, rfl, acts⟩ := Decision.make_eq_shiftMarker decided
      have pushed := represents.shiftMarker built acts
      rw [decided]
      refine ⟨⟨_, isNext ▸ pushed, ?_⟩,
        ⟨consumed, before, sameToken ▸ isTokens, ?_, spells⟩, ?_⟩
      · rw [List.reverse_cons, Tree.leavesOf_append]
        simp [Tree.leavesOf, Tree.leaves]
      · rw [isLeaves]
        simp [pendingMarker, unmarked, isNext, Configuration.shiftMarker,
          someToken]
      · simp [someToken]
    · obtain ⟨symbol, -, acts⟩ := Decision.make_eq_reduce decided
      obtain ⟨others, pushed, sameLeaves, sameMarker⟩ :=
        represents.reduce built acts reduced
      rw [decided, List.append_nil]
      refine ⟨⟨others, pushed, sameLeaves⟩,
        ⟨consumed, before, sameToken ▸ isTokens, ?_, spells⟩, ?_⟩
      · rw [isLeaves, pendingMarker, pendingMarker, sameMarker, sameToken]
      · simp [someToken]
  · obtain ⟨target, decided, shifted⟩ :=
      Configuration.perform_eq_consumed isConsumed
    obtain ⟨pushed, unmarked⟩ := represents.shift built
      (Decision.make_eq_shift decided) shifted
    rw [decided]
    refine ⟨⟨_, pushed, ?_⟩, ⟨consumed ++ [token],
      before ++ (run.pendingMarker ++ [.token token]), ?_, ?_,
      spells.append (spells_pendingMarker atToken)⟩, fun _ => unmarked⟩
    · rw [List.reverse_cons, Tree.leavesOf_append]
      simp [Tree.leavesOf, Tree.leaves]
    · simp [isTokens, atToken, noToken]
    · rw [isLeaves]
      simp [pendingMarker, unmarked]

/-- A step of a run accounts for what it scans and shifts. -/
theorem accounts_advance
    [CharacterData]
    [Source Supply]
    (built : (parser.compiled.rules.construct resolver).result =
      .ok parser.compiled.table)
    (accounts : Accounts parser start tokens leaves run)
    (ongoing : run.advance parser = .ongoing next) :
    Accounts parser start (tokens ++ run.scannedNext parser)
      (leaves ++ run.shiftedNext parser) next := by
  cases atToken : run.token with
  | none =>
      have scans : run.scanToken parser.compiled =
          (.ongoing next : Progress Supply Context Failure Value) := by
        simpa [advance, atToken] using ongoing
      have sameStack := configuration_scanToken scans
      have unmarked := accounts.unmarked atToken
      obtain ⟨consumed, before, isTokens, isLeaves, spells⟩ := accounts.spells
      have scannedIs : run.scannedNext parser = next.token.toList := by
        simp [scannedNext, atToken, ongoing]
      have shiftedIs : run.shiftedNext parser = [] := by
        simp [shiftedNext, atToken]
      rw [scannedIs, shiftedIs, List.append_nil]
      refine ⟨sameStack ▸ accounts.trees,
        ⟨consumed, before, ?_, ?_, spells⟩, fun _ => sameStack ▸ unmarked⟩
      · simp [isTokens, atToken]
      · rw [isLeaves]
        simp [pendingMarker, sameStack, unmarked]
  | some token =>
      have acts : run.actOn parser token = .ongoing next := by
        simpa [advance, atToken] using ongoing
      have scannedIs : run.scannedNext parser = [] := by
        simp [scannedNext, atToken]
      rw [scannedIs, List.append_nil]
      exact accounts_actOn built accounts atToken acts

/-! ## Runs -/

section Runs

variable [CharacterData] [Source Supply]

theorem scanned_succ
    (fuel : Nat)
    (ongoing : run.advance parser = .ongoing next) :
    run.scanned parser (fuel + 1) =
      run.scannedNext parser ++ next.scanned parser fuel := by
  simp [scanned, visited, ongoing]

theorem shifted_succ
    (fuel : Nat)
    (ongoing : run.advance parser = .ongoing next) :
    run.shifted parser (fuel + 1) =
      run.shiftedNext parser ++ next.shifted parser fuel := by
  simp [shifted, visited, ongoing]

/-- The step that accepts scans and shifts nothing. -/
theorem traces_of_accept
    (fuel : Nat)
    {report : Report Context Failure Value}
    (atToken : run.token = some token)
    (decided :
      run.configuration.decision parser.compiled.table token = .accept)
    (finished : run.advance parser = .finished report) :
    run.scanned parser (fuel + 1) = [] ∧ run.shifted parser (fuel + 1) = [] := by
  simp [scanned, shifted, visited, finished, scannedNext, shiftedNext, atToken,
    decided]

/-- A run that ends well has recognised a derivation tree over all that was
shifted, and all tokens but the last were shifted. -/
theorem exists_tree_of_accounts
    {fuel : Nat}
    {report : Report Context Failure Value}
    {value : Option Value}
    (built : (parser.compiled.rules.construct resolver).result =
      .ok parser.compiled.table)
    (accounts : Accounts parser start tokens leaves run)
    (ends : run.complete parser fuel = some report)
    (accepted : report.result = .ok value) :
    ∃ tree consumed last before markers,
      Tree.Derives parser.compiled.grammar parser.compiled.rules.goal tree ∧
      tree.leaves = leaves ++ run.shifted parser fuel ∧
      tokens ++ run.scanned parser fuel = consumed ++ [last] ∧
      last.isEnd = true ∧
      tree.leaves = before ++ markers ∧
      Leaf.Spells consumed before ∧
      (markers = [] ∨ markers = [.marker last.marker]) ∧
      tree.evaluate parser.bindings start = (.ok value, report.context) := by
  induction fuel generalizing run tokens leaves with
  | zero => simp [complete] at ends
  | succ fuel inductionHypothesis =>
      unfold complete at ends
      split at ends
      · next next ongoing =>
          have nextAccounts := accounts_advance built accounts ongoing
          rw [scanned_succ fuel ongoing, shifted_succ fuel ongoing,
            ← List.append_assoc, ← List.append_assoc]
          exact inductionHypothesis nextAccounts ends
      · next other finished =>
          obtain rfl := Option.some.inj ends
          cases atToken : run.token with
          | none =>
              have scans : run.scanToken parser.compiled =
                  (.finished other :
                    Progress Supply Context Failure Value) := by
                simpa [advance, atToken] using finished
              exact absurd accepted (result_scanToken scans value)
          | some token =>
              have acts : run.actOn parser token = .finished other := by
                simpa [advance, atToken] using finished
              obtain ⟨decided, rfl, sameContext⟩ :=
                decision_of_finished acts accepted
              obtain ⟨noneScanned, noneShifted⟩ :=
                traces_of_accept fuel atToken decided finished
              obtain ⟨trees, represents, isLeaves⟩ := accounts.trees
              obtain ⟨atEnd, tree, rfl, derives, evaluated⟩ :=
                represents.accept built (Decision.make_eq_accept decided)
              obtain ⟨consumed, before, isTokens, isBefore, spells⟩ :=
                accounts.spells
              have sameLeaves : tree.leaves = leaves := by
                simpa [Tree.leavesOf] using isLeaves
              refine ⟨tree, consumed, token, before, run.pendingMarker, derives,
                ?_, ?_, ?_, sameLeaves.trans isBefore, spells, ?_,
                sameContext ▸ evaluated⟩
              · rw [noneShifted, List.append_nil, sameLeaves]
              · rw [noneScanned, List.append_nil, isTokens, atToken]
                rfl
              · simp [Token.isEnd, atEnd]
              · unfold pendingMarker
                rw [atToken]
                split
                · exact .inr rfl
                · exact .inl rfl

end Runs
end Run

namespace Parser

/-- A parse that accepts has recognised a derivation tree of the goal. Its
leaves are what was shifted: the tokens that were scanned before the end of the
source, with at most one marker in front of each and of the end. The value and
the context are those of the tree. -/
theorem exists_derivation_of_accepted
    [CharacterData]
    [Source Supply]
    (parser : Parser Context Failure Value)
    (resolver : Option Table.Resolver)
    (built : (Table.construct parser.compiled.grammar
      parser.compiled.rules.goal resolver).result = .ok parser.compiled.table)
    (window : Window)
    (supply : Supply)
    (context : Context)
    (fuel : Nat)
    (report : Report Context Failure Value)
    (value : Option Value)
    (ends : (Run.start parser.options window supply context).complete parser
      fuel = some report)
    (accepted : report.result = .ok value) :
    ∃ tree tokens last before markers,
      Tree.Derives parser.compiled.grammar parser.compiled.rules.goal tree ∧
      tree.leaves =
        (Run.start parser.options window supply context).shifted parser fuel ∧
      (Run.start parser.options window supply context).scanned parser fuel =
        tokens ++ [last] ∧
      last.isEnd = true ∧
      tree.leaves = before ++ markers ∧
      Leaf.Spells tokens before ∧
      (markers = [] ∨ markers = [.marker last.marker]) ∧
      tree.evaluate parser.bindings context = (.ok value, report.context) := by
  have accounts := Run.accounts_start parser parser.options window supply
    context
  exact Run.exists_tree_of_accounts (Rules.construct_of_ok built) accounts
    ends accepted

/-- A parser of the letter `a` without a line break before it, which collects
what it reads and counts the values of the body. -/
def unbrokenLetterParser : Parser (List String) Unit String where
  compiled :=
    { rules := ⟨⟨false,
        #[⟨"$end", .endOfSource⟩, ⟨"$nl", .lineBreak⟩, ⟨"$nonl", .noLineBreak⟩,
          ⟨"a", .terminal (.text "a") ⟨false, false⟩⟩, ⟨"S", .nonTerminal⟩],
        #[⟨"S:1", 4, [2, 3], [], [], []⟩]⟩, 4⟩
      table := ⟨#[⟨[(⟨1, 0⟩, [0])], [(2, 1), (4, 2)], [(2, .shift 1)], none⟩,
        ⟨[(⟨0, 1⟩, [0])], [(3, 3)], [(3, .shift 3)], some 2⟩,
        ⟨[(⟨1, 1⟩, [0])], [], [(0, .accept)], some 4⟩,
        ⟨[(⟨0, 2⟩, [0])], [], [(0, .reduce 0)], some 3⟩], 4, 1⟩
      lexicon :=
        { automaton := ⟨#[
            ⟨[⟨⟨97, 97⟩, ⟨[], some 1⟩⟩], .nowhere, false, none, none⟩,
            ⟨[], .nowhere, true, some 0, none⟩], 1, 2⟩
          symbols := #[3]
          trivia := #[false] } }
  bindings :=
    ⟨[(3, fun text seen => (.ok text, text :: seen))],
      [(0, fun values seen => (.ok (toString values.size), seen))]⟩
  options := ⟨0, true⟩

theorem exists_derivation_of_accepted_unbroken :
    (Table.construct unbrokenLetterParser.compiled.grammar
        unbrokenLetterParser.compiled.rules.goal
        (some Table.Resolver.shifting)).result =
      .ok unbrokenLetterParser.compiled.table ∧
    ∃ report value,
      @parseText _ _ _ Unicode.standard unbrokenLetterParser 10 [] "a" =
        some report ∧
      report.result = .ok value ∧
      ∃ tree : Tree,
        Tree.Derives unbrokenLetterParser.compiled.grammar
          unbrokenLetterParser.compiled.rules.goal tree ∧
        tree.evaluate unbrokenLetterParser.bindings [] =
          (.ok value, report.context) := by
  let _ : CharacterData := Unicode.standard
  have built : (Table.construct unbrokenLetterParser.compiled.grammar
      unbrokenLetterParser.compiled.rules.goal
      (some Table.Resolver.shifting)).result =
        .ok unbrokenLetterParser.compiled.table := by
    cbv
  have ends : ((unbrokenLetterParser.parseText 10 [] "a").bind
      fun report => report.result.toOption).isSome = true := by
    decide +kernel
  obtain ⟨value, isValue⟩ := Option.isSome_iff_exists.mp ends
  obtain ⟨report, parsed, accepted⟩ := Option.bind_eq_some_iff.mp isValue
  have isOk : report.result = .ok value := by
    cases result : report.result with
    | error error => simp [result, Except.toOption] at accepted
    | ok other => simpa [result, Except.toOption] using accepted
  obtain ⟨tree, _, _, _, _, derives, -, -, -, -, -, -, evaluated⟩ :=
    exists_derivation_of_accepted unbrokenLetterParser
      (some Table.Resolver.shifting) built (Window.ofUnits (Text.encode "a"))
      (InMemory.mk []) [] 10 report value parsed isOk
  exact ⟨built, report, value, parsed, isOk, tree, derives, evaluated⟩

end Parser
end Parse
end ParserGenerator
