import Mathlib.Data.List.Forall2
import ParserGenerator.Parse.Bindings
import ParserGenerator.Token

/-!
# Derivation trees

The leaves of a tree are tokens and markers, its inner nodes are productions.
Evaluation goes through a tree from left to right and handles a node after its
children.
-/

namespace ParserGenerator
namespace Parse

/-- What can be shifted. -/
inductive Leaf
  | token (token : Token)
  | marker (symbol : SymbolId)
  deriving DecidableEq

namespace Leaf

/-- The symbol of a leaf. -/
def symbol : Leaf → SymbolId
  | .token shifted => shifted.symbol
  | .marker shifted => shifted

/-- Tokens with at most one marker directly in front of each, which tells
whether a line break came before the token. -/
inductive Spells : List Token → List Leaf → Prop
  | nil : Spells [] []
  | plain
      {token : Token}
      {tokens : List Token}
      {leaves : List Leaf}
      (rest : Spells tokens leaves) :
      Spells (token :: tokens) (.token token :: leaves)
  | marked
      {token : Token}
      {tokens : List Token}
      {leaves : List Leaf}
      (rest : Spells tokens leaves) :
      Spells (token :: tokens)
        (.marker token.marker :: .token token :: leaves)

theorem Spells.append
    {first second : List Token}
    {firstLeaves secondLeaves : List Leaf}
    (spells : Spells first firstLeaves)
    (others : Spells second secondLeaves) :
    Spells (first ++ second) (firstLeaves ++ secondLeaves) := by
  induction spells with
  | nil => exact others
  | plain _ inductionHypothesis => exact .plain inductionHypothesis
  | marked _ inductionHypothesis => exact .marked inductionHypothesis

end Leaf

/-- A tree of productions over leaves. -/
inductive Tree
  | leaf (leaf : Leaf)
  | node (production : ProductionId) (children : List Tree)

namespace Tree

/-- A tree derives a symbol: a leaf is not a non-terminal, and the children of
a node derive the body of its production. -/
inductive Derives (grammar : Grammar) : SymbolId → Tree → Prop
  | leaf
      {leaf : Leaf}
      (terminal : grammar.isNonTerminal leaf.symbol = false) :
      Derives grammar leaf.symbol (.leaf leaf)
  | node
      {production : ProductionId}
      {rule : Production}
      {children : List Tree}
      (found : grammar.productions[production]? = some rule)
      (derives : List.Forall₂ (Derives grammar) rule.body children) :
      Derives grammar rule.head (.node production children)

mutual

/-- The leaves of a tree from left to right. -/
def leaves : Tree → List Leaf
  | .leaf shifted => [shifted]
  | .node _ children => leavesOf children

/-- The leaves of some trees from left to right. -/
def leavesOf : List Tree → List Leaf
  | [] => []
  | tree :: rest => tree.leaves ++ leavesOf rest

end

theorem leavesOf_append (left right : List Tree) :
    leavesOf (left ++ right) = leavesOf left ++ leavesOf right := by
  induction left with
  | nil => rfl
  | cons tree rest inductionHypothesis =>
      simp [leavesOf, inductionHypothesis]

section Evaluation

variable {Context Failure Value : Type}
  (bindings : Bindings Context Failure Value)

mutual

/-- The value of a tree and the context after it. A token has the value that
its handler gives and none without a handler; a marker has no value; a node has
the value that the handler of its production gives, and without a handler the
first value among its children. -/
def evaluate : Tree → Context → Except Failure (Option Value) × Context
  | .leaf (.token token), context =>
      match bindings.tokens.lookup token.symbol with
      | none => (.ok none, context)
      | some handler =>
          let (result, after) := handler token.text context
          (result.map some, after)
  | .leaf (.marker _), context => (.ok none, context)
  | .node production children, context =>
      match evaluateAll children context with
      | (.error failure, after) => (.error failure, after)
      | (.ok values, after) =>
          match bindings.reductions.lookup production with
          | none => (.ok (values.findSome? id), after)
          | some handler =>
              let (result, last) := handler ⟨values⟩ after
              (result.map some, last)

/-- The values of some trees and the context after them. -/
def evaluateAll :
    List Tree → Context → Except Failure (List (Option Value)) × Context
  | [], context => (.ok [], context)
  | tree :: rest, context =>
      match tree.evaluate context with
      | (.error failure, after) => (.error failure, after)
      | (.ok value, after) =>
          match evaluateAll rest after with
          | (.error failure, last) => (.error failure, last)
          | (.ok values, last) => (.ok (value :: values), last)

end

variable {bindings}

theorem evaluate_token (token : Token) (context : Context) :
    evaluate bindings (.leaf (.token token)) context =
      bindings.token token.symbol token.text context := by
  unfold evaluate
  rfl

theorem evaluate_node
    {production : ProductionId}
    {children : List Tree}
    {values : List (Option Value)}
    {context after : Context}
    (evaluated : evaluateAll bindings children context = (.ok values, after)) :
    evaluate bindings (.node production children) context =
      bindings.reduce production ⟨values⟩ after := by
  unfold evaluate
  rw [evaluated]
  unfold Bindings.reduce
  rfl

/-- One tree more. -/
theorem evaluateAll_cons_eq_ok
    {tree : Tree}
    {rest : List Tree}
    {values : List (Option Value)}
    {context last : Context} :
    evaluateAll bindings (tree :: rest) context = (.ok values, last) ↔
      ∃ value others after, evaluate bindings tree context = (.ok value, after) ∧
        evaluateAll bindings rest after = (.ok others, last) ∧
        values = value :: others := by
  rw [evaluateAll]
  constructor
  · intro evaluated
    split at evaluated
    · simp at evaluated
    · next value after isFirst =>
        split at evaluated
        · simp at evaluated
        · next others final isRest =>
            obtain ⟨same, rfl⟩ := Prod.mk.inj evaluated
            obtain rfl := Except.ok.inj same
            exact ⟨value, others, after, isFirst, isRest, rfl⟩
  · rintro ⟨value, others, after, isFirst, isRest, rfl⟩
    rw [isFirst]
    dsimp only
    rw [isRest]

/-- Trees are evaluated one after the other. -/
theorem evaluateAll_append_eq_ok
    {left right : List Tree}
    {values : List (Option Value)}
    {context last : Context} :
    evaluateAll bindings (left ++ right) context = (.ok values, last) ↔
      ∃ first second middle,
        evaluateAll bindings left context = (.ok first, middle) ∧
        evaluateAll bindings right middle = (.ok second, last) ∧
        values = first ++ second := by
  induction left generalizing context values with
  | nil => simp [evaluateAll]
  | cons tree rest inductionHypothesis =>
      rw [List.cons_append, evaluateAll_cons_eq_ok]
      constructor
      · rintro ⟨value, others, after, isFirst, isRest, rfl⟩
        obtain ⟨first, second, middle, isLeft, isRight, rfl⟩ :=
          inductionHypothesis.mp isRest
        exact ⟨value :: first, second, middle, evaluateAll_cons_eq_ok.mpr
          ⟨value, first, after, isFirst, isLeft, rfl⟩, isRight, rfl⟩
      · rintro ⟨first, second, middle, isLeft, isRight, rfl⟩
        obtain ⟨value, others, after, isFirst, isRest, rfl⟩ :=
          evaluateAll_cons_eq_ok.mp isLeft
        exact ⟨value, others ++ second, after, isFirst,
          inductionHypothesis.mpr
            ⟨others, second, middle, isRest, isRight, rfl⟩, rfl⟩

theorem length_of_evaluateAll
    {trees : List Tree}
    {values : List (Option Value)}
    {context last : Context}
    (evaluated : evaluateAll bindings trees context = (.ok values, last)) :
    values.length = trees.length := by
  induction trees generalizing context values with
  | nil =>
      simp only [evaluateAll, Prod.mk.injEq, Except.ok.injEq] at evaluated
      simp [← evaluated.1]
  | cons tree rest inductionHypothesis =>
      obtain ⟨value, others, after, -, isRest, rfl⟩ :=
        evaluateAll_cons_eq_ok.mp evaluated
      simp [inductionHypothesis isRest]

end Evaluation
end Tree
end Parse
end ParserGenerator
