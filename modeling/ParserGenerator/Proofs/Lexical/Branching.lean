import ParserGenerator.Proofs.Lexical.Branches
import ParserGenerator.Proofs.Lexical.Labels
import ParserGenerator.Proofs.Lexical.Shapes

/-!
# Walks come to an end

The level of a state falls whenever a condition is evaluated, and never rises
on the way to another state. Between states of one level every branch decides
one more node. Branches at one place therefore end, conditions do not evaluate
each other in a circle, and a walk without any bound on its branches ends with
the same answer as the one that is bounded.
-/

namespace ParserGenerator
namespace Lexical

/-! ## Levels -/

namespace Nfa

variable {nfa : Nfa} {labels : Nat → Label} {node next condition : Nat}

theorem Labelled.test
    (labelled : nfa.Labelled labels)
    (isTested : nfa.condition? node = some condition) :
    condition < (labels node).height ∧ condition < nfa.conditions.size := by
  obtain ⟨negated, target, member⟩ := exists_test_of_condition? isTested
  exact (labelled.edge member).2.test condition rfl

theorem Labelled.known (labelled : nfa.Labelled labels) : nfa.Known :=
  fun isTested => (labelled.test isTested).2

/-- A condition has no higher level than its number. -/
theorem Labelled.level_le
    (labelled : nfa.Labelled labels)
    (known : condition < nfa.conditions.size) :
    nfa.level (nfa.freshKey [Numbering.conditionEntry nfa condition]).nodes ≤
      condition := by
  have isEntry : nfa.conditions[condition]? =
      some (Numbering.conditionEntry nfa condition) := by
    rw [Numbering.conditionEntry, Array.getElem?_eq_getElem known]
    rfl
  refine @level_freshKey_le nfa (fun node => (labels node).height ≤ condition)
    _ condition (labelled.entry isEntry).2 ?_ ?_
  · rintro node _ low ⟨edge, member, rfl⟩
    exact Nat.le_trans (labelled.edge member).2.height low
  · intro node tested low isTested
    exact Nat.lt_of_lt_of_le (labelled.test isTested).1 low

theorem exists_adjacent_of_mem_readingEdges
    {isLazy : Nat → Bool}
    {nodes : List Nat}
    {edge : CharSet × Nat}
    (member : edge ∈ nfa.readingEdges isLazy nodes) :
    ∃ node ∈ nodes, nfa.Adjacent node edge.2 := by
  unfold readingEdges at member
  split at member
  · cases member
  · obtain ⟨node, isNode, isEdge⟩ := List.mem_flatMap.mp member
    refine ⟨node, isNode, ?_⟩
    dsimp only at isEdge
    split at isEdge
    · cases isEdge
    · obtain ⟨other, isOther, reads⟩ := List.mem_filterMap.mp isEdge
      refine ⟨other, isOther, ?_⟩
      cases other with
      | free target => cases reads
      | units characters target =>
          obtain rfl := Option.some.inj reads
          rfl
      | test tested negated target => cases reads

/-- What is reached by reading from some nodes has no higher level. -/
theorem level_behind_le
    {isLazy : Nat → Bool}
    {nodes seeds : List Nat}
    (known : nfa.Known)
    (behind : ∀ seed ∈ seeds, ∃ edge ∈ nfa.readingEdges isLazy nodes,
      edge.2 = seed) :
    nfa.level (nfa.freshKey seeds).nodes ≤ nfa.level nodes := by
  refine level_mono known fun other isOther => ?_
  obtain ⟨seed, isSeed, between⟩ := exists_seed_of_mem_closure isOther
  obtain ⟨edge, isEdge, rfl⟩ := behind seed isSeed
  obtain ⟨node, isNode, adjacent⟩ :=
    exists_adjacent_of_mem_readingEdges isEdge
  exact ⟨node, isNode, .head adjacent between⟩

end Nfa

/-! ## Branches -/

namespace Automaton

variable {automaton : Automaton} {number next condition : Nat}
  {branch : Branch}

/-- A state leads to another one, by reading a unit or by a branch. -/
def Leads (automaton : Automaton) (number next : Nat) : Prop :=
  (∃ dispatch ∈ (automaton.state number).dispatches, dispatch.LeadsTo next) ∨
    ∃ branch, (automaton.state number).branch = some branch ∧
      (branch.onTrue = next ∨ branch.onFalse = next)

/-- A condition is evaluated on the way from a state. -/
def Evaluates (automaton : Automaton) (start condition : Nat) : Prop :=
  ∃ number branch, Relation.ReflTransGen automaton.Leads start number ∧
    (automaton.state number).branch = some branch ∧
      branch.condition = condition

/-- Branches lead to states of lower depth, which is at most the number of
states. -/
structure Descends (automaton : Automaton) (depth : Nat → Nat) : Prop where
  /-- A condition is less deep than what branches on it. -/
  condition : ∀ {number branch}, (automaton.state number).branch = some branch →
    depth branch.condition < depth number
  /-- So is what follows if the condition holds. -/
  onTrue : ∀ {number branch}, (automaton.state number).branch = some branch →
    depth branch.onTrue < depth number
  /-- And what follows if it does not. -/
  onFalse : ∀ {number branch}, (automaton.state number).branch = some branch →
    depth branch.onFalse < depth number
  /-- No state is deeper than there are states. -/
  le_size : ∀ number, depth number ≤ automaton.states.size

/-- After finitely many branches there is a state that reads. -/
theorem Descends.exists_reads
    {depth : Nat → Nat}
    {path : Nat → Nat}
    (descends : automaton.Descends depth)
    (follows : ∀ step branch,
      (automaton.state (path step)).branch = some branch →
        path (step + 1) = branch.onTrue ∨ path (step + 1) = branch.onFalse) :
    ∃ step ≤ automaton.states.size,
      (automaton.state (path step)).branch = none := by
  by_contra branches
  push Not at branches
  have falls (step : Nat) (within : step ≤ automaton.states.size + 1) :
      depth (path step) + step ≤ automaton.states.size := by
    induction step with
    | zero => exact descends.le_size _
    | succ step inductionHypothesis =>
        have before := inductionHypothesis (by omega)
        obtain ⟨branch, isBranch⟩ :=
          Option.ne_none_iff_exists'.mp (branches step (by omega))
        have onTrue := descends.onTrue isBranch
        have onFalse := descends.onFalse isBranch
        rcases follows step branch isBranch with isNext | isNext <;>
        · rw [isNext]
          omega
  have last := falls (automaton.states.size + 1) (Nat.le_refl _)
  omega

/-! ## Constructed states -/

section Constructed

variable {nfa : Nfa} {isLazy : Nat → Bool} {numbering : Numbering}
  {labels : Nat → Label}

theorem exists_makes
    (constructs : Constructs nfa isLazy numbering automaton.states)
    (number : Nat) :
    automaton.state number = ⟨[], .nowhere, false, none, none⟩ ∨
      ∃ key, numbering.keys[number]? = some key ∧
        Numbering.Makes nfa isLazy numbering key (automaton.state number) := by
  cases found : automaton.states[number]? with
  | none =>
      left
      rw [state, found]
      rfl
  | some made =>
      right
      rw [state_eq found]
      exact constructs.exists_key found

/-- A state that branches stands for a key with a condition to decide. -/
theorem exists_undecided
    (constructs : Constructs nfa isLazy numbering automaton.states)
    (isBranch : (automaton.state number).branch = some branch) :
    ∃ key node condition, numbering.keys[number]? = some key ∧
      nfa.undecided? key = some (node, condition) ∧
      numbering.keys[branch.condition]? =
        some (nfa.freshKey [Numbering.conditionEntry nfa condition]) ∧
      numbering.keys[branch.onTrue]? = some (nfa.decidedKey key node true) ∧
      numbering.keys[branch.onFalse]? =
        some (nfa.decidedKey key node false) := by
  rcases exists_makes constructs number with isDefault | ⟨key, isKey, makes⟩
  · rw [isDefault] at isBranch
    cases isBranch
  cases found : nfa.undecided? key with
  | none =>
      rw [(makes.reads found).1] at isBranch
      cases isBranch
  | some entry =>
      obtain ⟨made, isState, keys⟩ := makes.branches found
      rw [isState] at isBranch
      obtain rfl := Option.some.inj isBranch
      exact ⟨key, entry.1, entry.2, isKey, found, keys⟩

/-- A state that reads stands for a key with nothing to decide. -/
theorem exists_complete
    {dispatch : Dispatch}
    (constructs : Constructs nfa isLazy numbering automaton.states)
    (member : dispatch ∈ (automaton.state number).dispatches)
    (isTarget : dispatch.LeadsTo next) :
    ∃ key, numbering.keys[number]? = some key ∧ nfa.undecided? key = none ∧
      Numbering.Makes nfa isLazy numbering key (automaton.state number) := by
  rcases exists_makes constructs number with isDefault | ⟨key, isKey, makes⟩
  · rw [isDefault] at member
    obtain rfl := List.mem_singleton.mp member
    exact absurd isTarget Dispatch.not_leadsTo_nowhere
  cases found : nfa.undecided? key with
  | none => exact ⟨key, isKey, found, makes⟩
  | some entry =>
      obtain ⟨branch, isState, -⟩ := makes.branches found
      rw [isState] at member
      obtain rfl := List.mem_singleton.mp member
      exact absurd isTarget Dispatch.not_leadsTo_nowhere

theorem descends_of_constructs
    (constructs : Constructs nfa isLazy numbering automaton.states)
    (labelled : nfa.Labelled labels) :
    automaton.Descends (depth nfa numbering.keys) := by
  refine ⟨?_, ?_, ?_, ?_⟩
  · intro number branch isBranch
    obtain ⟨key, node, condition, isKey, found, isCondition, -⟩ :=
      exists_undecided constructs isBranch
    have isKnown := labelled.known (Numbering.undecided?_eq_some found).2.2
    exact depth_lt isKey isCondition
      (Key.rank_condition_lt labelled.known (labelled.level_le isKnown) found)
  · intro number branch isBranch
    obtain ⟨key, node, condition, isKey, found, -, isTrue, -⟩ :=
      exists_undecided constructs isBranch
    have valid := constructs.sound.valid _ key isKey
    exact depth_lt isKey isTrue
      (valid.rank_decidedKey_lt labelled.known found true)
  · intro number branch isBranch
    obtain ⟨key, node, condition, isKey, found, -, -, isFalse⟩ :=
      exists_undecided constructs isBranch
    have valid := constructs.sound.valid _ key isKey
    exact depth_lt isKey isFalse
      (valid.rank_decidedKey_lt labelled.known found false)
  · intro number
    rw [constructs.size_eq]
    exact depth_le nfa numbering.keys number

/-- The level of the nodes that a state stands for. -/
noncomputable def levelAt (nfa : Nfa) (numbering : Numbering)
    (number : Nat) : Nat :=
  (numbering.keys[number]?.map fun key => nfa.level key.nodes).getD 0

theorem levelAt_eq
    {key : Key}
    (isKey : numbering.keys[number]? = some key) :
    levelAt nfa numbering number = nfa.level key.nodes := by
  rw [levelAt, isKey]
  rfl

/-- The level never rises on the way to another state. -/
theorem levelAt_le_of_leads
    (constructs : Constructs nfa isLazy numbering automaton.states)
    (known : nfa.Known)
    (leads : automaton.Leads number next) :
    levelAt nfa numbering next ≤ levelAt nfa numbering number := by
  rcases leads with ⟨dispatch, member, isTarget⟩ | ⟨branch, isBranch, isNext⟩
  · obtain ⟨key, isKey, complete, makes⟩ :=
      exists_complete constructs member isTarget
    obtain ⟨seeds, isNext, behind⟩ :=
      makes.exists_seeds complete member isTarget
    rw [levelAt_eq isKey, levelAt_eq isNext]
    exact Nfa.level_behind_le known behind
  · obtain ⟨key, node, condition, isKey, -, -, isTrue, isFalse⟩ :=
      exists_undecided constructs isBranch
    rw [levelAt_eq isKey]
    rcases isNext with rfl | rfl
    · rw [levelAt_eq isTrue]
      exact Key.level_decidedKey_le known node true
    · rw [levelAt_eq isFalse]
      exact Key.level_decidedKey_le known node false

/-- The level falls when a condition is evaluated. -/
theorem levelAt_lt_of_evaluates
    (constructs : Constructs nfa isLazy numbering automaton.states)
    (labelled : nfa.Labelled labels)
    (evaluates : automaton.Evaluates number condition) :
    levelAt nfa numbering condition < levelAt nfa numbering number := by
  obtain ⟨last, branch, reached, isBranch, rfl⟩ := evaluates
  have onWay : levelAt nfa numbering last ≤ levelAt nfa numbering number := by
    clear isBranch
    induction reached with
    | refl => exact Nat.le_refl _
    | tail _ leads inductionHypothesis =>
        exact Nat.le_trans
          (levelAt_le_of_leads constructs labelled.known leads)
          inductionHypothesis
  obtain ⟨key, node, tested, isKey, found, isCondition, -⟩ :=
    exists_undecided constructs isBranch
  have isKnown := labelled.known (Numbering.undecided?_eq_some found).2.2
  rw [levelAt_eq isKey] at onWay
  rw [levelAt_eq isCondition]
  exact Nat.lt_of_lt_of_le
    (Key.level_condition_lt labelled.known (labelled.level_le isKnown) found)
    onWay

/-- Conditions do not evaluate each other in a circle. -/
theorem not_transGen_evaluates
    (constructs : Constructs nfa isLazy numbering automaton.states)
    (labelled : nfa.Labelled labels)
    (condition : Nat) :
    ¬ Relation.TransGen automaton.Evaluates condition condition := by
  have falls {first last : Nat}
      (circle : Relation.TransGen automaton.Evaluates first last) :
      levelAt nfa numbering last < levelAt nfa numbering first := by
    induction circle with
    | single evaluates =>
        exact levelAt_lt_of_evaluates constructs labelled evaluates
    | tail _ evaluates inductionHypothesis =>
        exact Nat.lt_trans
          (levelAt_lt_of_evaluates constructs labelled evaluates)
          inductionHypothesis
  exact fun circle => Nat.lt_irrefl _ (falls circle)

end Constructed

/-! ## Walks without a bound -/

section Walks

variable [CharacterData] {atEnd first : Bool} {input : List CodeUnit}
  {outcome : Walk} {depth : Nat → Nat}

/-- What a state that reads accepts at its place. -/
def accepted (state : State) : Option (Option Nat × Nat) :=
  if state.isFinal then some (state.terminal, 0) else none

/-- A walk ends with an answer, where nothing bounds the branches at one place:
a condition is walked from first, up to where it accepts. -/
inductive Walks (automaton : Automaton) (atEnd : Bool) :
    List CodeUnit → Bool → Nat → Walk → Prop
  /-- The window ends while a condition is being decided. -/
  | undecided
      {input : List CodeUnit} {first : Bool} {number : Nat} {branch : Branch}
      (isBranch : (automaton.state number).branch = some branch)
      (condition : Walks automaton atEnd input true branch.condition
        .needMore) :
      Walks automaton atEnd input first number .needMore
  /-- The condition holds. -/
  | holds
      {input : List CodeUnit} {first : Bool} {number : Nat} {branch : Branch}
      {last : Option Nat × Nat} {outcome : Walk}
      (isBranch : (automaton.state number).branch = some branch)
      (condition : Walks automaton atEnd input true branch.condition
        (.stopped (some last)))
      (rest : Walks automaton atEnd input first branch.onTrue outcome) :
      Walks automaton atEnd input first number outcome
  /-- The condition does not hold. -/
  | fails
      {input : List CodeUnit} {first : Bool} {number : Nat} {branch : Branch}
      {outcome : Walk}
      (isBranch : (automaton.state number).branch = some branch)
      (condition : Walks automaton atEnd input true branch.condition
        (.stopped none))
      (rest : Walks automaton atEnd input first branch.onFalse outcome) :
      Walks automaton atEnd input first number outcome
  /-- Nothing is left to read. -/
  | ends
      {first : Bool} {number : Nat}
      (reads : (automaton.state number).branch = none) :
      Walks automaton atEnd [] first number
        (read (automaton.state number) atEnd first none)
  /-- The walk stops before the next unit. -/
  | stops
      {unit : CodeUnit} {rest : List CodeUnit} {first : Bool} {number : Nat}
      (reads : (automaton.state number).branch = none)
      (stuck : (first && (automaton.state number).isFinal) = true ∨
        (automaton.state number).next unit = none) :
      Walks automaton atEnd (unit :: rest) first number
        (.stopped (accepted (automaton.state number)))
  /-- The walk goes on over the next unit. -/
  | moves
      {unit : CodeUnit} {rest : List CodeUnit} {first : Bool}
      {number target : Nat} {outcome : Walk}
      (reads : (automaton.state number).branch = none)
      (goesOn : (first && (automaton.state number).isFinal) = false)
      (isNext : (automaton.state number).next unit = some target)
      (onward : Walks automaton atEnd rest first target outcome) :
      Walks automaton atEnd (unit :: rest) first number
        (outcome.afterUnit (accepted (automaton.state number)))

/-- The answer of a walk depends on its fuel no more once the fuel covers the
depth. -/
theorem Descends.walkHere_eq
    {fuel more : Nat}
    {ahead : Ahead}
    (descends : automaton.Descends depth)
    (enough : depth number < fuel)
    (also : depth number < more) :
    automaton.walkHere atEnd ahead fuel first number =
      automaton.walkHere atEnd ahead more first number := by
  induction fuel generalizing more first number with
  | zero => omega
  | succ fuel inductionHypothesis =>
      obtain ⟨more, rfl⟩ : ∃ less, more = less + 1 := ⟨more - 1, by omega⟩
      rw [walkHere, walkHere]
      cases isBranch : (automaton.state number).branch with
      | none => rfl
      | some branch =>
          have condition := descends.condition isBranch
          have onTrue := descends.onTrue isBranch
          have onFalse := descends.onFalse isBranch
          simp only
          rw [@inductionHypothesis branch.condition true more (by omega)
              (by omega),
            @inductionHypothesis branch.onTrue first more (by omega) (by omega),
            @inductionHypothesis branch.onFalse first more (by omega)
              (by omega)]

theorem read_of_stops
    {state : State}
    {ahead : Ahead}
    (stopsHere : (first && state.isFinal) = true) :
    read state atEnd first ahead = .stopped (accepted state) := by
  unfold read
  rw [stopsHere]
  rfl

theorem read_of_goesOn
    {state : State}
    {unit : CodeUnit}
    {walk : Bool → Nat → Walk}
    (goesOn : (first && state.isFinal) = false) :
    read state atEnd first (some (unit, walk)) =
      match state.next unit with
      | some target => (walk first target).afterUnit (accepted state)
      | none => .stopped (accepted state) := by
  unfold read
  rw [goesOn]
  rfl

theorem read_at_end (state : State) (atEnd first : Bool) :
    read state atEnd first none =
      if !(first && state.isFinal) && !atEnd && !state.isDeadEnd then
        .needMore
      else
        .stopped (accepted state) := by
  cases stopsHere : first && state.isFinal with
  | true => exact read_of_stops stopsHere
  | false =>
      unfold read
      rw [stopsHere]
      rfl

theorem walk_nil_of_reads (reads : (automaton.state number).branch = none) :
    automaton.walk atEnd [] first number =
      read (automaton.state number) atEnd first none := by
  rw [walk, walkHere]
  simp only [reads]

theorem walk_cons_of_reads
    {unit : CodeUnit}
    {rest : List CodeUnit}
    (reads : (automaton.state number).branch = none) :
    automaton.walk atEnd (unit :: rest) first number =
      read (automaton.state number) atEnd first
        (some (unit, automaton.walk atEnd rest)) := by
  rw [walk, walkHere]
  simp only [reads]

/-- A walk over some input is one at its first place. -/
theorem exists_ahead
    (automaton : Automaton)
    (atEnd : Bool)
    (input : List CodeUnit) :
    ∃ ahead, automaton.walk atEnd input =
      automaton.walkHere atEnd ahead (automaton.states.size + 1) := by
  cases input with
  | nil => exact ⟨none, rfl⟩
  | cons unit rest => exact ⟨some (unit, automaton.walk atEnd rest), rfl⟩

theorem Descends.walk_of_branch
    (descends : automaton.Descends depth)
    (isBranch : (automaton.state number).branch = some branch) :
    automaton.walk atEnd input first number =
      match automaton.walk atEnd input true branch.condition with
      | .needMore => .needMore
      | .stopped (some _) => automaton.walk atEnd input first branch.onTrue
      | .stopped none => automaton.walk atEnd input first branch.onFalse := by
  have covered (other : Nat) : depth other < automaton.states.size + 1 :=
    Nat.lt_succ_of_le (descends.le_size other)
  have lower {other : Nat} (less : depth other < depth number) :
      depth other < automaton.states.size :=
    Nat.lt_of_lt_of_le less (descends.le_size number)
  obtain ⟨ahead, isWalk⟩ := automaton.exists_ahead atEnd input
  rw [isWalk, walkHere]
  simp only [isBranch]
  rewrite [
    descends.walkHere_eq (lower (descends.condition isBranch)) (covered _),
    descends.walkHere_eq (lower (descends.onTrue isBranch)) (covered _),
    descends.walkHere_eq (lower (descends.onFalse isBranch)) (covered _)]
  rfl

/-- If the walks end from the states that read at a place, they end from those
that branch there. -/
theorem Descends.walks_of_reading
    (descends : automaton.Descends depth)
    (reading : ∀ first number, (automaton.state number).branch = none →
      Walks automaton atEnd input first number
        (automaton.walk atEnd input first number))
    (first : Bool)
    (number : Nat) :
    Walks automaton atEnd input first number
      (automaton.walk atEnd input first number) := by
  induction isDepth : depth number using Nat.strong_induction_on
    generalizing first number with
  | _ _ inductionHypothesis =>
      subst isDepth
      cases isBranch : (automaton.state number).branch with
      | none => exact reading first number isBranch
      | some branch =>
          have condition := inductionHypothesis _
            (descends.condition isBranch) true branch.condition rfl
          rw [descends.walk_of_branch isBranch]
          cases answer : automaton.walk atEnd input true branch.condition with
          | needMore =>
              rw [answer] at condition
              exact .undecided isBranch condition
          | stopped last =>
              rw [answer] at condition
              cases last with
              | none =>
                  exact .fails isBranch condition (inductionHypothesis _
                    (descends.onFalse isBranch) first branch.onFalse rfl)
              | some last =>
                  exact .holds isBranch condition (inductionHypothesis _
                    (descends.onTrue isBranch) first branch.onTrue rfl)

/-- Every walk ends, with the answer of the bounded one. -/
theorem Descends.walks_walk
    (descends : automaton.Descends depth)
    (atEnd : Bool)
    (input : List CodeUnit)
    (first : Bool)
    (number : Nat) :
    Walks automaton atEnd input first number
      (automaton.walk atEnd input first number) := by
  induction input generalizing first number with
  | nil =>
      refine descends.walks_of_reading (fun first number reads => ?_) _ _
      rw [walk_nil_of_reads reads]
      exact .ends reads
  | cons unit rest inductionHypothesis =>
      refine descends.walks_of_reading (fun first number reads => ?_) _ _
      rw [walk_cons_of_reads reads]
      cases stopsHere : first && (automaton.state number).isFinal with
      | true =>
          rw [read_of_stops stopsHere]
          exact .stops reads (.inl stopsHere)
      | false =>
          rw [read_of_goesOn stopsHere]
          cases isNext : (automaton.state number).next unit with
          | none => exact .stops reads (.inr isNext)
          | some target =>
              exact .moves reads stopsHere isNext
                (inductionHypothesis first target)

/-- A walk ends with one answer only. -/
theorem Walks.eq_walk
    (walks : Walks automaton atEnd input first number outcome)
    (descends : automaton.Descends depth) :
    outcome = automaton.walk atEnd input first number := by
  induction walks with
  | undecided isBranch _ condition =>
      rw [descends.walk_of_branch isBranch, ← condition]
  | holds isBranch _ _ condition rest =>
      rw [descends.walk_of_branch isBranch, ← condition]
      exact rest
  | fails isBranch _ _ condition rest =>
      rw [descends.walk_of_branch isBranch, ← condition]
      exact rest
  | ends reads => rw [walk_nil_of_reads reads]
  | @stops unit rest first number reads stuck =>
      rw [walk_cons_of_reads reads]
      cases stopsHere : first && (automaton.state number).isFinal with
      | true => rw [read_of_stops stopsHere]
      | false =>
          rw [stopsHere] at stuck
          rw [read_of_goesOn stopsHere, stuck.resolve_left Bool.false_ne_true]
  | @moves unit rest first number target outcome reads goesOn isNext _ onward =>
      rw [walk_cons_of_reads reads, read_of_goesOn goesOn, isNext, onward]

end Walks

/-- The construction of an automaton ends, with complete closures. Its branches
end at states that read, its conditions do not evaluate each other in a circle,
and every walk ends, with the answer that is computed. -/
theorem walks_terminate
    [CharacterData]
    (terminals : List Terminal)
    (anyCase : Bool) :
    (∃ numbering, Numbered terminals anyCase numbering) ∧
      (∀ decided seeds node,
        node ∈ (nfaOf terminals anyCase).closure decided seeds ↔
          Reachable (nfaOf terminals anyCase).nodes.size
            ((nfaOf terminals anyCase).freeTargets decided) seeds node) ∧
      (∀ path : Nat → Nat,
        (∀ step branch,
          ((build terminals anyCase).state (path step)).branch = some branch →
            path (step + 1) = branch.onTrue ∨
              path (step + 1) = branch.onFalse) →
          ∃ step ≤ (build terminals anyCase).states.size,
            ((build terminals anyCase).state (path step)).branch = none) ∧
      (∀ condition, ¬ Relation.TransGen (build terminals anyCase).Evaluates
        condition condition) ∧
      ∀ atEnd input first number outcome,
        Walks (build terminals anyCase) atEnd input first number outcome ↔
          outcome = (build terminals anyCase).walk atEnd input first number := by
  obtain ⟨numbering, constructs⟩ := exists_numbered terminals anyCase
  obtain ⟨labels, labelled, -⟩ := @Nfa.exists_labelled _
    (terminals.map Terminal.pattern) anyCase false fun _ _ => rfl
  have descends := descends_of_constructs constructs labelled
  refine ⟨⟨numbering, constructs⟩, fun _ _ _ => Nfa.mem_closure,
    fun path follows => descends.exists_reads follows,
    not_transGen_evaluates constructs labelled,
    fun atEnd input first number outcome => ⟨fun walks => ?_, ?_⟩⟩
  · exact walks.eq_walk descends
  · rintro rfl
    exact descends.walks_walk atEnd input first number

/-- With a condition ahead: the first state branches, and the walk over the
letter ends. -/
theorem walks_terminate_condition :
    ∃ automaton, automaton = @build .ascii
        [⟨.concat [.lookahead (.text "a") false, .text "a"], false⟩] false ∧
      (automaton.state 0).branch = some ⟨1, 2, 3⟩ ∧
      (∃ step ≤ automaton.states.size,
        (automaton.state (if step = 0 then 0 else 2)).branch = none) ∧
      @Walks .ascii automaton true [97] false 0
        (.stopped (some (some 0, 1))) := by
  have built : @build .ascii
      [⟨.concat [.lookahead (.text "a") false, .text "a"], false⟩] false =
        ⟨#[⟨[], .nowhere, false, none, some ⟨1, 2, 3⟩⟩,
          ⟨[⟨⟨97, 97⟩, ⟨[], some 4⟩⟩], .nowhere, false, none, none⟩,
          ⟨[⟨⟨97, 97⟩, ⟨[], some 5⟩⟩], .nowhere, false, none, none⟩,
          ⟨[], .nowhere, false, none, none⟩,
          ⟨[], .nowhere, true, none, none⟩,
          ⟨[], .nowhere, true, some 0, none⟩], 1, 10⟩ := by
    cbv
  obtain ⟨-, -, reads, -, walks⟩ := @walks_terminate .ascii
    [⟨.concat [.lookahead (.text "a") false, .text "a"], false⟩] false
  refine ⟨_, rfl, ?_, ?_, ?_⟩
  · rw [built]
    rfl
  · refine reads (fun step => if step = 0 then 0 else 2) fun step branch => ?_
    rw [built]
    cases step with
    | zero =>
        rintro ⟨⟩
        exact .inl rfl
    | succ step => rintro ⟨⟩
  · refine (walks true [97] false 0 _).mpr ?_
    rw [built]
    rfl

end Automaton
end Lexical
end ParserGenerator
