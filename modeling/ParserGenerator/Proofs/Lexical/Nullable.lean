import ParserGenerator.Lexical.Matcher
import ParserGenerator.Proofs.Lexical.Branching

/-!
# Matches of nothing

Before anything is read, a walk is at states that stand for open nodes. Where
no pattern is nullable none of them accepts a terminal, so that no match is
empty. A nullable pattern can be passed silently; without conditions the first
state of its automaton then accepts.
-/

namespace ParserGenerator
namespace Lexical

/-! ## Open keys -/

namespace Key

variable {nfa : Nfa} {labels : Nat → Label} {key : Key} {seeds : List Nat}
  {decided : List (Nat × Bool)}

/-- All nodes of the key are open. -/
def IsOpen (labels : Nat → Label) (key : Key) : Prop :=
  ∀ node ∈ key.nodes, (labels node).isOpen = true

/-- What is closed over open nodes is open. -/
theorem isOpen_closure
    (labelled : nfa.Labelled labels)
    (isOpen : ∀ seed ∈ seeds, (labels seed).isOpen = true) :
    IsOpen labels ⟨nfa.closure decided seeds, decided⟩ := by
  intro node member
  obtain ⟨seed, isSeed, silent⟩ := Nfa.exists_silent_of_mem_closure member
  exact silent.isOpen labelled (isOpen seed isSeed)

theorem IsOpen.terminal?_eq_none
    (isOpen : key.IsOpen labels)
    (labelled : nfa.Labelled labels) :
    nfa.terminal? key.nodes = none := by
  rw [Nfa.terminal?_eq_none_iff]
  intro node member index accepts
  have closed := labelled.accept accepts
  rw [isOpen node member] at closed
  cases closed

end Key

/-! ## Walks that read nothing -/

namespace Automaton

variable {automaton : Automaton} {nfa : Nfa} {isLazy : Nat → Bool}
  {numbering : Numbering} {labels : Nat → Label}

/-- One state leads to another one by branches only. -/
def BranchesTo (automaton : Automaton) : Nat → Nat → Prop :=
  Relation.ReflTransGen fun number next =>
    ∃ branch, (automaton.state number).branch = some branch ∧
      (branch.onTrue = next ∨ branch.onFalse = next)

/-- Before anything is read a walk is at states of open keys. -/
theorem isOpen_of_branchesTo
    {start number : Nat}
    {first : Key}
    (constructs : Constructs nfa isLazy numbering automaton.states)
    (labelled : nfa.Labelled labels)
    (isFirst : numbering.keys[start]? = some first)
    (isOpen : first.IsOpen labels)
    (branches : automaton.BranchesTo start number) :
    ∃ key, numbering.keys[number]? = some key ∧ key.IsOpen labels := by
  induction branches with
  | refl => exact ⟨first, isFirst, isOpen⟩
  | tail _ step inductionHypothesis =>
      obtain ⟨before, isBefore, beforeOpen⟩ := inductionHypothesis
      obtain ⟨branch, isBranch, isNext⟩ := step
      obtain ⟨key, node, condition, isKey, -, -, isTrue, isFalse⟩ :=
        exists_undecided constructs isBranch
      obtain rfl := Option.some.inj (isBefore.symm.trans isKey)
      rcases isNext with rfl | rfl
      · exact ⟨_, isTrue, Key.isOpen_closure labelled beforeOpen⟩
      · exact ⟨_, isFalse, Key.isOpen_closure labelled beforeOpen⟩

theorem terminal_eq_none_of_isOpen
    {number : Nat}
    {key : Key}
    (constructs : Constructs nfa isLazy numbering automaton.states)
    (labelled : nfa.Labelled labels)
    (isKey : numbering.keys[number]? = some key)
    (isOpen : key.IsOpen labels) :
    (automaton.state number).terminal = none := by
  rcases exists_makes constructs number with isDefault | ⟨other, isOther, makes⟩
  · rw [isDefault]
  obtain rfl := Option.some.inj (isKey.symm.trans isOther)
  have accepts := makes.isSome_terminal_iff
  have noTerminal := Nfa.terminal?_eq_none_iff.mp
    (isOpen.terminal?_eq_none labelled)
  rw [← Option.not_isSome_iff_eq_none, accepts]
  rintro ⟨-, node, member, index, isAccepted⟩
  exact noTerminal node member index isAccepted

variable [CharacterData] {atEnd first : Bool} {input : List CodeUnit}
  {number index : Nat} {outcome : Walk}

/-- A match of nothing is that of a state which branches lead to. -/
theorem Walks.exists_branchesTo
    (walks : Walks automaton atEnd input first number outcome)
    (isEmpty : outcome = .stopped (some (some index, 0))) :
    ∃ last, automaton.BranchesTo number last ∧
      (automaton.state last).terminal = some index := by
  have here {state : State}
      (isAccepted : Walk.stopped (accepted state) =
        .stopped (some (some index, 0))) : state.terminal = some index := by
    unfold accepted at isAccepted
    split at isAccepted
    · injection isAccepted with same
      injection same with same
      injection same
    · cases isAccepted
  induction walks with
  | undecided => cases isEmpty
  | holds isBranch _ _ _ inductionHypothesis =>
      obtain ⟨last, branches, accepts⟩ := inductionHypothesis isEmpty
      exact ⟨last, .head ⟨_, isBranch, .inl rfl⟩ branches, accepts⟩
  | fails isBranch _ _ _ inductionHypothesis =>
      obtain ⟨last, branches, accepts⟩ := inductionHypothesis isEmpty
      exact ⟨last, .head ⟨_, isBranch, .inr rfl⟩ branches, accepts⟩
  | @ends first number _ =>
      rw [read_at_end] at isEmpty
      split at isEmpty
      · cases isEmpty
      · exact ⟨number, .refl, here isEmpty⟩
  | stops => exact ⟨_, .refl, here isEmpty⟩
  | @moves unit rest first number target outcome _ _ _ _ _ =>
      cases outcome with
      | needMore => cases isEmpty
      | stopped last =>
          cases last with
          | none => exact ⟨number, .refl, here isEmpty⟩
          | some last => simp [Walk.afterUnit] at isEmpty

/-- Where no pattern is nullable, no match is empty. -/
theorem longestMatch_ne_found_zero
    (terminals : List Terminal)
    (anyCase : Bool)
    (input : List CodeUnit)
    (atEnd : Bool)
    (index : Nat)
    (closed : ∀ terminal ∈ terminals, terminal.pattern.isNullable = false) :
    (build terminals anyCase).longestMatch input atEnd ≠ .found index 0 := by
  intro found
  obtain ⟨numbering, constructs⟩ := exists_numbered terminals anyCase
  obtain ⟨labels, labelled, marked, -⟩ := @Nfa.exists_labelled _
    (terminals.map Terminal.pattern) anyCase true
    (List.forall_mem_map.mpr closed)
  have answer : (build terminals anyCase).walk atEnd input false 0 =
      .stopped (some (some index, 0)) := by
    unfold longestMatch at found
    split at found
    · cases found
    · next stopped =>
        cases found
        exact stopped
    · cases found
  have walks := (descends_of_constructs constructs labelled).walks_walk atEnd
    input false 0
  obtain ⟨last, branches, accepts⟩ := walks.exists_branchesTo answer
  have startOpen : (nfaOf terminals anyCase).freshKey [0] |>.IsOpen labels := by
    refine Key.isOpen_closure labelled (List.forall_mem_singleton.mpr ?_)
    rw [marked.label_eq]
  obtain ⟨key, isKey, isOpen⟩ := isOpen_of_branchesTo constructs labelled
    (Constructs.first constructs) startOpen branches
  rw [terminal_eq_none_of_isOpen constructs labelled isKey isOpen] at accepts
  cases accepts

end Automaton

/-! ## Nullable patterns -/

namespace Nfa

variable {nfa : Nfa} {labels : Nat → Label}

theorem Labelled.undecided?_eq_none
    (labelled : nfa.Labelled labels)
    (noConditions : nfa.conditions.size = 0)
    (key : Key) :
    nfa.undecided? key = none := by
  cases found : nfa.undecided? key with
  | none => rfl
  | some entry =>
      have known := labelled.known (Numbering.undecided?_eq_some found).2.2
      omega

/-- Without conditions a closure has all nodes that are come to silently. -/
theorem Labelled.mem_closure
    {decided : List (Nat × Bool)}
    {seeds : List Nat}
    {seed node : Nat}
    (labelled : nfa.Labelled labels)
    (noConditions : nfa.conditions.size = 0)
    (isSeed : seed ∈ seeds)
    (inside : seed < nfa.nodes.size)
    (silent : nfa.Silent seed node) :
    node ∈ nfa.closure decided seeds := by
  induction silent with
  | refl => exact Nfa.mem_closure.mpr (.seed isSeed inside)
  | tail _ step inductionHypothesis =>
      obtain ⟨edge, member, unread, rfl⟩ := step
      obtain ⟨targetInside, permitted⟩ := labelled.edge member
      refine Nfa.mem_closure.mpr (.step (Nfa.mem_closure.mp inductionHypothesis)
        (List.mem_filterMap.mpr ⟨edge, member, ?_⟩) targetInside)
      cases edge with
      | free target => rfl
      | units characters target => cases unread
      | test condition negated target =>
          have known := (permitted.test condition rfl).2
          omega

/-- A key with nothing to decide and a node that accepts a terminal makes a
state that reads and has a terminal. -/
theorem exists_accepted_of_makes
    {isLazy : Nat → Bool}
    {numbering : Numbering}
    {key : Key}
    {state : State}
    {node index : Nat}
    (makes : Numbering.Makes nfa isLazy numbering key state)
    (complete : nfa.undecided? key = none)
    (member : node ∈ key.nodes)
    (accepts : (nfa.node node).accept = some (.terminal index)) :
    state.branch = none ∧
      ∃ terminal, Automaton.accepted state = some (some terminal, 0) := by
  obtain ⟨rfl, -⟩ := makes.reads complete
  refine ⟨rfl, ?_⟩
  cases isTerminal : nfa.terminal? key.nodes with
  | none =>
      exact absurd accepts
        (terminal?_eq_none_iff.mp isTerminal node member index)
  | some terminal =>
      refine ⟨terminal, ?_⟩
      simp [Automaton.accepted, Numbering.readingState, isTerminal]

end Nfa

theorem Automaton.longestMatch_nil
    [CharacterData]
    {automaton : Automaton}
    {terminal : Nat}
    (reads : (automaton.state 0).branch = none)
    (accepts : accepted (automaton.state 0) = some (some terminal, 0)) :
    automaton.longestMatch [] true = .found terminal 0 := by
  have answer : automaton.walk true [] false 0 =
      .stopped (some (some terminal, 0)) := by
    rw [walk_nil_of_reads reads, read_at_end, accepts]
    rfl
  rw [longestMatch, answer]

namespace Matcher

variable [CharacterData]

/-- Without conditions a pattern that is nullable matches the empty text. -/
theorem matchUnits_nil_of_isNullable
    {pattern : Pattern}
    (anyCase : Bool)
    (noConditions : pattern.lookaheads = [])
    (isNullable : pattern.isNullable = true) :
    (ofPattern pattern anyCase).matchUnits [] = some 0 := by
  obtain ⟨numbering, constructs⟩ :=
    Automaton.exists_numbered [⟨pattern, false⟩] anyCase
  obtain ⟨labels, labelled, marked, counted⟩ :=
    @Nfa.exists_labelled _ [pattern] anyCase false fun _ _ => rfl
  have noneTested :
      (Nfa.ofPatterns anyCase [pattern]).conditions.size = 0 := by
    rw [counted]
    simp [Pattern.allLookaheads, noConditions]
  obtain ⟨node, silent, accepts⟩ :=
    Nfa.exists_silent_of_isNullable anyCase isNullable
  obtain ⟨state, isState, makes⟩ :=
    Constructs.exists_state constructs (Constructs.first constructs)
  have isReached : node ∈
      ((Nfa.ofPatterns anyCase [pattern]).freshKey [0]).nodes :=
    labelled.mem_closure noneTested List.mem_cons_self marked.inside silent
  obtain ⟨reads, terminal, isAccepted⟩ := Nfa.exists_accepted_of_makes makes
    (labelled.undecided?_eq_none noneTested _) isReached accepts
  rw [← Automaton.state_eq isState] at reads isAccepted
  rw [matchUnits, ofPattern, Automaton.longestMatch_nil reads isAccepted]

/-- A pattern that is not nullable does not match the empty text. -/
theorem matchUnits_nil_of_not_isNullable
    {pattern : Pattern}
    (anyCase : Bool)
    (notNullable : pattern.isNullable = false) :
    (ofPattern pattern anyCase).matchUnits [] = none := by
  rw [matchUnits, ofPattern]
  split
  · next index length found =>
      have isEmpty := Automaton.length_le_of_longestMatch found
      obtain rfl := Nat.le_zero.mp isEmpty
      exact absurd found (Automaton.longestMatch_ne_found_zero _ anyCase []
        true index (List.forall_mem_singleton.mpr notNullable))
  · rfl

/-- Where no pattern is nullable, no terminal matches nothing. Without
conditions a pattern matches the empty text just if it is nullable. -/
theorem isNullable_decides_empty :
    (∀ (terminals : List Terminal) (anyCase : Bool),
      (∀ terminal ∈ terminals, terminal.pattern.isNullable = false) →
        ∀ input atEnd index,
          (Automaton.build terminals anyCase).longestMatch input atEnd ≠
            .found index 0) ∧
      ∀ (pattern : Pattern) (anyCase : Bool), pattern.lookaheads = [] →
        (ofPattern pattern anyCase).matchUnits [] =
          if pattern.isNullable then some 0 else none := by
  refine ⟨fun terminals anyCase closed input atEnd index =>
    Automaton.longestMatch_ne_found_zero terminals anyCase input atEnd index
      closed, fun pattern anyCase noConditions => ?_⟩
  cases isNullable : pattern.isNullable with
  | true => exact matchUnits_nil_of_isNullable anyCase noConditions isNullable
  | false => exact matchUnits_nil_of_not_isNullable anyCase isNullable

omit [CharacterData] in
theorem isNullable_decides_empty_letters :
    @Automaton.longestMatch .ascii
        (@Automaton.build .ascii [⟨.text "a", true⟩] false) [98] true ≠
          .found 0 0 ∧
      @matchUnits .ascii
        (@ofPattern .ascii (.repeat (.text "a") .zeroOrMore) false) [] =
          some 0 := by
  have decides := @isNullable_decides_empty .ascii
  constructor
  · refine decides.1 [⟨.text "a", true⟩] false ?_ [98] true 0
    exact List.forall_mem_singleton.mpr (by decide)
  · exact decides.2 (.repeat (.text "a") .zeroOrMore) false rfl

end Matcher
end Lexical
end ParserGenerator
