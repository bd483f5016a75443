import Mathlib.Computability.EpsilonNFA
import ParserGenerator.Proofs.Lexical.Munch
import ParserGenerator.Proofs.Lexical.Nullable

/-!
# Transitions as plain steps

A state stores its transitions by range and by category, but what it makes of
a unit is the plain step of the subset construction: the unit goes from all
nodes that read on over all edges whose set holds it, and then on silently.
Where nothing is tested, the states on the way of some units are therefore
those of the sets that the plain steps lead to.
-/

namespace ParserGenerator
namespace Lexical

variable [CharacterData] {nfa : Nfa} {isLazy : Nat → Bool} {unit : CodeUnit}

namespace Nfa

/-- The nodes and edges of an automaton, without what it accepts. An edge that
reads leads on with each unit of its set, and one that tests a condition leads
nowhere. -/
def plain (nfa : Nfa) : εNFA CodeUnit Nat where
  step
    | node, none => {target | .free target ∈ (nfa.node node).edges}
    | node, some unit => {target | ∃ characters,
        .units characters target ∈ (nfa.node node).edges ∧
          characters.contains unit.toNat = true}
  start := {0}
  accept := ∅

/-- The nodes among some nodes that read on: none of all the nodes meets a
condition, and none accepts the terminal of the node if that is lazy. -/
def readers (nfa : Nfa) (isLazy : Nat → Bool) (nodes : Set Nat) : Set Nat :=
  {node ∈ nodes | ∀ other ∈ nodes,
    (nfa.node other).accept ≠ some .condition ∧
      ∀ index, (nfa.node other).accept = some (.terminal index) →
        isLazy index = true → (nfa.node node).owner ≠ some index}

/-- The nodes that a unit leads to directly from some nodes. -/
def readTargets (nfa : Nfa) (isLazy : Nat → Bool) (nodes : Set Nat)
    (unit : CodeUnit) : Set Nat :=
  ⋃ node ∈ nfa.readers isLazy nodes, nfa.plain.step node (some unit)

/-- The nodes that a unit leads to from some nodes. -/
def subsetStep (nfa : Nfa) (isLazy : Nat → Bool) (nodes : Set Nat)
    (unit : CodeUnit) : Set Nat :=
  nfa.plain.εClosure (nfa.readTargets isLazy nodes unit)

theorem mem_readTargets {nodes : Set Nat} {target : Nat} :
    target ∈ nfa.readTargets isLazy nodes unit ↔
      ∃ node ∈ nfa.readers isLazy nodes, ∃ characters,
        .units characters target ∈ (nfa.node node).edges ∧
          characters.contains unit.toNat = true := by
  simp only [readTargets, Set.mem_iUnion, exists_prop]
  rfl

/-- The targets that a state looks up for a unit are those of the edges of the
nodes that read on. -/
theorem setOf_mem_unitTargets (nodes : List Nat) :
    {target | target ∈
        unitTargets (nfa.readingEdges isLazy nodes) unit.toNat} =
      nfa.readTargets isLazy {node | node ∈ nodes} unit := by
  ext target
  rw [Set.mem_ofPred_eq, mem_unitTargets, mem_readTargets]
  cases isMet : nfa.meetsCondition nodes with
  | true =>
      obtain ⟨other, isOther, meets⟩ := meetsCondition_iff.mp isMet
      constructor
      · rintro ⟨characters, isEdge, -⟩
        simp [readingEdges, isMet] at isEdge
      · rintro ⟨node, ⟨-, readsOn⟩, -⟩
        exact absurd meets (readsOn other isOther).1
  | false =>
      have unmet (other : Nat) (isOther : other ∈ nodes) :
          (nfa.node other).accept ≠ some .condition := by
        intro meets
        rw [meetsCondition_iff.mpr ⟨other, isOther, meets⟩] at isMet
        cases isMet
      constructor
      · rintro ⟨characters, isEdge, isHeld⟩
        obtain ⟨node, isNode, isEdge, unfinished⟩ :=
          (mem_readingEdges isMet).mp isEdge
        refine ⟨node, ⟨isNode, fun other isOther =>
          ⟨unmet other isOther, fun index accepts lazy => ?_⟩⟩,
          characters, isEdge, isHeld⟩
        exact unfinished index
          (mem_finished.mpr ⟨lazy, other, isOther, accepts⟩)
      · rintro ⟨node, ⟨isNode, readsOn⟩, characters, isEdge, isHeld⟩
        refine ⟨characters, (mem_readingEdges isMet).mpr
          ⟨node, isNode, isEdge, fun index isFinished => ?_⟩, isHeld⟩
        obtain ⟨lazy, other, isOther, accepts⟩ := mem_finished.mp isFinished
        exact (readsOn other isOther).2 index accepts lazy

omit [CharacterData] in
theorem mem_freeTargets_nil {node target : Nat} :
    target ∈ nfa.freeTargets [] node ↔
      .free target ∈ (nfa.node node).edges := by
  rw [freeTargets, List.mem_filterMap]
  constructor
  · rintro ⟨edge, isEdge, leads⟩
    cases edge with
    | free other =>
        obtain rfl := Option.some.inj leads
        exact isEdge
    | units characters other => cases leads
    | test condition negated other => cases leads
  · intro isEdge
    exact ⟨_, isEdge, rfl⟩

/-- Before anything is decided the nodes of a key are all that the seeds lead
to silently. -/
theorem Labelled.setOf_mem_freshKey
    {labels : Nat → Label}
    {seeds : List Nat}
    (labelled : nfa.Labelled labels)
    (inside : ∀ seed ∈ seeds, seed < nfa.nodes.size) :
    {node | node ∈ (nfa.freshKey seeds).nodes} =
      nfa.plain.εClosure {seed | seed ∈ seeds} := by
  ext node
  rw [Set.mem_ofPred_eq, freshKey, Nfa.mem_closure]
  constructor
  · intro reached
    induction reached with
    | seed isSeed _ => exact εNFA.εClosure.base _ isSeed
    | step _ leads _ inductionHypothesis =>
        exact εNFA.εClosure.step _ _ (mem_freeTargets_nil.mp leads)
          inductionHypothesis
  · intro reached
    induction reached with
    | base node isSeed => exact .seed isSeed (inside node isSeed)
    | step node target isEdge _ inductionHypothesis =>
        exact .step inductionHypothesis (mem_freeTargets_nil.mpr isEdge)
          (labelled.edge isEdge).1

/-- Edges that read lead to nodes that exist. -/
theorem Labelled.lt_of_mem_readTargets
    {labels : Nat → Label}
    {nodes : Set Nat}
    {target : Nat}
    (labelled : nfa.Labelled labels)
    (member : target ∈ nfa.readTargets isLazy nodes unit) :
    target < nfa.nodes.size := by
  obtain ⟨node, -, characters, isEdge, -⟩ := mem_readTargets.mp member
  exact (labelled.edge isEdge).1

end Nfa

namespace Numbering

variable {numbering : Numbering} {key : Key} {state : State}

/-- A state is that of a set of nodes where nothing is decided. -/
def Represents (numbering : Numbering) (number : Nat) (nodes : Set Nat) :
    Prop :=
  ∃ key, numbering.keys[number]? = some key ∧ key.decided = [] ∧
    {node | node ∈ key.nodes} = nodes

omit [CharacterData] in
/-- No two states are that of the same set of nodes. -/
theorem Represents.eq
    {nodes : Set Nat}
    {number other : Nat}
    (represents : numbering.Represents number nodes)
    (sound : numbering.Sound nfa)
    (otherRepresents : numbering.Represents other nodes) :
    number = other := by
  obtain ⟨key, isKey, undecided, isSet⟩ := represents
  obtain ⟨otherKey, isOther, otherUndecided, isSame⟩ := otherRepresents
  have sameNodes : key.nodes = otherKey.nodes := by
    apply (sound.valid _ _ isKey).ascends.eq_of_mem_iff
      (sound.valid _ _ isOther).ascends
    exact Set.ext_iff.mp (isSet.trans isSame.symm)
  have sameKey : key = otherKey := by
    obtain ⟨keyNodes, decided⟩ := key
    obtain ⟨otherNodes, otherDecided⟩ := otherKey
    rw [Key.mk.injEq]
    exact ⟨sameNodes, undecided.trans otherUndecided.symm⟩
  rw [← sameKey] at isOther
  exact Option.some.inj
    (((sound.numbers _ _).mpr isKey).symm.trans
      ((sound.numbers _ _).mpr isOther))

/-- A state that reads takes the plain step with each unit. -/
theorem Makes.next_eq_iff
    {labels : Nat → Label}
    (makes : Makes nfa isLazy numbering key state)
    (reads : state.branch = none)
    (apart : CharacterData.SurrogatesApart)
    (sound : numbering.Sound nfa)
    (labelled : nfa.Labelled labels)
    (unit : CodeUnit) :
    (state.next unit = none ↔
        nfa.readTargets isLazy {node | node ∈ key.nodes} unit = ∅) ∧
      ∀ target, state.next unit = some target ↔
        (nfa.readTargets isLazy {node | node ∈ key.nodes} unit).Nonempty ∧
          numbering.Represents target
            (nfa.subsetStep isLazy {node | node ∈ key.nodes} unit) := by
  have expands := makes.expands apart
  unfold Expands at expands
  cases found : nfa.undecided? key with
  | some entry =>
      rw [found] at expands
      obtain ⟨branch, isBranch, -⟩ := expands
      rw [reads] at isBranch
      cases isBranch
  | none =>
      rw [found] at expands
      obtain ⟨-, -, -, resolves⟩ := expands
      have inside : ∀ seed ∈
          unitTargets (nfa.readingEdges isLazy key.nodes) unit.toNat,
          seed < nfa.nodes.size := by
        intro seed isSeed
        have isTarget : seed ∈
            nfa.readTargets isLazy {node | node ∈ key.nodes} unit := by
          rw [← Nfa.setOf_mem_unitTargets]
          exact isSeed
        exact labelled.lt_of_mem_readTargets isTarget
      unfold Nfa.subsetStep
      rw [← Nfa.setOf_mem_unitTargets, ← labelled.setOf_mem_freshKey inside]
      rcases resolves unit with ⟨isEmpty, isNext⟩ |
        ⟨nonempty, number, isNext, isKey⟩
      · simp [isEmpty, isNext]
      · have represents : numbering.Represents number {node | node ∈
            (nfa.freshKey (unitTargets (nfa.readingEdges isLazy key.nodes)
              unit.toNat)).nodes} :=
          ⟨_, isKey, rfl, rfl⟩
        obtain ⟨seed, isSeed⟩ := List.exists_mem_of_ne_nil _ nonempty
        have someTarget : {seed | seed ∈ unitTargets
            (nfa.readingEdges isLazy key.nodes) unit.toNat}.Nonempty :=
          ⟨seed, isSeed⟩
        rw [isNext]
        refine ⟨?_, fun target => ?_⟩
        · simp [someTarget.ne_empty]
        · rw [Option.some.injEq]
          constructor
          · rintro rfl
            exact ⟨someTarget, represents⟩
          · rintro ⟨-, isTarget⟩
            exact represents.eq sound isTarget

end Numbering

/-- The states of an automaton each stand for a set of its nodes. A state that
reads has no next state for a unit just if no edge of the nodes that read on has
the unit in its set. Otherwise the next state is the one that stands for all
nodes that the targets of these edges lead to silently. -/
theorem next_determinize_eq_iff
    (apart : CharacterData.SurrogatesApart)
    (anyCase : Bool)
    (patterns : List Pattern)
    (isLazy : Nat → Bool) :
    ∃ numbering,
      Constructs (Nfa.ofPatterns anyCase patterns) isLazy numbering
        (determinize (Nfa.ofPatterns anyCase patterns) isLazy) ∧
      (determinize (Nfa.ofPatterns anyCase patterns) isLazy).size =
        numbering.keys.size ∧
      ∀ (number : Nat) (state : State),
        (determinize (Nfa.ofPatterns anyCase patterns) isLazy)[number]? =
          some state →
        ∃ key, numbering.keys[number]? = some key ∧
          (state.branch = none → ∀ unit : CodeUnit,
            (state.next unit = none ↔
              (Nfa.ofPatterns anyCase patterns).readTargets isLazy
                {node | node ∈ key.nodes} unit = ∅) ∧
            ∀ target, state.next unit = some target ↔
              ((Nfa.ofPatterns anyCase patterns).readTargets isLazy
                {node | node ∈ key.nodes} unit).Nonempty ∧
              numbering.Represents target
                ((Nfa.ofPatterns anyCase patterns).subsetStep isLazy
                  {node | node ∈ key.nodes} unit)) := by
  obtain ⟨numbering, constructs⟩ :=
    exists_constructs (Nfa.ofPatterns anyCase patterns) isLazy
  obtain ⟨labels, labelled, -⟩ :=
    @Nfa.exists_labelled _ patterns anyCase false fun _ _ => rfl
  refine ⟨numbering, constructs, constructs.size_eq,
    fun number state isState => ?_⟩
  obtain ⟨key, isKey, makes⟩ := constructs.exists_key isState
  exact ⟨key, isKey, fun reads unit =>
    makes.next_eq_iff reads apart constructs.sound labelled unit⟩

omit [CharacterData] in
/-- For one or more of the letters `a` and `c`, lazily: the first state has no
next one for `b`, and the one it has for `a` reads no further. -/
theorem next_determinize_eq_iff_letters :
    ∃ nfa, nfa = @Nfa.ofPatterns .ascii false
        [.repeat (.set (.except ⟨.ofRanges [⟨97, 99⟩], .empty⟩ (.single 98)))
          .oneOrMore] ∧
      @CharacterData.SurrogatesApart .ascii ∧
      ∃ (numbering : Numbering) (first second : Key),
        numbering.keys[0]? = some first ∧
        numbering.keys[1]? = some second ∧
        @Nfa.readTargets .ascii nfa (fun _ => true)
          {node | node ∈ first.nodes} 98 = ∅ ∧
        numbering.Represents 1 (@Nfa.subsetStep .ascii nfa (fun _ => true)
          {node | node ∈ first.nodes} 97) ∧
        @Nfa.readTargets .ascii nfa (fun _ => true)
          {node | node ∈ second.nodes} 97 = ∅ := by
  let _ : CharacterData := .ascii
  have apart : CharacterData.SurrogatesApart :=
    CharacterData.surrogatesApart_ascii
  have built : determinize (Nfa.ofPatterns false
      [.repeat (.set (.except ⟨.ofRanges [⟨97, 99⟩], .empty⟩ (.single 98)))
        .oneOrMore]) (fun _ => true) =
      #[⟨[⟨⟨97, 97⟩, ⟨[], some 1⟩⟩, ⟨⟨99, 99⟩, ⟨[], some 1⟩⟩], .nowhere, false,
          none, none⟩,
        ⟨[], .nowhere, true, some 0, none⟩] := by
    cbv
  obtain ⟨numbering, -, -, steps⟩ := next_determinize_eq_iff apart false
    [.repeat (.set (.except ⟨.ofRanges [⟨97, 99⟩], .empty⟩ (.single 98)))
      .oneOrMore] fun _ => true
  rw [built] at steps
  obtain ⟨first, isFirst, reads⟩ := steps 0 _ rfl
  obtain ⟨second, isSecond, secondReads⟩ := steps 1 _ rfl
  refine ⟨_, rfl, apart, numbering, first, second, isFirst, isSecond,
    ?_, ?_, ?_⟩
  · exact (reads rfl 98).1.mp (by decide +kernel)
  · exact (((reads rfl 97).2 1).mp (by decide +kernel)).2
  · exact (secondReads rfl 97).1.mp (by decide +kernel)

/-! ## Several units -/

/-- The state that some units lead to from a state, without a branch. -/
def stateAfter (states : Array State) (number : Nat) (units : List CodeUnit) :
    Option Nat :=
  units.foldlM (fun number unit => states[number]?.bind (·.next unit)) number

theorem Nfa.foldl_subsetStep_empty (units : List CodeUnit) :
    units.foldl (nfa.subsetStep isLazy) ∅ = ∅ := by
  induction units with
  | nil => rfl
  | cons unit rest inductionHypothesis =>
      have isEmpty : nfa.subsetStep isLazy ∅ unit = ∅ := by
        simp [subsetStep, readTargets, readers]
      rw [List.foldl_cons, isEmpty, inductionHypothesis]

/-- Where no state branches, some units lead to the state of the nodes that
the plain steps lead to. -/
theorem Constructs.stateAfter_eq_iff
    {numbering : Numbering}
    {states : Array State}
    {labels : Nat → Label}
    {number : Nat}
    {nodes : Set Nat}
    (constructs : Constructs nfa isLazy numbering states)
    (reads : ∀ (number : Nat) (state : State), states[number]? = some state →
      state.branch = none)
    (apart : CharacterData.SurrogatesApart)
    (labelled : nfa.Labelled labels)
    (nonempty : nodes.Nonempty)
    (represents : numbering.Represents number nodes)
    (units : List CodeUnit) :
    (stateAfter states number units = none ↔
        units.foldl (nfa.subsetStep isLazy) nodes = ∅) ∧
      ∀ target, stateAfter states number units = some target ↔
        (units.foldl (nfa.subsetStep isLazy) nodes).Nonempty ∧
          numbering.Represents target
            (units.foldl (nfa.subsetStep isLazy) nodes) := by
  unfold stateAfter
  induction units generalizing number nodes with
  | nil =>
      refine ⟨by simp [nonempty.ne_empty], fun target => ?_⟩
      rw [List.foldlM_nil, List.foldl_nil]
      constructor
      · rintro ⟨⟩
        exact ⟨nonempty, represents⟩
      · rintro ⟨-, isTarget⟩
        exact congrArg some (represents.eq constructs.sound isTarget)
  | cons unit rest inductionHypothesis =>
      obtain ⟨key, isKey, -, rfl⟩ := represents
      obtain ⟨state, isState, makes⟩ := constructs.exists_state isKey
      obtain ⟨stuck, moves⟩ := makes.next_eq_iff (reads _ _ isState) apart
        constructs.sound labelled unit
      rw [List.foldlM_cons, isState, List.foldl_cons, Option.bind_some]
      cases isNext : state.next unit with
      | none =>
          have isEmpty : nfa.subsetStep isLazy {node | node ∈ key.nodes} unit =
              ∅ := by
            rw [Nfa.subsetStep, stuck.mp isNext, εNFA.εClosure_empty]
          rw [isEmpty, Nfa.foldl_subsetStep_empty]
          simp
      | some target =>
          obtain ⟨someTarget, isTarget⟩ := (moves target).mp isNext
          exact inductionHypothesis
            (someTarget.mono (εNFA.subset_εClosure _ _)) isTarget

/-- The nodes that the plain steps with some units lead to from the first
node. -/
def Nfa.nodesAfter (nfa : Nfa) (isLazy : Nat → Bool) (units : List CodeUnit) :
    Set Nat :=
  units.foldl (nfa.subsetStep isLazy) (nfa.plain.εClosure {0})

/-- Without conditions, some units lead from the first state to that of the
nodes that the plain steps lead to from the first node. -/
theorem stateAfter_determinize_eq_iff
    (apart : CharacterData.SurrogatesApart)
    (anyCase : Bool)
    (patterns : List Pattern)
    (isLazy : Nat → Bool)
    (noConditions : Pattern.allLookaheads patterns = []) :
    ∃ numbering,
      Constructs (Nfa.ofPatterns anyCase patterns) isLazy numbering
        (determinize (Nfa.ofPatterns anyCase patterns) isLazy) ∧
      ∀ units : List CodeUnit,
        (stateAfter (determinize (Nfa.ofPatterns anyCase patterns) isLazy) 0
            units = none ↔
          (Nfa.ofPatterns anyCase patterns).nodesAfter isLazy units = ∅) ∧
        ∀ target,
          stateAfter (determinize (Nfa.ofPatterns anyCase patterns) isLazy) 0
              units = some target ↔
            ((Nfa.ofPatterns anyCase patterns).nodesAfter isLazy
              units).Nonempty ∧
            numbering.Represents target
              ((Nfa.ofPatterns anyCase patterns).nodesAfter isLazy units) := by
  obtain ⟨numbering, constructs⟩ :=
    exists_constructs (Nfa.ofPatterns anyCase patterns) isLazy
  obtain ⟨labels, labelled, marked, counted⟩ :=
    @Nfa.exists_labelled _ patterns anyCase false fun _ _ => rfl
  rw [noConditions] at counted
  have reads (number : Nat) (state : State)
      (isState : (determinize (Nfa.ofPatterns anyCase patterns)
        isLazy)[number]? = some state) :
      state.branch = none := by
    obtain ⟨key, -, makes⟩ := constructs.exists_key isState
    obtain ⟨rfl, -⟩ := makes.reads (labelled.undecided?_eq_none counted key)
    rfl
  have nonempty :
      ((Nfa.ofPatterns anyCase patterns).plain.εClosure {0}).Nonempty :=
    ⟨0, εNFA.subset_εClosure _ _ rfl⟩
  have represents : numbering.Represents 0
      ((Nfa.ofPatterns anyCase patterns).plain.εClosure {0}) := by
    refine ⟨_, constructs.first, rfl, ?_⟩
    rw [labelled.setOf_mem_freshKey
      (List.forall_mem_singleton.mpr marked.inside)]
    simp
  exact ⟨numbering, constructs,
    constructs.stateAfter_eq_iff reads apart labelled nonempty represents⟩

end Lexical
end ParserGenerator
