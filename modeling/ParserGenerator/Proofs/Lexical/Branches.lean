import Mathlib.Data.Finset.Card
import Mathlib.Order.Lattice.Nat
import ParserGenerator.Proofs.Lexical.Numbering
import ParserGenerator.Proofs.Lexical.Terminals
import ParserGenerator.Proofs.Lexical.Windows

/-!
# Branching on conditions

At one place of the input a walk decides the conditions of the nodes that it is
at, one after the other, until none is left. The key at the end has exactly the
nodes that can be reached there without reading anything. The conditions that
come up while a condition is decided are earlier ones, so that the branches at
one place are fewer than the states.
-/

namespace ParserGenerator
namespace Lexical

variable [CharacterData] {nfa : Nfa} {holds : Nat → List CodeUnit → Prop}

namespace Nfa

/-! ## Steps that read nothing -/

section Texts

variable {first last : Place}

/-- A step leaves the text ahead or reads its first unit. -/
theorem Step.text_cases (step : nfa.Step holds first last) :
    last.2 = first.2 ∨ ∃ unit, first.2 = unit :: last.2 := by
  obtain ⟨edge, -, leads⟩ := step
  cases edge with
  | free target =>
      obtain rfl : last = (target, first.2) := leads
      exact .inl rfl
  | units characters target =>
      obtain ⟨unit, rest, isText, -, rfl⟩ := leads
      exact .inr ⟨unit, isText⟩
  | test condition negated target =>
      obtain ⟨-, rfl⟩ := leads
      exact .inl rfl

theorem Step.suffix (step : nfa.Step holds first last) :
    last.2 <:+ first.2 := by
  rcases step.text_cases with same | ⟨unit, isText⟩
  · rw [same]
  · rw [isText]
    exact List.suffix_cons unit last.2

/-- What is ahead in the end was ahead in the beginning. -/
theorem Reaches.suffix (reaches : nfa.Reaches holds first last) :
    last.2 <:+ first.2 := by
  obtain ⟨length, path⟩ := reaches
  induction path with
  | here => exact List.suffix_rfl
  | step step _ inductionHypothesis =>
      exact inductionHypothesis.trans step.suffix

/-- Steps that read nothing lead from one node to another. -/
def Idles (nfa : Nfa) (holds : Nat → List CodeUnit → Prop)
    (text : List CodeUnit) : Nat → Nat → Prop :=
  Relation.ReflTransGen fun node next =>
    nfa.Step holds (node, text) (next, text)

theorem Idles.reaches
    {node next : Nat}
    {text : List CodeUnit}
    (idles : nfa.Idles holds text node next) :
    nfa.Reaches holds (node, text) (next, text) := by
  induction idles with
  | refl => exact .refl _
  | tail _ step inductionHypothesis =>
      exact inductionHypothesis.trans (.single step)

/-- A path reads nothing, or it idles until it reads. -/
theorem Reaches.idles_or_reads (reaches : nfa.Reaches holds first last) :
    nfa.Idles holds first.2 first.1 last.1 ∧ last.2 = first.2 ∨
      ∃ node target unit rest, first.2 = unit :: rest ∧
        nfa.Idles holds first.2 first.1 node ∧
        nfa.Step holds (node, unit :: rest) (target, rest) ∧
        nfa.Reaches holds (target, rest) last := by
  obtain ⟨length, path⟩ := reaches
  induction path with
  | here => exact .inl ⟨.refl, rfl⟩
  | @step length first next last step path inductionHypothesis =>
      obtain ⟨node, text⟩ := first
      obtain ⟨target, rest⟩ := next
      rcases step.text_cases with same | ⟨unit, isText⟩
      · obtain rfl : rest = text := same
        refine inductionHypothesis.imp ?_ ?_
        · rintro ⟨idles, isText⟩
          exact ⟨.head step idles, isText⟩
        · rintro ⟨other, beyond, unit, left, isText, idles, reads, onward⟩
          exact ⟨other, beyond, unit, left, isText, .head step idles, reads,
            onward⟩
      · obtain rfl : text = unit :: rest := isText
        exact .inr ⟨node, target, unit, rest, rfl, .refl, step, length, path⟩

/-- A path that leaves the text as it is reads nothing. -/
theorem Reaches.idles
    {node next : Nat}
    {text : List CodeUnit}
    (reaches : nfa.Reaches holds (node, text) (next, text)) :
    nfa.Idles holds text node next := by
  rcases reaches.idles_or_reads with
    ⟨idles, -⟩ | ⟨other, target, unit, rest, isText, -, -, onward⟩
  · exact idles
  · obtain rfl : text = unit :: rest := isText
    have shorter : rest.length + 1 ≤ rest.length := onward.suffix.length_le
    omega

end Texts

/-- A step over a unit takes an edge that holds it. -/
theorem step_unit_iff
    {node target : Nat}
    {unit : CodeUnit}
    {rest : List CodeUnit} :
    nfa.Step holds (node, unit :: rest) (target, rest) ↔
      ∃ characters, .units characters target ∈ (nfa.node node).edges ∧
        characters.contains unit.toNat = true := by
  constructor
  · rintro ⟨edge, member, leads⟩
    cases edge with
    | free other =>
        obtain ⟨-, isText⟩ := Prod.mk.inj (show (target, rest) =
          (other, unit :: rest) from leads)
        simp at isText
    | units characters other =>
        obtain ⟨first, others, isText, isHeld, same⟩ := leads
        obtain ⟨rfl, -⟩ := List.cons.inj isText
        obtain ⟨rfl, -⟩ := Prod.mk.inj same
        exact ⟨characters, member, isHeld⟩
    | test condition negated other =>
        obtain ⟨-, isText⟩ := Prod.mk.inj leads.2
        simp at isText
  · rintro ⟨characters, member, isHeld⟩
    exact ⟨_, member, unit, rest, rfl, isHeld, rfl⟩

/-! ## Tests -/

theorem Step.target
    {first last : Place}
    (step : nfa.Step holds first last) :
    ∃ edge ∈ (nfa.node first.1).edges, edge.target = last.1 := by
  obtain ⟨edge, member, leads⟩ := step
  refine ⟨edge, member, ?_⟩
  cases edge with
  | free target =>
      obtain rfl : last = (target, first.2) := leads
      rfl
  | units characters target =>
      obtain ⟨unit, rest, -, -, rfl⟩ := leads
      rfl
  | test condition negated target =>
      obtain ⟨-, rfl⟩ := leads
      rfl

/-- A node tests at most one condition, which exists. -/
structure Decisive (nfa : Nfa) : Prop where
  /-- The condition of a node is the one that it tests. -/
  condition : ∀ {node condition negated target},
    .test condition negated target ∈ (nfa.node node).edges →
      nfa.condition? node = some condition
  /-- The condition exists. -/
  bound : ∀ {node condition}, nfa.condition? node = some condition →
    condition < nfa.conditions.size
  /-- Edges lead to nodes that exist. -/
  target : ∀ {node edge}, edge ∈ (nfa.node node).edges →
    edge.target < nfa.nodes.size

omit [CharacterData] in
theorem exists_test_of_condition?
    {node condition : Nat}
    (found : nfa.condition? node = some condition) :
    ∃ negated target,
      .test condition negated target ∈ (nfa.node node).edges := by
  obtain ⟨edge, member, isTest⟩ := List.exists_of_findSome?_eq_some found
  cases edge with
  | free target => cases isTest
  | units characters target => cases isTest
  | test tested negated target =>
      obtain rfl := Option.some.inj isTest
      exact ⟨negated, target, member⟩

theorem StandsFor.decisive
    {anyCase : Bool}
    {patterns : List Pattern}
    (stands : nfa.StandsFor anyCase patterns holds) :
    nfa.Decisive := by
  have positive {node condition target : Nat} {negated : Bool}
      (member : .test condition negated target ∈ (nfa.node node).edges) :
      1 ≤ node := by
    by_contra isStart
    obtain rfl : node = 0 := by omega
    obtain ⟨other, index, isFree, -⟩ := stands.startEdges _ member
    cases isFree
  refine ⟨fun {node condition negated target} member => ?_,
    fun {node condition} found => ?_, fun {node edge} member => ?_⟩
  · cases found : nfa.condition? node with
    | none =>
        have absent := List.findSome?_eq_none_iff.mp found _ member
        cases absent
    | some other =>
        obtain ⟨opposed, next, isTest⟩ := exists_test_of_condition? found
        rw [stands.tidy.single (positive member) isTest member]
  · obtain ⟨negated, target, member⟩ := exists_test_of_condition? found
    exact stands.tidy.bound (positive member) member
  · by_cases isStart : node = 0
    · subst isStart
      obtain ⟨target, index, rfl, -, inside, -⟩ := stands.startEdges _ member
      exact inside
    · exact (stands.tidy.target (Nat.one_le_iff_ne_zero.mpr isStart) member).2

end Nfa

/-! ## Keys at a place -/

namespace Key

variable {text : List CodeUnit} {seeds : List Nat} {key : Key}

/-- A key is that of the nodes reachable at a place, as far as conditions are
decided. -/
structure Fits (nfa : Nfa) (holds : Nat → List CodeUnit → Prop)
    (text : List CodeUnit) (seeds : List Nat) (key : Key) : Prop where
  /-- The decisions are right. -/
  decided : ∀ node answer, key.decided.lookup node = some answer →
    ∃ condition, nfa.condition? node = some condition ∧
      (answer = true ↔ holds condition text)
  /-- The nodes are reached without reading anything. -/
  sound : ∀ node ∈ key.nodes, ∃ seed ∈ seeds,
    nfa.Reaches holds (seed, text) (node, text)
  /-- The seeds are among the nodes. -/
  seeds : ∀ seed ∈ seeds, seed < nfa.nodes.size → seed ∈ key.nodes
  /-- The nodes are closed under what is decided. -/
  closed : ∀ node ∈ key.nodes, ∀ next ∈ nfa.freeTargets key.decided node,
    next < nfa.nodes.size → next ∈ key.nodes

/-- With the right decisions free targets are reached. -/
theorem step_of_mem_freeTargets
    {decided : List (Nat × Bool)}
    {node next : Nat}
    (decisive : nfa.Decisive)
    (right : ∀ node answer, decided.lookup node = some answer →
      ∃ condition, nfa.condition? node = some condition ∧
        (answer = true ↔ holds condition text))
    (member : next ∈ nfa.freeTargets decided node) :
    nfa.Step holds (node, text) (next, text) := by
  obtain ⟨edge, isEdge, leads⟩ := List.mem_filterMap.mp member
  refine ⟨edge, isEdge, ?_⟩
  cases edge with
  | free target =>
      obtain rfl := Option.some.inj leads
      rfl
  | units characters target => cases leads
  | test condition negated target =>
      cases decision : decided.lookup node with
      | none => simp [decision, Edge.freeTarget?] at leads
      | some answer =>
          obtain ⟨tested, isTested, isRight⟩ := right node answer decision
          rw [decisive.condition isEdge] at isTested
          obtain rfl := Option.some.inj isTested
          simp only [decision, Edge.freeTarget?,
            Option.ite_none_right_eq_some, Option.some.injEq] at leads
          obtain ⟨differs, rfl⟩ := leads
          refine ⟨?_, rfl⟩
          rw [← isRight]
          cases answer <;> cases negated <;> simp_all

/-- A step that is decided leads to a free target. -/
theorem mem_freeTargets_of_step
    {decided : List (Nat × Bool)}
    {node next : Nat}
    (right : ∀ condition, nfa.condition? node = some condition →
      ∃ answer, decided.lookup node = some answer ∧
        (answer = true ↔ holds condition text))
    (decisive : nfa.Decisive)
    (step : nfa.Step holds (node, text) (next, text)) :
    next ∈ nfa.freeTargets decided node := by
  obtain ⟨edge, isEdge, leads⟩ := step
  refine List.mem_filterMap.mpr ⟨edge, isEdge, ?_⟩
  cases edge with
  | free target =>
      obtain ⟨rfl, -⟩ := Prod.mk.inj (show (next, text) = (target, text) from
        leads)
      rfl
  | units characters target =>
      obtain ⟨unit, rest, isText, -, same⟩ := leads
      obtain ⟨-, rfl⟩ := Prod.mk.inj same
      simp at isText
  | test condition negated target =>
      obtain ⟨answers, same⟩ := leads
      obtain ⟨rfl, -⟩ := Prod.mk.inj same
      obtain ⟨answer, decision, isRight⟩ :=
        right condition (decisive.condition isEdge)
      rw [← isRight] at answers
      cases answer <;> cases negated <;> simp_all [Edge.freeTarget?]

theorem fits_freshKey
    (decisive : nfa.Decisive)
    (text : List CodeUnit)
    (seeds : List Nat) :
    (nfa.freshKey seeds).Fits nfa holds text seeds := by
  constructor
  · intro node answer decision
    cases decision
  · intro node member
    rw [Nfa.freshKey, Nfa.mem_closure] at member
    induction member with
    | seed member _ => exact ⟨_, member, .refl _⟩
    | step _ next _ inductionHypothesis =>
        obtain ⟨seed, isSeed, reaches⟩ := inductionHypothesis
        refine ⟨seed, isSeed, reaches.trans (.single ?_)⟩
        refine step_of_mem_freeTargets decisive ?_ next
        intro node answer decision
        cases decision
  · intro seed isSeed inside
    exact Nfa.mem_closure.mpr (.seed isSeed inside)
  · intro node member next isNext inside
    exact Nfa.mem_closure.mpr (.step (Nfa.mem_closure.mp member) isNext inside)

omit [CharacterData] in
theorem lookup_decide
    {decided : List (Nat × Bool)}
    {node other : Nat}
    {answer found : Bool}
    (ordered : Ordered decided)
    (undecided : decided.lookup node = none)
    (decision : (Numbering.decide node answer decided).lookup other =
      some found) :
    other = node ∧ found = answer ∨ decided.lookup other = some found := by
  rw [lookup_eq_some_iff (ordered.decide undecided), mem_decide] at decision
  rw [lookup_eq_some_iff ordered]
  exact decision.imp_left Prod.mk.inj

theorem Fits.decidedKey
    {node condition : Nat}
    {answer : Bool}
    (decisive : nfa.Decisive)
    (valid : key.Valid nfa)
    (fits : key.Fits nfa holds text seeds)
    (found : nfa.undecided? key = some (node, condition))
    (isRight : answer = true ↔ holds condition text) :
    (nfa.decidedKey key node answer).Fits nfa holds text seeds := by
  obtain ⟨member, undecided, isTested⟩ := Numbering.undecided?_eq_some found
  have right : ∀ other answered,
      (Numbering.decide node answer key.decided).lookup other =
        some answered → ∃ tested, nfa.condition? other = some tested ∧
          (answered = true ↔ holds tested text) := by
    intro other answered decision
    rcases lookup_decide valid.ordered undecided decision with
      ⟨rfl, rfl⟩ | earlier
    · exact ⟨condition, isTested, isRight⟩
    · exact fits.decided other answered earlier
  constructor
  · exact right
  · intro other isNode
    rw [Nfa.decidedKey, Nfa.mem_closure] at isNode
    induction isNode with
    | seed isNode _ => exact fits.sound _ isNode
    | step _ next _ inductionHypothesis =>
        obtain ⟨seed, isSeed, reaches⟩ := inductionHypothesis
        exact ⟨seed, isSeed, reaches.trans
          (.single (step_of_mem_freeTargets decisive right next))⟩
  · intro seed isSeed inside
    exact Nfa.mem_closure.mpr (.seed (fits.seeds seed isSeed inside) inside)
  · intro other isNode next isNext inside
    exact Nfa.mem_closure.mpr (.step (Nfa.mem_closure.mp isNode) isNext inside)

/-- When nothing is left to decide, the nodes are those that can be reached
without reading anything. -/
theorem Fits.mem_nodes_iff
    {node : Nat}
    (decisive : nfa.Decisive)
    (fits : key.Fits nfa holds text seeds)
    (inside : ∀ seed ∈ seeds, seed < nfa.nodes.size)
    (complete : nfa.undecided? key = none) :
    node ∈ key.nodes ↔
      ∃ seed ∈ seeds, nfa.Reaches holds (seed, text) (node, text) := by
  refine ⟨fits.sound node, ?_⟩
  rintro ⟨seed, isSeed, reaches⟩
  have idles := reaches.idles
  clear reaches
  induction idles with
  | refl => exact fits.seeds seed isSeed (inside seed isSeed)
  | @tail middle last _ step isNode =>
      have isNext : last ∈ nfa.freeTargets key.decided middle := by
        refine mem_freeTargets_of_step (fun condition isTested => ?_) decisive
          step
        have decided := List.findSome?_eq_none_iff.mp complete middle isNode
        cases decision : key.decided.lookup middle with
        | none => simp [decision, isTested] at decided
        | some answer =>
            obtain ⟨tested, sameTested, isRight⟩ :=
              fits.decided middle answer decision
            obtain rfl := Option.some.inj (sameTested.symm.trans isTested)
            exact ⟨answer, rfl, isRight⟩
      obtain ⟨edge, isEdge, isTarget⟩ := step.target
      have lastInside := decisive.target isEdge
      rw [isTarget] at lastInside
      exact fits.closed middle isNode last isNext lastInside

end Key
/-! ## The depth of branches -/

namespace Nfa

/-- The conditions that are tested exist. -/
def Known (nfa : Nfa) : Prop :=
  ∀ {node condition}, nfa.condition? node = some condition →
    condition < nfa.conditions.size

/-- An edge leads from one node to another, whatever it asks for. -/
def Adjacent (nfa : Nfa) (node next : Nat) : Prop :=
  ∃ edge ∈ (nfa.node node).edges, edge.target = next

/-- All tests that can be come to from some nodes are of conditions below a
limit. -/
def TestsBelow (nfa : Nfa) (nodes : List Nat) (limit : Nat) : Prop :=
  ∀ node ∈ nodes, ∀ later, Relation.ReflTransGen nfa.Adjacent node later →
    ∀ condition, nfa.condition? later = some condition → condition < limit

/-- The least limit of the tests that can be come to from some nodes. -/
noncomputable def level (nfa : Nfa) (nodes : List Nat) : Nat :=
  sInf {limit | nfa.TestsBelow nodes limit}

variable {nodes others : List Nat}

omit [CharacterData] in
theorem testsBelow_level (known : nfa.Known) (nodes : List Nat) :
    nfa.TestsBelow nodes (nfa.level nodes) :=
  Nat.sInf_mem (s := {limit | nfa.TestsBelow nodes limit})
    ⟨nfa.conditions.size, fun _ _ _ _ _ isTested => known isTested⟩

omit [CharacterData] in
theorem level_le
    {limit : Nat}
    (below : nfa.TestsBelow nodes limit) :
    nfa.level nodes ≤ limit :=
  Nat.sInf_le below

omit [CharacterData] in
/-- What can be come to from some nodes has no higher level. -/
theorem level_mono
    (known : nfa.Known)
    (from_ : ∀ other ∈ others, ∃ node ∈ nodes,
      Relation.ReflTransGen nfa.Adjacent node other) :
    nfa.level others ≤ nfa.level nodes := by
  apply level_le
  intro other isOther later reached
  obtain ⟨node, isNode, between⟩ := from_ other isOther
  exact testsBelow_level known nodes node isNode later
    (between.trans reached)

omit [CharacterData] in
theorem Silent.adjacent
    {node next : Nat}
    (silent : nfa.Silent node next) :
    Relation.ReflTransGen nfa.Adjacent node next :=
  Relation.ReflTransGen.mono
    (fun _ _ ⟨edge, member, _, isTarget⟩ => ⟨edge, member, isTarget⟩) _ _ silent

omit [CharacterData] in
/-- The nodes of a closure are come to silently from its seeds. -/
theorem exists_silent_of_mem_closure
    {decided : List (Nat × Bool)}
    {seeds : List Nat}
    {node : Nat}
    (member : node ∈ nfa.closure decided seeds) :
    ∃ seed ∈ seeds, nfa.Silent seed node := by
  induction mem_closure.mp member with
  | seed isSeed _ => exact ⟨_, isSeed, .refl⟩
  | @step node next reached isNext _ inductionHypothesis =>
      obtain ⟨seed, isSeed, between⟩ :=
        inductionHypothesis (mem_closure.mpr reached)
      obtain ⟨edge, isEdge, leads⟩ := List.mem_filterMap.mp isNext
      exact ⟨seed, isSeed,
        between.tail ⟨edge, isEdge, Edge.of_freeTarget? leads⟩⟩

omit [CharacterData] in
theorem exists_seed_of_mem_closure
    {decided : List (Nat × Bool)}
    {seeds : List Nat}
    {node : Nat}
    (member : node ∈ nfa.closure decided seeds) :
    ∃ seed ∈ seeds, Relation.ReflTransGen nfa.Adjacent seed node := by
  obtain ⟨seed, isSeed, silent⟩ := exists_silent_of_mem_closure member
  exact ⟨seed, isSeed, silent.adjacent⟩

omit [CharacterData] in
/-- The level of what is come to from a node, among nodes that are closed under
edges and test only conditions below a limit. -/
theorem level_freshKey_le
    {inside : Nat → Prop}
    {seed limit : Nat}
    (start : inside seed)
    (closed : ∀ node next, inside node → nfa.Adjacent node next → inside next)
    (tests : ∀ node condition, inside node →
      nfa.condition? node = some condition → condition < limit) :
    nfa.level (nfa.freshKey [seed]).nodes ≤ limit := by
  apply level_le
  intro node isNode later reached condition isTested
  obtain ⟨other, isSeed, between⟩ := exists_seed_of_mem_closure isNode
  obtain rfl := List.mem_singleton.mp isSeed
  refine tests later condition ?_ isTested
  have path := between.trans reached
  clear isTested reached
  induction path with
  | refl => exact start
  | tail _ adjacent inductionHypothesis =>
      exact closed _ _ inductionHypothesis adjacent

/-- The fragment of a condition has no higher level than its number. -/
theorem Settled.level_le
    {low number : Nat}
    (settled : nfa.Settled holds low number) :
    nfa.level (nfa.freshKey [Numbering.conditionEntry nfa number]).nodes ≤
      number := by
  obtain ⟨inside, isInside, closed⟩ := settled.region
  refine level_freshKey_le isInside ?_ ?_
  · rintro node _ isNode ⟨edge, isEdge, rfl⟩
    exact (closed node edge isNode isEdge).1
  · intro node condition isNode isTested
    obtain ⟨negated, target, isTest⟩ := exists_test_of_condition? isTested
    exact (closed node _ isNode isTest).2 _ _ _ rfl

end Nfa

namespace Key

variable {key : Key} {node condition : Nat}

/-- How far a key is from having no condition left to decide. -/
noncomputable def rank (nfa : Nfa) (key : Key) : Nat :=
  nfa.level key.nodes * (nfa.nodes.size + 1) +
    (nfa.nodes.size - key.decided.length)

omit [CharacterData] in
theorem length_decide (node : Nat) (answer : Bool) (decided : List (Nat × Bool)) :
    (Numbering.decide node answer decided).length = decided.length + 1 := by
  fun_induction Numbering.decide node answer decided with
  | case1 => rfl
  | case2 other answered rest less => rfl
  | case3 other answered rest notLess inductionHypothesis =>
      rw [List.length_cons, inductionHypothesis, List.length_cons]

omit [CharacterData] in
theorem Valid.length_decided_le (valid : key.Valid nfa) :
    key.decided.length ≤ nfa.nodes.size := by
  have ascends : Ascends (key.decided.map Prod.fst) :=
    List.pairwise_map.mpr valid.ordered
  rw [← List.length_map Prod.fst]
  refine ascends.length_le fun node member => ?_
  obtain ⟨entry, isEntry, rfl⟩ := List.mem_map.mp member
  exact valid.inside _ (valid.within entry isEntry)

omit [CharacterData] in
/-- A condition starts at a lower level than the key that it is tested for. -/
theorem level_condition_lt
    (known : nfa.Known)
    (lower : nfa.level
      (nfa.freshKey [Numbering.conditionEntry nfa condition]).nodes ≤
        condition)
    (found : nfa.undecided? key = some (node, condition)) :
    nfa.level (nfa.freshKey [Numbering.conditionEntry nfa condition]).nodes <
      nfa.level key.nodes := by
  obtain ⟨member, -, isTested⟩ := Numbering.undecided?_eq_some found
  exact Nat.lt_of_le_of_lt lower
    (Nfa.testsBelow_level known key.nodes node member node .refl condition
      isTested)

omit [CharacterData] in
/-- A condition is decided by states of lower rank. -/
theorem rank_condition_lt
    (known : nfa.Known)
    (lower : nfa.level
      (nfa.freshKey [Numbering.conditionEntry nfa condition]).nodes ≤
        condition)
    (found : nfa.undecided? key = some (node, condition)) :
    (nfa.freshKey [Numbering.conditionEntry nfa condition]).rank nfa <
      key.rank nfa := by
  have product := Nat.mul_le_mul_right (nfa.nodes.size + 1)
    (Nat.succ_le_of_lt (level_condition_lt known lower found))
  rw [Nat.succ_mul] at product
  unfold rank
  omega

omit [CharacterData] in
theorem level_decidedKey_le
    (known : nfa.Known)
    (node : Nat)
    (answer : Bool) :
    nfa.level (nfa.decidedKey key node answer).nodes ≤ nfa.level key.nodes :=
  Nfa.level_mono known fun _ isNode => Nfa.exists_seed_of_mem_closure isNode

omit [CharacterData] in
/-- A decision lowers the rank. -/
theorem Valid.rank_decidedKey_lt
    (known : nfa.Known)
    (valid : key.Valid nfa)
    (found : nfa.undecided? key = some (node, condition))
    (answer : Bool) :
    (nfa.decidedKey key node answer).rank nfa < key.rank nfa := by
  obtain ⟨member, undecided, -⟩ := Numbering.undecided?_eq_some found
  have product := Nat.mul_le_mul_right (nfa.nodes.size + 1)
    (@level_decidedKey_le _ key known node answer)
  have longer : (nfa.decidedKey key node answer).decided.length =
      key.decided.length + 1 := length_decide node answer key.decided
  have bounded :=
    (valid.decidedKey member undecided answer).length_decided_le
  unfold rank
  omega

end Key

/-- The number of states of lower rank than a state. -/
noncomputable def depth (nfa : Nfa) (keys : Array Key) (number : Nat) : Nat :=
  ((Finset.range keys.size).filter fun other =>
    (keys[other]?.map (Key.rank nfa)).getD 0 <
      (keys[number]?.map (Key.rank nfa)).getD 0).card

omit [CharacterData] in
theorem depth_lt
    {keys : Array Key}
    {number other : Nat}
    {key lower : Key}
    (isKey : keys[number]? = some key)
    (isLower : keys[other]? = some lower)
    (less : lower.rank nfa < key.rank nfa) :
    depth nfa keys other < depth nfa keys number := by
  have inside := (Array.getElem?_eq_some_iff.mp isLower).1
  apply Finset.card_lt_card
  rw [Finset.ssubset_iff_of_subset]
  · refine ⟨other, ?_, ?_⟩
    · rw [Finset.mem_filter, isKey, isLower]
      exact ⟨Finset.mem_range.mpr inside, less⟩
    · simp
  · intro state
    simp only [Finset.mem_filter, isKey, isLower, Option.map_some,
      Option.getD_some]
    rintro ⟨isState, isLess⟩
    exact ⟨isState, Nat.lt_trans isLess less⟩

omit [CharacterData] in
theorem depth_le (nfa : Nfa) (keys : Array Key) (number : Nat) :
    depth nfa keys number ≤ keys.size := by
  have bounded := Finset.card_filter_le (Finset.range keys.size) fun other =>
    (keys[other]?.map (Key.rank nfa)).getD 0 <
      (keys[number]?.map (Key.rank nfa)).getD 0
  rw [Finset.card_range] at bounded
  exact bounded

/-! ## Walks at one place -/

/-- A walk accepts if something holds, and else ends without accepting. -/
def Walk.Tells (statement : Prop) (walk : Walk) : Prop :=
  (statement → ∃ last, walk = .stopped (some last)) ∧
    (¬ statement → walk = .stopped none)

namespace Automaton

variable {automaton : Automaton} {isLazy : Nat → Bool} {keys : Array Key}
  {text : List CodeUnit} {seeds : List Nat} {ahead : Ahead} {number : Nat}
  {key : Key}

/-- A state that reads, with the nodes that are reached from the seeds. -/
def ReadsFrom (automaton : Automaton) (nfa : Nfa) (isLazy : Nat → Bool)
    (holds : Nat → List CodeUnit → Prop) (keys : Array Key)
    (text : List CodeUnit) (seeds : List Nat) (state : State) : Prop :=
  ∃ (number : Nat) (key : Key), keys[number]? = some key ∧
    automaton.states[number]? = some state ∧
    Numbering.Expands nfa isLazy keys key state ∧
    nfa.undecided? key = none ∧ key.Fits nfa holds text seeds

omit [CharacterData] in
theorem state_eq
    {state : State}
    (found : automaton.states[number]? = some state) :
    automaton.state number = state := by
  rw [Automaton.state, found]
  rfl

/-- At one place a walk decides conditions and then reads on from a state that
has all nodes reached there. -/
theorem exists_walkHere_eq_read
    {fuel : Nat}
    {first : Bool}
    (keyed : Keyed nfa isLazy keys automaton.states)
    (decisive : nfa.Decisive)
    (settled : ∀ condition < nfa.conditions.size,
      nfa.Settled holds 1 condition)
    (decides : ∀ condition < nfa.conditions.size, ∀ state,
      automaton.ReadsFrom nfa isLazy holds keys text
        [Numbering.conditionEntry nfa condition] state →
          (read state true true ahead).Tells (holds condition text))
    (isKey : keys[number]? = some key)
    (fits : key.Fits nfa holds text seeds)
    (enough : depth nfa keys number < fuel) :
    ∃ state, automaton.ReadsFrom nfa isLazy holds keys text seeds state ∧
      automaton.walkHere true ahead fuel first number =
        read state true first ahead := by
  induction fuel generalizing number key first seeds with
  | zero => omega
  | succ fuel inductionHypothesis =>
      obtain ⟨state, isState, expands⟩ := keyed.expands number key isKey
      have valid := keyed.valid number key isKey
      cases found : nfa.undecided? key with
      | none =>
          refine ⟨state, ⟨number, key, isKey, isState, expands, found, fits⟩,
            ?_⟩
          rw [Numbering.Expands, found] at expands
          rw [walkHere, state_eq isState]
          simp only [expands.1]
      | some entry =>
          obtain ⟨node, condition⟩ := entry
          have known : condition < nfa.conditions.size :=
            decisive.bound (Numbering.undecided?_eq_some found).2.2
          rw [Numbering.Expands, found] at expands
          obtain ⟨branch, isBranch, isStart, isTrue, isFalse⟩ := expands
          have lower := Key.rank_condition_lt decisive.bound
            (settled condition known).level_le found
          obtain ⟨reading, readsFrom, isRead⟩ := @inductionHypothesis
            [Numbering.conditionEntry nfa condition] branch.condition _ true
            isStart (Key.fits_freshKey decisive text _)
            (by have less := depth_lt isKey isStart lower; omega)
          have tells := decides condition known reading readsFrom
          rw [← isRead] at tells
          rw [walkHere, state_eq isState]
          simp only [isBranch]
          by_cases isHeld : holds condition text
          · obtain ⟨last, answer⟩ := tells.1 isHeld
            rw [answer]
            refine inductionHypothesis isTrue
              (fits.decidedKey decisive valid found (by simp [isHeld])) ?_
            have less := depth_lt isKey isTrue
              (valid.rank_decidedKey_lt decisive.bound found true)
            omega
          · rw [tells.2 isHeld]
            refine inductionHypothesis isFalse
              (fits.decidedKey decisive valid found (by simp [isHeld])) ?_
            have less := depth_lt isKey isFalse
              (valid.rank_decidedKey_lt decisive.bound found false)
            omega

end Automaton

end Lexical
end ParserGenerator
