import ParserGenerator.Proofs.Lexical.Terminals

/-!
# Labelled nodes

While an automaton is built its nodes can be labelled. The height of a node is
above all conditions that are tested from there on: it never rises along an
edge, a test is of a condition below the height of its node, and a condition
starts no higher than its own number. A node is open if nothing has to be read
to come to it: only an edge that reads leads from an open node to one that is
not. The exit of a fragment is then open just if the entry is and the pattern
is nullable.
-/

namespace ParserGenerator
namespace Lexical

/-- What is known of a node. -/
structure Label where
  /-- The conditions that are tested from the node on are below the height. -/
  height : Nat
  /-- Nothing has to be read to come to the node. -/
  isOpen : Bool

/-- An edge between nodes with these labels is in order, where there are
`count` conditions. -/
structure Edge.Permitted (count : Nat) (source target : Label) (edge : Edge) :
    Prop where
  /-- The height does not rise. -/
  height : target.height ≤ source.height
  /-- Unless it reads, the edge leads from an open node to an open node. -/
  isOpen : edge.reading? = none → source.isOpen = true → target.isOpen = true
  /-- A condition that is tested is below the height, and exists. -/
  test : ∀ condition, edge.condition? = some condition →
    condition < source.height ∧ condition < count

theorem Edge.Permitted.mono
    {count more : Nat}
    {source target : Label}
    {edge : Edge}
    (permitted : edge.Permitted count source target)
    (less : count ≤ more) :
    edge.Permitted more source target :=
  { permitted with
    test := fun condition isTested =>
      (permitted.test condition isTested).imp_right (Nat.lt_of_lt_of_le · less) }

namespace Nfa

variable {owner : Option Nat} {base middle result : Nfa}
  {labels between later : Nat → Label}

/-- The labels of the nodes are right. -/
structure Labelled (nfa : Nfa) (labels : Nat → Label) : Prop where
  /-- Edges lead to nodes that exist, and are in order. -/
  edge : ∀ {node edge}, edge ∈ (nfa.node node).edges →
    edge.target < nfa.nodes.size ∧
      edge.Permitted nfa.conditions.size (labels node) (labels edge.target)
  /-- Conditions start at nodes that exist, no higher than their numbers. -/
  entry : ∀ {number entry : Nat}, nfa.conditions[number]? = some entry →
    entry < nfa.nodes.size ∧ (labels entry).height ≤ number
  /-- What accepts a terminal is not open. -/
  accept : ∀ {node index}, (nfa.node node).accept = some (.terminal index) →
    (labels node).isOpen = false

/-- A node exists and has a label. -/
structure Marked (nfa : Nfa) (labels : Nat → Label) (node : Nat)
    (label : Label) : Prop where
  /-- The node exists. -/
  inside : node < nfa.nodes.size
  /-- The node has the label. -/
  label_eq : labels node = label

/-- Silent steps keep to open nodes. -/
theorem Silent.isOpen
    {nfa : Nfa}
    {node next : Nat}
    (silent : nfa.Silent node next)
    (labelled : nfa.Labelled labels)
    (isOpen : (labels node).isOpen = true) :
    (labels next).isOpen = true := by
  induction silent with
  | refl => exact isOpen
  | tail _ step inductionHypothesis =>
      obtain ⟨edge, member, unread, rfl⟩ := step
      exact (labelled.edge member).2.isOpen unread inductionHypothesis

/-! ## Going on building -/

/-- The construction went on, adding some conditions: the labels are still
right, and nodes keep their labels and their edges. -/
structure Develops (count : Nat) (base : Nfa) (labels : Nat → Label)
    (result : Nfa) (later : Nat → Label) : Prop where
  /-- The labels are right. -/
  labelled : result.Labelled later
  /-- Nodes are only added. -/
  size_le : base.nodes.size ≤ result.nodes.size
  /-- Nodes keep their labels. -/
  kept : ∀ {node}, node < base.nodes.size → later node = labels node
  /-- Nodes keep their edges. -/
  edges : ∀ {node edge}, edge ∈ (base.node node).edges →
    edge ∈ (result.node node).edges
  /-- Conditions are only added. -/
  count_eq : result.conditions.size = base.conditions.size + count

theorem Labelled.develops (labelled : base.Labelled labels) :
    Develops 0 base labels base labels :=
  ⟨labelled, Nat.le_refl _, fun _ => rfl, id, rfl⟩

namespace Develops

variable {count more : Nat}

theorem trans
    (first : Develops count base labels middle between)
    (second : Develops more middle between result later) :
    Develops (count + more) base labels result later where
  labelled := second.labelled
  size_le := Nat.le_trans first.size_le second.size_le
  kept := fun inside =>
    (second.kept (Nat.lt_of_lt_of_le inside first.size_le)).trans
      (first.kept inside)
  edges := fun member => second.edges (first.edges member)
  count_eq := by rw [second.count_eq, first.count_eq, Nat.add_assoc]

theorem marked
    {node : Nat}
    {label : Label}
    (develops : Develops count base labels result later)
    (marked : base.Marked labels node label) :
    result.Marked later node label :=
  ⟨Nat.lt_of_lt_of_le marked.inside develops.size_le,
    (develops.kept marked.inside).trans marked.label_eq⟩

theorem silent
    {node next : Nat}
    (develops : Develops count base labels result later)
    (silent : base.Silent node next) :
    result.Silent node next :=
  Relation.ReflTransGen.mono (fun _ _ ⟨edge, member, isSilent⟩ =>
    ⟨edge, develops.edges member, isSilent⟩) _ _ silent

/-- Steps that add no condition, before others. -/
theorem after
    (first : Develops 0 base labels middle between)
    (second : Develops count middle between result later) :
    Develops count base labels result later :=
  Nat.zero_add count ▸ first.trans second

end Develops

section Steps

variable {source target : Nat} {first second : Label}

/-- A new node can have any label. -/
theorem Labelled.addNode
    (labelled : base.Labelled labels)
    (owner : Option Nat)
    (label : Label) :
    ∃ later, Develops 0 base labels (base.addNode owner).1 later ∧
      (base.addNode owner).1.Marked later base.nodes.size label := by
  have kept {node : Nat} (inside : node < base.nodes.size) :
      Function.update labels base.nodes.size label node = labels node :=
    Function.update_of_ne (Nat.ne_of_lt inside) _ _
  have node_lt {node : Nat} {edge : Edge}
      (member : edge ∈ (base.node node).edges) : node < base.nodes.size := by
    by_contra outside
    rw [node_of_size_le (Nat.le_of_not_lt outside)] at member
    cases member
  refine ⟨Function.update labels base.nodes.size label,
    ⟨⟨?_, ?_, ?_⟩, by simp, kept, ?_, rfl⟩,
    ⟨by simp, Function.update_self _ _ _⟩⟩
  · intro node edge member
    obtain ⟨isOld, -⟩ := mem_edges_addNode member
    obtain ⟨inside, permitted⟩ := labelled.edge isOld
    rw [kept (node_lt isOld), kept inside, size_addNode]
    exact ⟨Nat.lt_succ_of_lt inside, permitted⟩
  · intro number entry isEntry
    obtain ⟨inside, height⟩ := labelled.entry isEntry
    rw [kept inside, size_addNode]
    exact ⟨Nat.lt_succ_of_lt inside, height⟩
  · intro node index accepts
    by_cases isNew : node = base.nodes.size
    · rw [isNew, node_addNode_self] at accepts
      cases accepts
    · rw [Function.update_of_ne isNew]
      rw [node_addNode_of_ne isNew] at accepts
      exact labelled.accept accepts
  · intro node edge member
    rw [node_addNode_of_lt (node_lt member)]
    exact member

theorem Labelled.addOuter
    (labelled : base.Labelled labels)
    (owner : Option Nat)
    (first second : Label) :
    ∃ later, Develops 0 base labels (base.addOuter owner) later ∧
      (base.addOuter owner).Marked later base.nodes.size first ∧
      (base.addOuter owner).Marked later (base.nodes.size + 1) second := by
  obtain ⟨between, entryDevelops, entry⟩ := labelled.addNode owner first
  obtain ⟨later, develops, exit⟩ :=
    entryDevelops.labelled.addNode owner second
  rw [size_addNode] at exit
  exact ⟨later, entryDevelops.trans develops, develops.marked entry, exit⟩

theorem Labelled.addEdge
    {edge : Edge}
    (labelled : base.Labelled labels)
    (start : base.Marked labels source first)
    (goal : base.Marked labels edge.target second)
    (permitted : edge.Permitted base.conditions.size first second) :
    Develops 0 base labels (base.addEdge source edge) labels := by
  refine ⟨⟨?_, ?_, ?_⟩, by simp, fun _ => rfl, ?_, rfl⟩
  · intro node other member
    rw [size_addEdge]
    rcases mem_edges_addEdge start.inside member with isOld | ⟨rfl, rfl⟩
    · exact labelled.edge isOld
    · refine ⟨goal.inside, ?_⟩
      rw [start.label_eq, goal.label_eq]
      exact permitted
  · intro number entry isEntry
    rw [size_addEdge]
    exact labelled.entry isEntry
  · intro node index accepts
    rw [accept_addEdge] at accepts
    exact labelled.accept accepts
  · intro node other member
    by_cases same : node = source
    · subst same
      rw [node_addEdge_self start.inside]
      exact List.mem_append_left _ member
    · rw [node_addEdge_of_ne same]
      exact member

theorem Labelled.addFree
    (labelled : base.Labelled labels)
    (start : base.Marked labels source first)
    (goal : base.Marked labels target second)
    (height : second.height ≤ first.height)
    (isOpen : first.isOpen = true → second.isOpen = true) :
    Develops 0 base labels (base.addEdge source (.free target)) labels :=
  labelled.addEdge start (show base.Marked labels target second from goal)
    ⟨height, fun _ => isOpen, by rintro _ ⟨⟩⟩

theorem Labelled.addUnits
    (characters : CharSet)
    (labelled : base.Labelled labels)
    (start : base.Marked labels source first)
    (goal : base.Marked labels target second)
    (height : second.height ≤ first.height) :
    Develops 0 base labels (base.addEdge source (.units characters target))
      labels :=
  labelled.addEdge start (show base.Marked labels target second from goal)
    ⟨height, (by rintro ⟨⟩), by rintro _ ⟨⟩⟩

theorem Labelled.addFreeIf
    {wanted : Bool}
    (labelled : base.Labelled labels)
    (start : base.Marked labels source first)
    (goal : base.Marked labels target second)
    (height : second.height ≤ first.height)
    (isOpen : wanted = true → first.isOpen = true → second.isOpen = true) :
    Develops 0 base labels (base.addEdgeIf wanted source (.free target))
      labels := by
  cases wanted with
  | true => exact labelled.addFree start goal height (isOpen rfl)
  | false => exact labelled.develops

theorem silent_addEdge
    {edge : Edge}
    (inside : source < base.nodes.size)
    (unread : edge.reading? = none) :
    (base.addEdge source edge).Silent source edge.target := by
  refine .single ⟨edge, ?_, unread, rfl⟩
  rw [node_addEdge_self inside]
  exact List.mem_append_right _ List.mem_cons_self

theorem Labelled.setAccept
    (accept : Accept)
    (labelled : base.Labelled labels)
    (start : base.Marked labels source first)
    (closed : ∀ index, accept = .terminal index → first.isOpen = false) :
    Develops 0 base labels (base.setAccept source accept) labels := by
  refine ⟨⟨?_, ?_, ?_⟩, by simp, fun _ => rfl, ?_, rfl⟩
  · intro node edge member
    rw [edges_setAccept] at member
    rw [size_setAccept]
    exact labelled.edge member
  · intro number entry isEntry
    rw [size_setAccept]
    exact labelled.entry isEntry
  · intro node index accepts
    by_cases same : node = source
    · rw [same, node_setAccept_self start.inside] at accepts
      rw [same, start.label_eq]
      exact closed index (Option.some.inj accepts)
    · rw [node_setAccept_of_ne same] at accepts
      exact labelled.accept accepts
  · intro node edge member
    rw [edges_setAccept]
    exact member

theorem Labelled.addCondition
    (labelled : base.Labelled labels)
    (start : base.Marked labels source first)
    (height : first.height ≤ base.conditions.size) :
    Develops 1 base labels (base.addCondition source) labels := by
  have grown : base.conditions.size ≤
      (base.addCondition source).conditions.size := by
    simp [Nfa.addCondition]
  refine ⟨⟨?_, ?_, labelled.accept⟩, Nat.le_refl _, fun _ => rfl, id,
    Array.size_push _⟩
  · intro node edge member
    exact (labelled.edge member).imp_right (Edge.Permitted.mono · grown)
  · intro number entry isEntry
    rw [Nfa.addCondition, Array.getElem?_push] at isEntry
    split at isEntry
    · next isLast =>
        obtain rfl := Option.some.inj isEntry
        rw [start.label_eq, isLast]
        exact ⟨start.inside, height⟩
    · exact labelled.entry isEntry

end Steps

/-! ## Fragments -/

/-- A fragment was built, whose nodes are of the same height. The exit is open
if the entry is and the pattern is nullable, and is then come to silently. -/
structure Spans (count height : Nat) (isOpen nullable : Bool) (base : Nfa)
    (labels : Nat → Label) (outcome : Nfa × Fragment) (later : Nat → Label) :
    Prop extends Develops count base labels outcome.1 later where
  /-- The entry has the height, and is open if it should be. -/
  entry : outcome.1.Marked later outcome.2.entry ⟨height, isOpen⟩
  /-- The exit has the height. -/
  exit : outcome.1.Marked later outcome.2.exit ⟨height, isOpen && nullable⟩
  /-- Nothing need be read in a nullable pattern. -/
  silent : nullable = true →
    outcome.1.Silent outcome.2.entry outcome.2.exit

section Sequences

variable {start height count more : Nat} {isOpen nullable next : Bool}
  {outcome : Nfa × Fragment} {onward : Nfa × Nat}

theorem Spans.nothing
    (labelled : base.Labelled labels)
    (marked : base.Marked labels start ⟨height, isOpen⟩) :
    Spans 0 height isOpen true base labels (base, ⟨start, start⟩) labels where
  toDevelops := labelled.develops
  entry := marked
  exit := by rwa [Bool.and_true]
  silent := fun _ => .refl

theorem Spans.addFree
    (marked : base.Marked labels start ⟨height, isOpen⟩)
    (first : Spans count height isOpen nullable base labels outcome between) :
    Develops 0 outcome.1 between
      (outcome.1.addEdge start (.free outcome.2.entry)) between :=
  first.labelled.addFree (first.marked marked) first.entry (Nat.le_refl _) id

/-- A fragment behind a node, and what is built from its exit on. -/
theorem Spans.cons
    (marked : base.Marked labels start ⟨height, isOpen⟩)
    (first : Spans count height isOpen nullable base labels outcome between)
    (second : Spans more height (isOpen && nullable) next
      (outcome.1.addEdge start (.free outcome.2.entry)) between
      (onward.1, ⟨outcome.2.exit, onward.2⟩) later) :
    Spans (count + more) height isOpen (nullable && next) base labels
      (onward.1, ⟨start, onward.2⟩) later := by
  have joins := first.addFree marked
  have isMarked := first.marked marked
  refine ⟨(first.trans joins).trans second.toDevelops,
    second.marked (joins.marked isMarked), ?_, fun bothNullable => ?_⟩
  · rw [← Bool.and_assoc]
    exact second.exit
  · obtain ⟨isNullable, isNext⟩ := Bool.and_eq_true_iff.mp bothNullable
    have enters : (outcome.1.addEdge start (.free outcome.2.entry)).Silent start
        outcome.2.entry := silent_addEdge isMarked.inside rfl
    exact (second.toDevelops.silent
      (enters.trans (joins.silent (first.silent isNullable)))).trans
        (second.silent isNext)

/-- Nodes were added before the fragment was built. -/
theorem Spans.after
    (grown : Develops 0 base labels middle between)
    (spans : Spans count height isOpen nullable middle between outcome later) :
    Spans count height isOpen nullable base labels outcome later :=
  { spans with toDevelops := grown.after spans.toDevelops }

end Sequences

/-- A fragment between two nodes. -/
theorem Spans.bridge
    {count height : Nat}
    {isOpen nullable wide : Bool}
    {outcome : Nfa × Fragment}
    (outer : Fragment)
    (spans : Spans count height isOpen nullable base labels outcome later)
    (entry : base.Marked labels outer.entry ⟨height, isOpen⟩)
    (exit : base.Marked labels outer.exit ⟨height, isOpen && wide⟩)
    (within : nullable = true → wide = true) :
    Develops count base labels (Nfa.bridge outer outcome) later ∧
      (nullable = true →
        (Nfa.bridge outer outcome).Silent outer.entry outer.exit) := by
  have enters := spans.addFree entry
  have leaves := enters.labelled.addFree (enters.marked spans.exit)
    (enters.marked (spans.marked exit)) (Nat.le_refl _) (by
      intro isExit
      obtain ⟨isEntry, isNullable⟩ := Bool.and_eq_true_iff.mp isExit
      exact Bool.and_eq_true_iff.mpr ⟨isEntry, within isNullable⟩)
  refine ⟨(spans.trans enters).trans leaves, fun isNullable => ?_⟩
  have intoEntry : (outcome.1.addEdge outer.entry
      (.free outcome.2.entry)).Silent outer.entry outcome.2.entry :=
    silent_addEdge (spans.marked entry).inside rfl
  have toExit := intoEntry.trans (enters.silent (spans.silent isNullable))
  exact (leaves.silent toExit).trans
    (silent_addEdge (enters.marked spans.exit).inside rfl)

/-- A fragment between two nodes that may be repeated or passed by. -/
theorem Spans.bridgeAgain
    {count height : Nat}
    {isOpen nullable : Bool}
    {outcome : Nfa × Fragment}
    (outer : Fragment)
    (again past : Bool)
    (spans : Spans count height isOpen nullable base labels outcome later)
    (entry : base.Marked labels outer.entry ⟨height, isOpen⟩)
    (exit : base.Marked labels outer.exit
      ⟨height, isOpen && (nullable || past)⟩) :
    Develops count base labels (Nfa.bridgeAgain outer outcome again past)
        later ∧
      ((nullable || past) = true →
        (Nfa.bridgeAgain outer outcome again past).Silent outer.entry
          outer.exit) := by
  obtain ⟨bridges, silent⟩ := spans.bridge outer entry exit
    fun isNullable => by rw [isNullable, Bool.true_or]
  have onto {node : Nat} {label : Label}
      (marked : outcome.1.Marked later node label) :
      (Nfa.bridge outer outcome).Marked later node label :=
    ⟨by rw [size_bridge]; exact marked.inside, marked.label_eq⟩
  have repeats : Develops 0 (Nfa.bridge outer outcome) later
      ((Nfa.bridge outer outcome).addEdgeIf again outcome.2.exit
        (.free outcome.2.entry)) later :=
    bridges.labelled.addFreeIf (onto spans.exit) (onto spans.entry)
      (Nat.le_refl _) fun _ isExit => (Bool.and_eq_true_iff.mp isExit).1
  have isEntry := repeats.marked (bridges.marked entry)
  have passes : Develops 0 _ later
      (Nfa.bridgeAgain outer outcome again past) later :=
    repeats.labelled.addFreeIf isEntry (repeats.marked (bridges.marked exit))
      (Nat.le_refl _) fun isPast isEntry =>
        Bool.and_eq_true_iff.mpr ⟨isEntry, by rw [isPast, Bool.or_true]⟩
  refine ⟨(bridges.trans repeats).trans passes, fun isNullable => ?_⟩
  rcases Bool.or_eq_true_iff.mp isNullable with isInner | rfl
  · exact passes.silent (repeats.silent (silent isInner))
  · exact silent_addEdge isEntry.inside rfl

/-! ## Characters -/

section Characters

variable {height : Nat} {isOpen : Bool} {fragment : Fragment}

theorem develops_addPairs
    {runs : List (CodeRange × RangeList)}
    (labelled : base.Labelled labels)
    (entry : base.Marked labels fragment.entry ⟨height, isOpen⟩)
    (exit : base.Marked labels fragment.exit ⟨height, false⟩) :
    ∃ later, Develops 0 base labels (base.addPairs owner fragment runs)
      later := by
  induction runs generalizing base labels with
  | nil => exact ⟨labels, labelled.develops⟩
  | cons run rest inductionHypothesis =>
      obtain ⟨between, grown, marked⟩ :=
        labelled.addNode owner ⟨height, false⟩
      have enters := grown.labelled.addUnits (CharSet.ofRanges ⟨[run.1]⟩)
        (grown.marked entry) marked (Nat.le_refl _)
      have leaves := enters.labelled.addUnits (CharSet.ofRanges run.2)
        (enters.marked marked) (enters.marked (grown.marked exit))
        (Nat.le_refl _)
      have step := (grown.trans enters).trans leaves
      obtain ⟨later, develops⟩ := inductionHypothesis step.labelled
        (step.marked entry) (step.marked exit)
      rw [addPairs_cons]
      exact ⟨later, step.trans develops⟩

variable [CharacterData]

theorem spans_compileSet
    (characters : CharSet)
    (labelled : base.Labelled labels) :
    ∃ later, Spans 0 height isOpen false base labels
      (base.compileSet owner characters) later := by
  rw [compileSet_eq, addCharacter]
  obtain ⟨between, grown, entry, exit⟩ :=
    labelled.addOuter owner ⟨height, isOpen⟩ ⟨height, false⟩
  have reads (units : CharSet) : Develops 0 (base.addOuter owner) between
      (base.addUnitsBetween owner units) between := by
    unfold addUnitsBetween
    split
    · exact grown.labelled.develops
    · exact grown.labelled.addUnits units entry exit (Nat.le_refl _)
  have step := grown.trans
    (reads (characters.inCase base.anyCase).toUnits)
  obtain ⟨later, develops⟩ := @develops_addPairs owner _ _ height isOpen
    ⟨base.nodes.size, base.nodes.size + 1⟩
    (surrogatePairs (characters.inCase base.anyCase).supplementary)
    step.labelled ((reads _).marked entry) ((reads _).marked exit)
  refine ⟨later, step.trans develops,
    develops.marked ((reads _).marked entry), ?_, by rintro ⟨⟩⟩
  rw [Bool.and_false]
  exact develops.marked ((reads _).marked exit)

theorem spans_compileText
    {start : Nat}
    (characters : List Char)
    (labelled : base.Labelled labels)
    (marked : base.Marked labels start ⟨height, isOpen⟩) :
    ∃ later, Spans 0 height isOpen characters.isEmpty base labels
      ((base.compileText owner start characters).1,
        ⟨start, (base.compileText owner start characters).2⟩) later := by
  induction characters generalizing base labels start isOpen with
  | nil => exact ⟨labels, .nothing labelled marked⟩
  | cons character rest inductionHypothesis =>
      obtain ⟨between, first⟩ := @spans_compileSet owner base labels height
        isOpen _ (CharSet.single character.toNat) labelled
      have joins := first.addFree marked
      obtain ⟨later, second⟩ :=
        inductionHypothesis joins.labelled (joins.marked first.exit)
      exact ⟨later, .cons marked first second⟩

end Characters

/-! ## Patterns -/

section Patterns

variable [CharacterData] {height : Nat} {isOpen : Bool} {items : List Pattern}

/-- The fragment of a pattern can be labelled. -/
def Spannable (pattern : Pattern) : Prop :=
  ∀ {owner : Option Nat} {base : Nfa} {labels : Nat → Label} {height : Nat}
    {isOpen : Bool}, base.Labelled labels →
      base.conditions.size + pattern.lookaheads.length ≤ height →
        ∃ later, Spans pattern.lookaheads.length height isOpen
          pattern.isNullable base labels (base.compile owner pattern) later

theorem spans_compileSequence
    {start : Nat}
    (labelled : base.Labelled labels)
    (marked : base.Marked labels start ⟨height, isOpen⟩)
    (below : base.conditions.size + (Pattern.allLookaheads items).length ≤
      height)
    (spannable : ∀ item ∈ items, Spannable item) :
    ∃ later, Spans (Pattern.allLookaheads items).length height isOpen
      (Pattern.allNullable items) base labels
      ((base.compileSequence owner start items).1,
        ⟨start, (base.compileSequence owner start items).2⟩) later := by
  induction items generalizing base labels start isOpen with
  | nil =>
      rw [compileSequence, Pattern.allLookaheads, Pattern.allNullable]
      exact ⟨labels, .nothing labelled marked⟩
  | cons item rest inductionHypothesis =>
      obtain ⟨itemSpannable, restSpannable⟩ := List.forall_mem_cons.mp spannable
      rw [Pattern.allLookaheads, List.length_append] at below ⊢
      rw [compileSequence, Pattern.allNullable]
      obtain ⟨between, first⟩ := @itemSpannable owner base labels height isOpen
        labelled (by omega)
      have joins := first.addFree marked
      have counted := (first.trans joins).count_eq
      obtain ⟨later, second⟩ := inductionHypothesis joins.labelled
        (joins.marked first.exit) (by omega) restSpannable
      exact ⟨later, .cons marked first second⟩

theorem develops_compileBranches
    {outer : Fragment}
    {wide : Bool}
    (labelled : base.Labelled labels)
    (entry : base.Marked labels outer.entry ⟨height, isOpen⟩)
    (exit : base.Marked labels outer.exit ⟨height, isOpen && wide⟩)
    (within : Pattern.anyNullable items = true → wide = true)
    (below : base.conditions.size + (Pattern.allLookaheads items).length ≤
      height)
    (spannable : ∀ item ∈ items, Spannable item) :
    ∃ later, Develops (Pattern.allLookaheads items).length base labels
        (base.compileBranches owner outer items) later ∧
      (Pattern.anyNullable items = true →
        (base.compileBranches owner outer items).Silent outer.entry
          outer.exit) := by
  induction items generalizing base labels with
  | nil =>
      rw [compileBranches, Pattern.allLookaheads, Pattern.anyNullable]
      exact ⟨labels, labelled.develops, by rintro ⟨⟩⟩
  | cons item rest inductionHypothesis =>
      obtain ⟨itemSpannable, restSpannable⟩ := List.forall_mem_cons.mp spannable
      rw [Pattern.allLookaheads, List.length_append] at below ⊢
      rw [Pattern.anyNullable, Bool.or_eq_true] at within ⊢
      rw [compileBranches]
      obtain ⟨between, spans⟩ := @itemSpannable owner base labels height isOpen
        labelled (by omega)
      obtain ⟨first, firstSilent⟩ := spans.bridge outer entry exit
        fun isNullable => within (.inl isNullable)
      have counted := first.count_eq
      obtain ⟨later, others, othersSilent⟩ := inductionHypothesis first.labelled
        (first.marked entry) (first.marked exit)
        (fun isNullable => within (.inr isNullable)) (by omega) restSpannable
      refine ⟨later, first.trans others, ?_⟩
      rintro (isNullable | isNullable)
      · exact others.silent (firstSilent isNullable)
      · exact othersSilent isNullable

theorem spannable_concat (spannable : ∀ item ∈ items, Spannable item) :
    Spannable (.concat items) := by
  intro owner base labels height isOpen labelled below
  rw [Pattern.lookaheads] at below ⊢
  rw [compile, Pattern.isNullable]
  obtain ⟨between, grown, marked⟩ := labelled.addNode owner ⟨height, isOpen⟩
  obtain ⟨later, spans⟩ := @spans_compileSequence owner _ _ _ _ _ items _
    grown.labelled marked (by rwa [grown.count_eq]) spannable
  exact ⟨later, spans.after grown⟩

theorem spannable_alternate (spannable : ∀ item ∈ items, Spannable item) :
    Spannable (.alternate items) := by
  intro owner base labels height isOpen labelled below
  rw [Pattern.lookaheads] at below ⊢
  rw [compile_alternate, Pattern.isNullable]
  obtain ⟨between, grown, entry, exit⟩ := labelled.addOuter owner
    ⟨height, isOpen⟩ ⟨height, isOpen && Pattern.anyNullable items⟩
  obtain ⟨later, develops, silent⟩ := @develops_compileBranches owner _ _ _ _ _
    items ⟨base.nodes.size, base.nodes.size + 1⟩ _ grown.labelled entry exit id
    (by rwa [grown.count_eq]) spannable
  exact ⟨later, grown.after develops, develops.marked entry,
    develops.marked exit, silent⟩

theorem spannable_repeat
    {item : Pattern}
    (repetition : Repetition)
    (spannable : Spannable item) :
    Spannable (.repeat item repetition) := by
  intro owner base labels height isOpen labelled below
  have isNullable : (Pattern.repeat item repetition).isNullable =
      (item.isNullable || repetition != .oneOrMore) := by
    cases repetition <;> simp [Pattern.isNullable]
  rw [Pattern.lookaheads] at below ⊢
  rw [compile_repeat, isNullable]
  obtain ⟨between, grown, entry, exit⟩ := labelled.addOuter owner
    ⟨height, isOpen⟩
    ⟨height, isOpen && (item.isNullable || repetition != .oneOrMore)⟩
  obtain ⟨later, spans⟩ := @spannable owner _ _ height isOpen grown.labelled
    (by rwa [grown.count_eq])
  obtain ⟨develops, silent⟩ := spans.bridgeAgain
    ⟨base.nodes.size, base.nodes.size + 1⟩ (repetition != .optional)
    (repetition != .oneOrMore) entry exit
  exact ⟨later, grown.after develops, develops.marked entry,
    develops.marked exit, silent⟩

omit [CharacterData] in
/-- The fragment of a condition is closed apart, no higher than the number of
the condition. -/
theorem develops_closeCondition
    {count : Nat}
    {nullable : Bool}
    {outcome : Nfa × Fragment}
    (spans : Spans count (base.conditions.size + count) isOpen nullable base
      labels outcome later) :
    Develops (count + 1) base labels (closeCondition outcome) later := by
  have accepts := spans.labelled.setAccept .condition spans.exit
    (by rintro _ ⟨⟩)
  have counted : base.conditions.size + count =
      (outcome.1.setAccept outcome.2.exit .condition).conditions.size := by
    rw [accepts.count_eq, spans.count_eq, Nat.add_zero]
  have closes := accepts.labelled.addCondition (accepts.marked spans.entry)
    (Nat.le_of_eq counted)
  exact (spans.trans accepts).trans closes

omit [CharacterData] in
/-- A test of a condition below the height, between two fresh nodes. -/
theorem spans_addTest
    {number : Nat}
    {negated : Bool}
    (labelled : base.Labelled labels)
    (below : number < height)
    (known : number < base.conditions.size) :
    ∃ later, Spans 0 height isOpen true base labels
      (base.addTest owner number negated,
        ⟨base.nodes.size, base.nodes.size + 1⟩) later := by
  obtain ⟨later, grown, entry, exit⟩ := labelled.addOuter owner
    ⟨height, isOpen⟩ ⟨height, isOpen && true⟩
  have tests : Develops 0 (base.addOuter owner) later
      (base.addTest owner number negated) later := by
    refine grown.labelled.addEdge entry exit
      ⟨Nat.le_refl _, fun _ isEntry => ?_, ?_⟩
    · exact Bool.and_eq_true_iff.mpr ⟨isEntry, rfl⟩
    · rintro _ ⟨⟩
      exact ⟨below, grown.count_eq ▸ known⟩
  exact ⟨later, grown.trans tests, tests.marked entry, tests.marked exit,
    fun _ => silent_addEdge entry.inside rfl⟩

theorem spannable_lookahead
    {condition : Pattern}
    (negated : Bool)
    (spannable : Spannable condition) :
    Spannable (.lookahead condition negated) := by
  intro owner base labels height isOpen labelled below
  rw [Pattern.lookaheads, List.length_append, List.length_singleton] at below ⊢
  rw [compile_lookahead, Pattern.isNullable]
  -- The height of the fragment is the number that the condition will have.
  obtain ⟨between, spans⟩ := @spannable none _ _
    (base.conditions.size + condition.lookaheads.length) false labelled
    (Nat.le_refl _)
  have number := spans.count_eq
  have closes := develops_closeCondition spans
  have counted := closes.count_eq
  obtain ⟨later, tests⟩ := @spans_addTest owner _ _ height isOpen
    (base.compile none condition).1.conditions.size negated closes.labelled
    (by omega) (by omega)
  exact ⟨later, closes.trans tests.toDevelops, tests.entry, tests.exit,
    tests.silent⟩

theorem spannable_all (pattern : Pattern) : Spannable pattern := by
  induction pattern using Pattern.induction with
  | text content =>
      intro owner base labels height isOpen labelled below
      rw [compile, Pattern.lookaheads, Pattern.isNullable]
      obtain ⟨between, grown, marked⟩ :=
        labelled.addNode owner ⟨height, isOpen⟩
      obtain ⟨later, spans⟩ := @spans_compileText owner _ _ _ _ _ _
        content.toList grown.labelled marked
      have sameEmpty : content.isEmpty = content.toList.isEmpty := by
        rw [Bool.eq_iff_iff, String.isEmpty_iff, List.isEmpty_iff,
          String.toList_eq_nil_iff]
      rw [sameEmpty]
      exact ⟨later, spans.after grown⟩
  | set characters =>
      intro owner base labels height isOpen labelled below
      rw [compile, Pattern.lookaheads, Pattern.isNullable]
      exact spans_compileSet characters labelled
  | concat items inductionHypothesis =>
      exact spannable_concat inductionHypothesis
  | alternate items inductionHypothesis =>
      exact spannable_alternate inductionHypothesis
  | repeated item repetition inductionHypothesis =>
      exact spannable_repeat repetition inductionHypothesis
  | lookahead condition negated inductionHypothesis =>
      exact spannable_lookahead negated inductionHypothesis

end Patterns

/-! ## Terminals -/

section Terminals

variable {height : Nat} {isOpen : Bool} {start index : Nat}

/-- A fragment behind a node is made that of a terminal. -/
theorem Spans.closeTerminal
    {count : Nat}
    {nullable : Bool}
    {outcome : Nfa × Fragment}
    (index : Nat)
    (spans : Spans count height isOpen nullable base labels outcome later)
    (marked : base.Marked labels start ⟨height, isOpen⟩)
    (closed : (isOpen && nullable) = false) :
    Develops count base labels (closeTerminal start index outcome) later ∧
      (nullable = true →
        (Nfa.closeTerminal start index outcome).Silent start
          outcome.2.exit) := by
  have accepts := spans.labelled.setAccept (.terminal index) spans.exit
    fun _ _ => closed
  have isStart := accepts.marked (spans.marked marked)
  have enters := accepts.labelled.addFree isStart (accepts.marked spans.entry)
    (Nat.le_refl _) id
  refine ⟨(spans.trans accepts).trans enters, fun isNullable => ?_⟩
  have intoEntry : (Nfa.closeTerminal start index outcome).Silent start
      outcome.2.entry := silent_addEdge isStart.inside rfl
  exact intoEntry.trans (enters.silent (accepts.silent (spans.silent isNullable)))

variable [CharacterData] {patterns : List Pattern}

theorem develops_addTerminals
    (labelled : base.Labelled labels)
    (marked : base.Marked labels start ⟨height, isOpen⟩)
    (below : base.conditions.size + (Pattern.allLookaheads patterns).length ≤
      height)
    (closed : ∀ pattern ∈ patterns, (isOpen && pattern.isNullable) = false) :
    ∃ later, Develops (Pattern.allLookaheads patterns).length base labels
      (base.addTerminals start index patterns) later := by
  induction patterns generalizing base labels index with
  | nil => exact ⟨labels, labelled.develops⟩
  | cons pattern rest inductionHypothesis =>
      obtain ⟨isClosed, restClosed⟩ := List.forall_mem_cons.mp closed
      rw [Pattern.allLookaheads, List.length_append] at below ⊢
      rw [addTerminals]
      obtain ⟨between, spans⟩ := @spannable_all _ pattern (some index) _ _
        height isOpen labelled (by omega)
      obtain ⟨first, -⟩ := spans.closeTerminal index marked isClosed
      have counted := first.count_eq
      obtain ⟨later, others⟩ := @inductionHypothesis _ _ (index + 1)
        first.labelled (first.marked marked) (by omega) restClosed
      exact ⟨later, first.trans others⟩

omit [CharacterData] in
theorem labelled_empty (anyCase : Bool) (labels : Nat → Label) :
    (empty anyCase).Labelled labels := by
  have isEmpty (node : Nat) : (empty anyCase).node node = ⟨[], none, none⟩ :=
    node_of_size_le (Nat.zero_le node)
  refine ⟨?_, ?_, ?_⟩
  · intro node edge member
    rw [isEmpty] at member
    cases member
  · rintro number entry ⟨⟩
  · intro node index accepts
    rw [isEmpty] at accepts
    cases accepts

/-- The automaton of some patterns can be labelled. If the start is open, no
pattern may be nullable. -/
theorem exists_labelled
    (anyCase isOpen : Bool)
    (closed : ∀ pattern ∈ patterns, (isOpen && pattern.isNullable) = false) :
    ∃ labels, (ofPatterns anyCase patterns).Labelled labels ∧
      (ofPatterns anyCase patterns).Marked labels 0
        ⟨(Pattern.allLookaheads patterns).length, isOpen⟩ ∧
      (ofPatterns anyCase patterns).conditions.size =
        (Pattern.allLookaheads patterns).length := by
  obtain ⟨between, grown, marked⟩ :=
    (labelled_empty anyCase fun _ => ⟨0, false⟩).addNode none
      ⟨(Pattern.allLookaheads patterns).length, isOpen⟩
  have counted := grown.count_eq
  obtain ⟨labels, develops⟩ := @develops_addTerminals _ _ _ _ 0 0 _ patterns
    grown.labelled marked (Nat.le_of_eq (Nat.zero_add _)) closed
  exact ⟨labels, develops.labelled, develops.marked marked,
    develops.count_eq.trans (Nat.zero_add _)⟩

/-- A nullable pattern can be passed without reading anything. -/
theorem exists_silent_of_isNullable
    (anyCase : Bool)
    {pattern : Pattern}
    (isNullable : pattern.isNullable = true) :
    ∃ node, (ofPatterns anyCase [pattern]).Silent 0 node ∧
      ((ofPatterns anyCase [pattern]).node node).accept =
        some (.terminal 0) := by
  obtain ⟨between, grown, marked⟩ :=
    (labelled_empty anyCase fun _ => ⟨0, false⟩).addNode none
      ⟨pattern.lookaheads.length, false⟩
  obtain ⟨labels, spans⟩ := @spannable_all _ pattern (some 0) _ _
    pattern.lookaheads.length false grown.labelled
    (Nat.le_of_eq (Nat.zero_add _))
  obtain ⟨-, silent⟩ := spans.closeTerminal 0 marked rfl
  have isOutcome : ofPatterns anyCase [pattern] = closeTerminal 0 0
      (((empty anyCase).addNode none).1.compile (some 0) pattern) := rfl
  rw [isOutcome]
  refine ⟨_, silent isNullable, ?_⟩
  rw [closeTerminal, accept_addEdge, node_setAccept_self spans.exit.inside]

end Terminals

end Nfa
end Lexical
end ParserGenerator
