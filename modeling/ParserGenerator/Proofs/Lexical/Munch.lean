import ParserGenerator.Proofs.Lexical.Branches

/-!
# The longest match

Walking through the deterministic automaton of some terminals finds the
longest match: a walk keeps the nodes that the input read so far leads to,
without those of lazy terminals that have already matched. Walks that decide
conditions are of the same kind and come first.
-/

namespace ParserGenerator
namespace Lexical

variable [CharacterData] {nfa : Nfa} {holds : Nat → List CodeUnit → Prop}
  {isLazy : Nat → Bool} {anyCase : Bool} {patterns : List Pattern}

namespace Nfa

/-! ## What some nodes do -/

section Nodes

variable {nodes : List Nat} {index : Nat}

omit [CharacterData] in
theorem meetsCondition_iff :
    nfa.meetsCondition nodes = true ↔
      ∃ node ∈ nodes, (nfa.node node).accept = some .condition := by
  simp [meetsCondition]

omit [CharacterData] in
theorem mem_finished :
    index ∈ nfa.finished isLazy nodes ↔ isLazy index = true ∧
      ∃ node ∈ nodes, (nfa.node node).accept = some (.terminal index) := by
  rw [finished, List.mem_filterMap]
  constructor
  · rintro ⟨node, isNode, found⟩
    split at found
    · next other accepts =>
        simp only [Option.ite_none_right_eq_some, Option.some.injEq] at found
        obtain ⟨isLazyIndex, rfl⟩ := found
        exact ⟨isLazyIndex, node, isNode, accepts⟩
    · cases found
  · rintro ⟨isLazyIndex, node, isNode, accepts⟩
    exact ⟨node, isNode, by simp [accepts, isLazyIndex]⟩

omit [CharacterData] in
/-- Where no condition is met, the nodes read whose owners have not
finished. -/
theorem mem_readingEdges
    {characters : CharSet}
    {target : Nat}
    (unmet : nfa.meetsCondition nodes = false) :
    (characters, target) ∈ nfa.readingEdges isLazy nodes ↔
      ∃ node ∈ nodes, .units characters target ∈ (nfa.node node).edges ∧
        ∀ index ∈ nfa.finished isLazy nodes,
          (nfa.node node).owner ≠ some index := by
  rw [readingEdges, unmet]
  simp only [Bool.false_eq_true, if_false, List.mem_flatMap]
  refine exists_congr fun node => and_congr_right fun _ => ?_
  have isEdge : (characters, target) ∈
      (nfa.node node).edges.filterMap Edge.reading? ↔
        .units characters target ∈ (nfa.node node).edges := by
    rw [List.mem_filterMap]
    constructor
    · rintro ⟨edge, member, reads⟩
      cases edge with
      | free other => cases reads
      | units others other =>
          obtain ⟨rfl, rfl⟩ := Prod.mk.inj (Option.some.inj reads)
          exact member
      | test condition negated other => cases reads
    · intro member
      exact ⟨_, member, rfl⟩
  cases isOwner : (nfa.node node).owner with
  | none => simp [isEdge]
  | some owner =>
      by_cases isFinished : owner ∈ nfa.finished isLazy nodes
      · simp [isFinished]
      · have others : ∀ index ∈ nfa.finished isLazy nodes, owner ≠ index := by
          rintro index member rfl
          exact isFinished member
        simpa [isFinished, isEdge] using fun _ => others

end Nodes

/-- A place that some seeds lead to. -/
def Leads (nfa : Nfa) (holds : Nat → List CodeUnit → Prop) (seeds : List Nat)
    (text : List CodeUnit) (place : Place) : Prop :=
  ∃ seed ∈ seeds, nfa.Reaches holds (seed, text) place

section Leading

variable {seeds nodes : List Nat} {unit : CodeUnit} {rest : List CodeUnit}
  {place : Place}

/-- Where some seeds lead to is one of the nodes reached without reading, or
lies behind one of their edges over the next unit. -/
theorem leads_cons_iff
    (reached : ∀ node, node ∈ nodes ↔
      nfa.Leads holds seeds (unit :: rest) (node, unit :: rest)) :
    nfa.Leads holds seeds (unit :: rest) place ↔
      place.2 = unit :: rest ∧ place.1 ∈ nodes ∨
        ∃ node ∈ nodes, ∃ characters target,
          .units characters target ∈ (nfa.node node).edges ∧
            characters.contains unit.toNat = true ∧
              nfa.Reaches holds (target, rest) place := by
  constructor
  · rintro ⟨seed, isSeed, reaches⟩
    rcases reaches.idles_or_reads with
      ⟨idles, isText⟩ | ⟨node, target, first, others, isText, idles, reads,
        onward⟩
    · refine .inl ⟨isText, (reached _).mpr ⟨seed, isSeed, ?_⟩⟩
      exact idles.reaches
    · obtain ⟨rfl, rfl⟩ := List.cons.inj isText
      obtain ⟨characters, isEdge, isHeld⟩ := step_unit_iff.mp reads
      exact .inr ⟨node, (reached node).mpr ⟨seed, isSeed, idles.reaches⟩,
        characters, target, isEdge, isHeld, onward⟩
  · rintro (⟨isText, isNode⟩ |
      ⟨node, isNode, characters, target, isEdge, isHeld, onward⟩)
    · obtain ⟨node, text⟩ := place
      obtain rfl : text = unit :: rest := isText
      exact (reached node).mp isNode
    · obtain ⟨seed, isSeed, reaches⟩ := (reached node).mp isNode
      have reads : nfa.Step holds (node, unit :: rest) (target, rest) :=
        step_unit_iff.mpr ⟨characters, isEdge, isHeld⟩
      exact ⟨seed, isSeed, (reaches.trans (.single reads)).trans onward⟩

/-- Where the input ends some seeds lead to the nodes reached without
reading. -/
theorem leads_nil_iff
    (reached : ∀ node, node ∈ nodes ↔ nfa.Leads holds seeds [] (node, [])) :
    nfa.Leads holds seeds [] place ↔ place.2 = [] ∧ place.1 ∈ nodes := by
  obtain ⟨node, text⟩ := place
  constructor
  · rintro ⟨seed, isSeed, reaches⟩
    obtain rfl : text = [] := List.suffix_nil.mp reaches.suffix
    exact ⟨rfl, (reached node).mpr ⟨seed, isSeed, reaches⟩⟩
  · rintro ⟨isText, isNode⟩
    obtain rfl : text = [] := isText
    exact (reached node).mp isNode

theorem mem_unitTargets {edges : List (CharSet × Nat)} {target : Nat} :
    target ∈ unitTargets edges unit.toNat ↔ ∃ characters,
      (characters, target) ∈ edges ∧
        characters.contains unit.toNat = true := by
  simp only [unitTargets, mem_ascending, List.mem_map, List.mem_filter]
  constructor
  · rintro ⟨⟨characters, _⟩, ⟨isEdge, isHeld⟩, rfl⟩
    exact ⟨characters, isEdge, isHeld⟩
  · rintro ⟨characters, isEdge, isHeld⟩
    exact ⟨_, ⟨isEdge, isHeld⟩, rfl⟩

/-- A path from a tidy node stays with one owner. -/
theorem Reaches.owner
    {first last : Place}
    (tidy : nfa.Tidy 1)
    (positive : 0 < first.1)
    (reaches : nfa.Reaches holds first last) :
    0 < last.1 ∧ (nfa.node last.1).owner = (nfa.node first.1).owner := by
  obtain ⟨length, path⟩ := reaches
  induction path with
  | here => exact ⟨positive, rfl⟩
  | step step _ inductionHypothesis =>
      obtain ⟨edge, isEdge, isTarget⟩ := step.target
      have inside := (tidy.target positive isEdge).1
      have sameOwner := tidy.owner positive isEdge
      rw [isTarget] at inside sameOwner
      obtain ⟨lastPositive, lastOwner⟩ := inductionHypothesis inside
      exact ⟨lastPositive, lastOwner.trans sameOwner⟩

end Leading

end Nfa

omit [CharacterData] in
theorem Walk.Tells.afterUnit
    {statement : Prop}
    {walk : Walk}
    (tells : walk.Tells statement) :
    (walk.afterUnit none).Tells statement := by
  constructor
  · intro holds
    obtain ⟨⟨terminal, distance⟩, rfl⟩ := tells.1 holds
    exact ⟨_, rfl⟩
  · intro fails
    rw [tells.2 fails]
    rfl

namespace Automaton

variable {automaton : Automaton} {keys : Array Key} {text : List CodeUnit}
  {seeds : List Nat} {state : State} {number : Nat}

/-! ## Walks as readings -/

/-- What comes next in a text that ends. -/
def aheadOf (automaton : Automaton) : List CodeUnit → Ahead
  | [] => none
  | unit :: rest => some (unit, automaton.walk true rest)

theorem walk_eq_walkHere (text : List CodeUnit) :
    automaton.walk true text =
      automaton.walkHere true (automaton.aheadOf text)
        (automaton.states.size + 1) := by
  cases text <;> rfl

/-- What a state does that reads at a place. -/
structure Reading (nfa : Nfa) (isLazy : Nat → Bool)
    (holds : Nat → List CodeUnit → Prop) (keys : Array Key)
    (text : List CodeUnit) (seeds nodes : List Nat) (state : State) :
    Prop where
  /-- The nodes are those that are reached without reading. -/
  reached : ∀ node, node ∈ nodes ↔ nfa.Leads holds seeds text (node, text)
  /-- The terminal is the first one that is accepted. -/
  terminal : state.terminal = nfa.terminal? nodes
  /-- The state accepts terminals and conditions. -/
  isFinal : state.isFinal =
    ((nfa.terminal? nodes).isSome || nfa.meetsCondition nodes)
  /-- The units lead to the states of the nodes behind the edges. -/
  next : ∀ unit, Numbering.Resolves nfa keys
    (unitTargets (nfa.readingEdges isLazy nodes) unit.toNat) (state.next unit)

theorem ReadsFrom.exists_reading
    (decisive : nfa.Decisive)
    (inside : ∀ seed ∈ seeds, seed < nfa.nodes.size)
    (readsFrom : automaton.ReadsFrom nfa isLazy holds keys text seeds state) :
    ∃ nodes, Reading nfa isLazy holds keys text seeds nodes state := by
  obtain ⟨number, key, -, -, expands, complete, fits⟩ := readsFrom
  rw [Numbering.Expands, complete] at expands
  obtain ⟨-, terminal, isFinal, next⟩ := expands
  exact ⟨key.nodes, fun node =>
    fits.mem_nodes_iff decisive inside complete, terminal, isFinal, next⟩

/-! ## Conditions -/

/-- A fragment of a condition: its nodes have no owner. -/
def Unowned (nfa : Nfa) (seeds : List Nat) : Prop :=
  ∀ seed ∈ seeds, 0 < seed ∧ seed < nfa.nodes.size ∧
    (nfa.node seed).owner = none

/-- Some seeds lead to where a condition is met. -/
def Meets (nfa : Nfa) (holds : Nat → List CodeUnit → Prop) (seeds : List Nat)
    (text : List CodeUnit) : Prop :=
  ∃ place, nfa.Leads holds seeds text place ∧
    (nfa.node place.1).accept = some .condition

/-- Reading on from the fragment of a condition tells whether it is met. -/
theorem Reading.tells
    {nodes : List Nat}
    (stands : nfa.StandsFor anyCase patterns holds)
    (reading : Reading nfa isLazy holds keys text seeds nodes state)
    (unowned : Unowned nfa seeds)
    (later : ∀ unit rest, text = unit :: rest → ∀ number others,
      Unowned nfa others → keys[number]? = some (nfa.freshKey others) →
        (automaton.walk true rest true number).Tells
          (Meets nfa holds others rest)) :
    (read state true true (automaton.aheadOf text)).Tells
      (Meets nfa holds seeds text) := by
  have nodeUnowned : ∀ node ∈ nodes, 0 < node ∧
      (nfa.node node).owner = none := by
    intro node isNode
    obtain ⟨seed, isSeed, reaches⟩ := (reading.reached node).mp isNode
    obtain ⟨positive, -, noOwner⟩ := unowned seed isSeed
    obtain ⟨nodePositive, sameOwner⟩ := reaches.owner stands.tidy positive
    exact ⟨nodePositive, sameOwner.trans noOwner⟩
  have noTerminal : nfa.terminal? nodes = none := by
    rw [Nfa.terminal?_eq_none_iff]
    intro node isNode index accepts
    obtain ⟨positive, noOwner⟩ := nodeUnowned node isNode
    rw [stands.tidy.accept positive accepts] at noOwner
    cases noOwner
  have isFinal : state.isFinal = nfa.meetsCondition nodes := by
    rw [reading.isFinal, noTerminal]
    rfl
  cases met : nfa.meetsCondition nodes with
  | true =>
      rw [met] at isFinal
      have isRead : read state true true (automaton.aheadOf text) =
          .stopped (some (state.terminal, 0)) := by
        simp [read, isFinal]
      obtain ⟨node, isNode, accepts⟩ := Nfa.meetsCondition_iff.mp met
      refine ⟨fun _ => ⟨_, isRead⟩, fun unmet => absurd ?_ unmet⟩
      exact ⟨(node, text), (reading.reached node).mp isNode, accepts⟩
  | false =>
      rw [met] at isFinal
      have unmet : ∀ node ∈ nodes,
          (nfa.node node).accept ≠ some .condition := by
        intro node isNode accepts
        rw [Nfa.meetsCondition_iff.mpr ⟨node, isNode, accepts⟩] at met
        cases met
      cases text with
      | nil =>
          have fails : ¬ Meets nfa holds seeds [] := by
            rintro ⟨place, leads, accepts⟩
            exact unmet _ ((Nfa.leads_nil_iff reading.reached).mp leads).2
              accepts
          refine ⟨fun isMet => absurd isMet fails, fun _ => ?_⟩
          simp [read, aheadOf, isFinal]
      | cons unit rest =>
          obtain ⟨targets, isTargets⟩ : ∃ targets, targets =
            unitTargets (nfa.readingEdges isLazy nodes) unit.toNat := ⟨_, rfl⟩
          have mem_targets (target : Nat) : target ∈ targets ↔
              ∃ node ∈ nodes, ∃ characters,
                .units characters target ∈ (nfa.node node).edges ∧
                  characters.contains unit.toNat = true := by
            rw [isTargets, Nfa.mem_unitTargets]
            simp only [Nfa.mem_readingEdges met]
            constructor
            · rintro ⟨characters, ⟨node, isNode, isEdge, -⟩, isHeld⟩
              exact ⟨node, isNode, characters, isEdge, isHeld⟩
            · rintro ⟨node, isNode, characters, isEdge, isHeld⟩
              refine ⟨characters, ⟨node, isNode, isEdge, ?_⟩, isHeld⟩
              intro index _ isOwner
              rw [(nodeUnowned node isNode).2] at isOwner
              cases isOwner
          have onward : Meets nfa holds seeds (unit :: rest) ↔
              Meets nfa holds targets rest := by
            constructor
            · rintro ⟨place, leads, accepts⟩
              rcases (Nfa.leads_cons_iff reading.reached).mp leads with
                ⟨-, isNode⟩ |
                  ⟨node, isNode, characters, target, isEdge, isHeld, reaches⟩
              · exact absurd accepts (unmet _ isNode)
              · exact ⟨place, ⟨target, (mem_targets target).mpr
                  ⟨node, isNode, characters, isEdge, isHeld⟩, reaches⟩, accepts⟩
            · rintro ⟨place, ⟨target, isTarget, reaches⟩, accepts⟩
              obtain ⟨node, isNode, characters, isEdge, isHeld⟩ :=
                (mem_targets target).mp isTarget
              exact ⟨place, (Nfa.leads_cons_iff reading.reached).mpr
                (.inr ⟨node, isNode, characters, target, isEdge, isHeld,
                  reaches⟩), accepts⟩
          have resolves := reading.next unit
          rw [← isTargets] at resolves
          rw [onward]
          rcases resolves with ⟨noTargets, isNext⟩ |
            ⟨-, next, isNext, isKey⟩
          · have fails : ¬ Meets nfa holds targets rest := by
              rintro ⟨place, ⟨target, isTarget, -⟩, -⟩
              rw [noTargets] at isTarget
              cases isTarget
            refine ⟨fun isMet => absurd isMet fails, fun _ => ?_⟩
            simp [read, aheadOf, isFinal, isNext]
          · have targetsUnowned : Unowned nfa targets := by
              intro target isTarget
              obtain ⟨node, isNode, characters, isEdge, -⟩ :=
                (mem_targets target).mp isTarget
              obtain ⟨positive, noOwner⟩ := nodeUnowned node isNode
              obtain ⟨above, inside⟩ := stands.tidy.target positive isEdge
              exact ⟨above, inside,
                (stands.tidy.owner positive isEdge).trans noOwner⟩
            have tells := later unit rest rfl next targets targetsUnowned isKey
            have isRead : read state true true
                (automaton.aheadOf (unit :: rest)) =
                (automaton.walk true rest true next).afterUnit none := by
              simp [read, aheadOf, isFinal, isNext]
            rw [isRead]
            exact tells.afterUnit

/-- A walk reads on from a state with all nodes reached at its place, provided
that conditions are told by what comes later. -/
theorem exists_reading_of_later
    (stands : nfa.StandsFor anyCase patterns holds)
    (keyed : Keyed nfa isLazy keys automaton.states)
    (later : ∀ unit rest, text = unit :: rest → ∀ number others,
      Unowned nfa others → keys[number]? = some (nfa.freshKey others) →
        (automaton.walk true rest true number).Tells
          (Meets nfa holds others rest))
    (inside : ∀ seed ∈ seeds, seed < nfa.nodes.size)
    (isKey : keys[number]? = some (nfa.freshKey seeds))
    (first : Bool) :
    ∃ nodes state, Reading nfa isLazy holds keys text seeds nodes state ∧
      automaton.walk true text first number =
        read state true first (automaton.aheadOf text) := by
  have decisive := stands.decisive
  have decides : ∀ condition < nfa.conditions.size, ∀ state,
      automaton.ReadsFrom nfa isLazy holds keys text
        [Numbering.conditionEntry nfa condition] state →
          (read state true true (automaton.aheadOf text)).Tells
            (holds condition text) := by
    intro condition known state readsFrom
    have settled := stands.settled condition known
    have unowned : Unowned nfa [Numbering.conditionEntry nfa condition] :=
      List.forall_mem_singleton.mpr
        ⟨settled.entryFresh, settled.entryInside, settled.owner⟩
    obtain ⟨nodes, reading⟩ := readsFrom.exists_reading decisive
      (List.forall_mem_singleton.mpr settled.entryInside)
    have isMet : holds condition text ↔
        Meets nfa holds [Numbering.conditionEntry nfa condition] text := by
      rw [settled.meets]
      simp [Meets, Nfa.Leads]
    rw [isMet]
    exact reading.tells stands unowned later
  have enough : depth nfa keys number < automaton.states.size + 1 := by
    rw [keyed.size_eq]
    exact Nat.lt_succ_of_le (depth_le nfa keys number)
  obtain ⟨state, readsFrom, isRead⟩ :=
    @exists_walkHere_eq_read _ nfa holds automaton isLazy keys text seeds
      (automaton.aheadOf text) number _ _ first keyed decisive stands.settled
      decides isKey (Key.fits_freshKey decisive text seeds) enough
  obtain ⟨nodes, reading⟩ := readsFrom.exists_reading decisive inside
  exact ⟨nodes, state, reading, by rw [walk_eq_walkHere, isRead]⟩

/-- Walking from the fragment of a condition tells whether it is met. -/
theorem walk_tells
    {text : List CodeUnit}
    {seeds : List Nat}
    {number : Nat}
    (stands : nfa.StandsFor anyCase patterns holds)
    (keyed : Keyed nfa isLazy keys automaton.states)
    (unowned : Unowned nfa seeds)
    (isKey : keys[number]? = some (nfa.freshKey seeds)) :
    (automaton.walk true text true number).Tells
      (Meets nfa holds seeds text) := by
  have later : ∀ unit rest, text = unit :: rest → ∀ number others,
      Unowned nfa others → keys[number]? = some (nfa.freshKey others) →
        (automaton.walk true rest true number).Tells
          (Meets nfa holds others rest) := by
    intro unit rest isText number others othersUnowned isKey
    exact walk_tells stands keyed othersUnowned isKey
  obtain ⟨nodes, state, reading, isRead⟩ := exists_reading_of_later stands
    keyed later (fun seed isSeed => (unowned seed isSeed).2.1) isKey true
  rw [isRead]
  exact reading.tells stands unowned later
termination_by text.length
decreasing_by simp [isText]

/-- A walk reads on from a state with all nodes reached at its place. -/
theorem exists_reading
    (stands : nfa.StandsFor anyCase patterns holds)
    (keyed : Keyed nfa isLazy keys automaton.states)
    (inside : ∀ seed ∈ seeds, seed < nfa.nodes.size)
    (isKey : keys[number]? = some (nfa.freshKey seeds))
    (first : Bool) :
    ∃ nodes state, Reading nfa isLazy holds keys text seeds nodes state ∧
      automaton.walk true text first number =
        read state true first (automaton.aheadOf text) :=
  exists_reading_of_later stands keyed
    (fun _ _ _ _ _ unowned isKey => walk_tells stands keyed unowned isKey)
    inside isKey first

/-! ## Terminals -/

/-- The start or nodes of terminals. -/
def Owned (nfa : Nfa) (seeds : List Nat) : Prop :=
  ∀ seed ∈ seeds, seed < nfa.nodes.size ∧
    (seed ≠ 0 → (nfa.node seed).owner ≠ none)

/-- Some seeds lead to where a terminal is accepted, with a text left. -/
def Accepts (nfa : Nfa) (holds : Nat → List CodeUnit → Prop)
    (seeds : List Nat) (text : List CodeUnit) (index : Nat)
    (after : List CodeUnit) : Prop :=
  ∃ node, nfa.Leads holds seeds text (node, after) ∧
    (nfa.node node).accept = some (.terminal index)

/-- A match of a terminal, the shortest one if the terminal is lazy. -/
def Offers (nfa : Nfa) (holds : Nat → List CodeUnit → Prop)
    (isLazy : Nat → Bool) (seeds : List Nat) (text : List CodeUnit)
    (index : Nat) (after : List CodeUnit) : Prop :=
  Accepts nfa holds seeds text index after ∧
    (isLazy index = true → ∀ other,
      Accepts nfa holds seeds text index other → other.length ≤ after.length)

end Automaton

/-- A walk ends with the longest of the matches offered, at one length that of
the first terminal. -/
def Walk.Best (offered : Nat → List CodeUnit → Prop) (text : List CodeUnit) :
    Walk → Prop
  | .stopped (some (some index, distance)) =>
      distance ≤ text.length ∧ offered index (text.drop distance) ∧
        ∀ other after, offered other after →
          text.length < after.length + distance ∨
            text.length = after.length + distance ∧ index ≤ other
  | .stopped (some (none, _)) => False
  | .stopped none => ∀ index after, ¬ offered index after
  | .needMore => False

namespace Automaton

variable {automaton : Automaton} {keys : Array Key} {text : List CodeUnit}
  {seeds : List Nat} {state : State} {number : Nat}

omit [CharacterData] in
/-- What is accepted at a place before anything is read. -/
theorem best_here
    {offered : Nat → List CodeUnit → Prop}
    {nodes : List Nat}
    {state : State}
    (terminal : state.terminal = nfa.terminal? nodes)
    (isFinal : state.isFinal = (nfa.terminal? nodes).isSome)
    (isOffered : ∀ index after, offered index after ↔
      after = text ∧ ∃ node ∈ nodes,
        (nfa.node node).accept = some (.terminal index)) :
    (Walk.stopped (if state.isFinal then some (state.terminal, 0) else
      none)).Best offered text := by
  rw [terminal, isFinal]
  cases found : nfa.terminal? nodes with
  | none =>
      rintro index after offers
      obtain ⟨-, node, isNode, accepts⟩ := (isOffered index after).mp offers
      exact Nfa.terminal?_eq_none_iff.mp found node isNode index accepts
  | some index =>
      obtain ⟨accepted, least⟩ := Nfa.terminal?_eq_some found
      refine ⟨Nat.zero_le _, (isOffered _ _).mpr ⟨rfl, accepted⟩, ?_⟩
      intro other after offers
      obtain ⟨rfl, node, isNode, accepts⟩ := (isOffered other after).mp offers
      exact .inr ⟨rfl, least node isNode other accepts⟩

end Automaton

omit [CharacterData] in
/-- The best match after a unit, or what is accepted before it. -/
theorem Walk.Best.afterUnit
    {offered later : Nat → List CodeUnit → Prop}
    {accepted : Nat → Prop}
    {unit : CodeUnit}
    {rest : List CodeUnit}
    {walk : Walk}
    {here : Option (Option Nat × Nat)}
    (best : walk.Best later rest)
    (bestHere : (Walk.stopped here).Best
      (fun index after => after = unit :: rest ∧ accepted index)
      (unit :: rest))
    (isOffered : ∀ index after, offered index after ↔
      after = unit :: rest ∧ accepted index ∨ later index after) :
    (walk.afterUnit here).Best offered (unit :: rest) := by
  match walk, best with
  | .stopped none, none_ =>
      have same : offered = fun index after =>
          after = unit :: rest ∧ accepted index := by
        funext index after
        rw [isOffered]
        simp [none_ index after]
      rw [same]
      exact bestHere
  | .stopped (some (some index, distance)), ⟨within, offers, greatest⟩ =>
      refine ⟨Nat.succ_le_succ within, (isOffered _ _).mpr (.inr offers), ?_⟩
      intro other after otherOffers
      rcases (isOffered other after).mp otherOffers with ⟨rfl, -⟩ | isLater
      · left
        simp only [List.length_cons]
        omega
      · rcases greatest other after isLater with shorter | ⟨same, least⟩
        · left
          simp only [List.length_cons]
          omega
        · right
          simp only [List.length_cons]
          exact ⟨by omega, least⟩

namespace Automaton

variable {automaton : Automaton} {keys : Array Key} {seeds nodes : List Nat}
  {unit : CodeUnit} {rest : List CodeUnit} {state : State}

/-- What the start or the nodes of terminals lead to is of the same kind. -/
theorem Owned.leads
    {text : List CodeUnit}
    {place : Place}
    (stands : nfa.StandsFor anyCase patterns holds)
    (owned : Owned nfa seeds)
    (leads : nfa.Leads holds seeds text place) :
    place.1 ≠ 0 → (nfa.node place.1).owner ≠ none := by
  obtain ⟨seed, isSeed, reaches⟩ := leads
  by_cases isStart : seed = 0
  · -- The first edge leads from the start to a node of a terminal.
    obtain ⟨length, path⟩ := reaches
    cases path with
    | here => exact fun notStart => absurd isStart notStart
    | @step length _ next _ step path =>
        obtain ⟨edge, isEdge, isTarget⟩ := step.target
        rw [isStart] at isEdge
        obtain ⟨target, index, rfl, positive, -, isOwner⟩ :=
          stands.startEdges edge isEdge
        obtain rfl : target = next.1 := isTarget
        obtain ⟨-, sameOwner⟩ :=
          Nfa.Reaches.owner stands.tidy positive ⟨length, path⟩
        rw [sameOwner, isOwner]
        simp
  · obtain ⟨-, sameOwner⟩ :=
      reaches.owner stands.tidy (Nat.pos_of_ne_zero isStart)
    rw [sameOwner]
    exact fun _ => (owned seed isSeed).2 isStart

/-- No condition is met where terminals are looked for. -/
theorem Owned.unmet
    {text : List CodeUnit}
    (stands : nfa.StandsFor anyCase patterns holds)
    (owned : Owned nfa seeds)
    (reading : Reading nfa isLazy holds keys text seeds nodes state) :
    nfa.meetsCondition nodes = false := by
  rw [Bool.eq_false_iff]
  intro met
  obtain ⟨node, isNode, accepts⟩ := Nfa.meetsCondition_iff.mp met
  by_cases isStart : node = 0
  · rw [isStart, stands.start] at accepts
    cases accepts
  · apply owned.leads stands ((reading.reached node).mp isNode) isStart
    exact stands.tidy.accept (Nat.pos_of_ne_zero isStart) accepts

/-- The node of an edge over a unit belongs to the terminal that is accepted
behind the edge. -/
theorem owner_of_accepts
    {node target index : Nat}
    {characters : CharSet}
    {place : Place}
    (stands : nfa.StandsFor anyCase patterns holds)
    (isEdge : .units characters target ∈ (nfa.node node).edges)
    (reaches : nfa.Reaches holds (target, rest) place)
    (accepts : (nfa.node place.1).accept = some (.terminal index)) :
    0 < node ∧ (nfa.node node).owner = some index := by
  have positive : 0 < node := by
    by_contra isStart
    obtain rfl : node = 0 := by omega
    obtain ⟨other, owner, isFree, -⟩ := stands.startEdges _ isEdge
    cases isFree
  have above : 0 < target := (stands.tidy.target positive isEdge).1
  obtain ⟨placePositive, sameOwner⟩ := reaches.owner stands.tidy above
  refine ⟨positive, ?_⟩
  rw [← stands.tidy.owner positive isEdge]
  exact sameOwner.symm.trans (stands.tidy.accept placePositive accepts)

/-- The targets of a unit, in terms of the nodes. -/
theorem mem_nextSeeds
    {target : Nat}
    (unmet : nfa.meetsCondition nodes = false) :
    target ∈ unitTargets (nfa.readingEdges isLazy nodes) unit.toNat ↔
      ∃ node ∈ nodes, ∃ characters,
        .units characters target ∈ (nfa.node node).edges ∧
          characters.contains unit.toNat = true ∧
            ∀ index ∈ nfa.finished isLazy nodes,
              (nfa.node node).owner ≠ some index := by
  rw [Nfa.mem_unitTargets]
  simp only [Nfa.mem_readingEdges unmet]
  constructor
  · rintro ⟨characters, ⟨node, isNode, isEdge, unfinished⟩, isHeld⟩
    exact ⟨node, isNode, characters, isEdge, isHeld, unfinished⟩
  · rintro ⟨node, isNode, characters, isEdge, isHeld, unfinished⟩
    exact ⟨characters, ⟨node, isNode, isEdge, unfinished⟩, isHeld⟩

/-- A terminal is accepted at once, or behind the next unit unless it has
finished. -/
theorem accepts_cons_iff
    {index : Nat}
    {after : List CodeUnit}
    (stands : nfa.StandsFor anyCase patterns holds)
    (owned : Owned nfa seeds)
    (reading : Reading nfa isLazy holds keys (unit :: rest) seeds nodes state)
    (unfinished : index ∉ nfa.finished isLazy nodes) :
    Accepts nfa holds seeds (unit :: rest) index after ↔
      after = unit :: rest ∧
          (∃ node ∈ nodes, (nfa.node node).accept = some (.terminal index)) ∨
        Accepts nfa holds
          (unitTargets (nfa.readingEdges isLazy nodes) unit.toNat) rest index
          after := by
  have unmet := owned.unmet stands reading
  constructor
  · rintro ⟨last, leads, accepts⟩
    rcases (Nfa.leads_cons_iff reading.reached).mp leads with
      ⟨isText, isNode⟩ |
        ⟨node, isNode, characters, target, isEdge, isHeld, reaches⟩
    · exact .inl ⟨isText, last, isNode, accepts⟩
    · refine .inr ⟨last, ⟨target, (mem_nextSeeds unmet).mpr ⟨node, isNode,
        characters, isEdge, isHeld, ?_⟩, reaches⟩, accepts⟩
      intro other isFinished isOwner
      rw [(owner_of_accepts stands isEdge reaches accepts).2] at isOwner
      exact unfinished (Option.some.inj isOwner ▸ isFinished)
  · rintro (⟨rfl, node, isNode, accepts⟩ |
      ⟨last, ⟨target, isTarget, reaches⟩, accepts⟩)
    · exact ⟨node, (reading.reached node).mp isNode, accepts⟩
    · obtain ⟨node, isNode, characters, isEdge, isHeld, -⟩ :=
        (mem_nextSeeds unmet).mp isTarget
      exact ⟨last, (Nfa.leads_cons_iff reading.reached).mpr (.inr
        ⟨node, isNode, characters, target, isEdge, isHeld, reaches⟩), accepts⟩

/-- A terminal that has finished is not accepted behind the next unit. -/
theorem not_accepts_of_finished
    {index : Nat}
    {after : List CodeUnit}
    (stands : nfa.StandsFor anyCase patterns holds)
    (unmet : nfa.meetsCondition nodes = false)
    (isFinished : index ∈ nfa.finished isLazy nodes) :
    ¬ Accepts nfa holds
      (unitTargets (nfa.readingEdges isLazy nodes) unit.toNat) rest index
      after := by
  rintro ⟨last, ⟨target, isTarget, reaches⟩, accepts⟩
  obtain ⟨node, isNode, characters, isEdge, -, unfinished⟩ :=
    (mem_nextSeeds unmet).mp isTarget
  exact unfinished index isFinished
    (owner_of_accepts stands isEdge reaches accepts).2

theorem Accepts.suffix
    {text after : List CodeUnit}
    {index : Nat}
    (accepts : Accepts nfa holds seeds text index after) :
    after <:+ text := by
  obtain ⟨node, ⟨seed, -, reaches⟩, -⟩ := accepts
  exact reaches.suffix

/-- A match is offered at once, or by the nodes behind the next unit. -/
theorem offers_cons_iff
    {index : Nat}
    {after : List CodeUnit}
    (stands : nfa.StandsFor anyCase patterns holds)
    (owned : Owned nfa seeds)
    (reading : Reading nfa isLazy holds keys (unit :: rest) seeds nodes
      state) :
    Offers nfa holds isLazy seeds (unit :: rest) index after ↔
      after = unit :: rest ∧
          (∃ node ∈ nodes, (nfa.node node).accept = some (.terminal index)) ∨
        Offers nfa holds isLazy
          (unitTargets (nfa.readingEdges isLazy nodes) unit.toNat) rest index
          after := by
  have unmet := owned.unmet stands reading
  by_cases isFinished : index ∈ nfa.finished isLazy nodes
  · -- A lazy terminal that is accepted here offers nothing else.
    obtain ⟨isLazyIndex, node, isNode, accepts⟩ :=
      Nfa.mem_finished.mp isFinished
    have acceptsHere : Accepts nfa holds seeds (unit :: rest) index
        (unit :: rest) := ⟨node, (reading.reached node).mp isNode, accepts⟩
    constructor
    · rintro ⟨isAccepted, shortest⟩
      have whole := shortest isLazyIndex _ acceptsHere
      exact .inl ⟨isAccepted.suffix.eq_of_length_le whole, node, isNode,
        accepts⟩
    · rintro (⟨rfl, -⟩ | ⟨isAccepted, -⟩)
      · exact ⟨acceptsHere, fun _ other isOther => isOther.suffix.length_le⟩
      · exact absurd isAccepted
          (not_accepts_of_finished stands unmet isFinished)
  · constructor
    · rintro ⟨isAccepted, shortest⟩
      refine ((accepts_cons_iff stands owned reading isFinished).mp
        isAccepted).imp_right fun behind => ⟨behind, ?_⟩
      intro isLazyIndex other isOther
      exact shortest isLazyIndex other
        ((accepts_cons_iff stands owned reading isFinished).mpr (.inr isOther))
    · rintro (⟨rfl, accepted⟩ | ⟨behind, shortest⟩)
      · exact ⟨(accepts_cons_iff stands owned reading isFinished).mpr
          (.inl ⟨rfl, accepted⟩), fun _ other isOther =>
            isOther.suffix.length_le⟩
      · refine ⟨(accepts_cons_iff stands owned reading isFinished).mpr
          (.inr behind), fun isLazyIndex other isOther => ?_⟩
        rcases (accepts_cons_iff stands owned reading isFinished).mp isOther
          with ⟨-, accepted⟩ | otherBehind
        · exact absurd (Nfa.mem_finished.mpr ⟨isLazyIndex, accepted⟩) isFinished
        · exact shortest isLazyIndex other otherBehind

/-- A walk from the start or from nodes of terminals ends with the best
match. -/
theorem walk_best
    {text : List CodeUnit}
    {seeds : List Nat}
    {number : Nat}
    (stands : nfa.StandsFor anyCase patterns holds)
    (keyed : Keyed nfa isLazy keys automaton.states)
    (owned : Owned nfa seeds)
    (isKey : keys[number]? = some (nfa.freshKey seeds)) :
    (automaton.walk true text false number).Best
      (Offers nfa holds isLazy seeds text) text := by
  induction text generalizing seeds number with
  | nil =>
      obtain ⟨nodes, state, reading, isRead⟩ := @exists_reading _ nfa holds
        isLazy anyCase patterns automaton keys [] seeds number stands keyed
        (fun seed isSeed => (owned seed isSeed).1) isKey false
      have isFinal : state.isFinal = (nfa.terminal? nodes).isSome := by
        rw [reading.isFinal, owned.unmet stands reading, Bool.or_false]
      have stops : read state true false (automaton.aheadOf []) =
          .stopped (if state.isFinal then some (state.terminal, 0) else
            none) := by
        simp [read, aheadOf]
      rw [isRead, stops]
      refine best_here reading.terminal isFinal fun index after => ?_
      constructor
      · rintro ⟨⟨node, leads, accepts⟩, -⟩
        obtain ⟨isText, isNode⟩ :=
          (Nfa.leads_nil_iff reading.reached).mp leads
        exact ⟨isText, node, isNode, accepts⟩
      · rintro ⟨rfl, node, isNode, accepts⟩
        exact ⟨⟨node, (reading.reached node).mp isNode, accepts⟩,
          fun _ other isOther => isOther.suffix.length_le⟩
  | cons unit rest inductionHypothesis =>
      obtain ⟨nodes, state, reading, isRead⟩ := @exists_reading _ nfa holds
        isLazy anyCase patterns automaton keys (unit :: rest) seeds number
        stands keyed (fun seed isSeed => (owned seed isSeed).1) isKey false
      have unmet := owned.unmet stands reading
      have isFinal : state.isFinal = (nfa.terminal? nodes).isSome := by
        rw [reading.isFinal, unmet, Bool.or_false]
      have bestHere := best_here reading.terminal isFinal
        fun index (after : List CodeUnit) =>
          Iff.refl (after = unit :: rest ∧ ∃ node ∈ nodes,
            (nfa.node node).accept = some (.terminal index))
      have isOffered := fun index after =>
        @offers_cons_iff _ nfa holds isLazy anyCase patterns keys seeds nodes
          unit rest state index after stands owned reading
      rw [isRead]
      rcases reading.next unit with ⟨noTargets, isNext⟩ |
        ⟨-, next, isNext, nextKey⟩
      · have nothing : (Walk.stopped none).Best
            (Offers nfa holds isLazy
              (unitTargets (nfa.readingEdges isLazy nodes) unit.toNat) rest)
            rest := by
          rintro index after ⟨⟨node, ⟨target, isTarget, -⟩, -⟩, -⟩
          rw [noTargets] at isTarget
          cases isTarget
        have stops : read state true false
            (automaton.aheadOf (unit :: rest)) =
            (Walk.stopped none).afterUnit
              (if state.isFinal then some (state.terminal, 0) else none) := by
          simp [read, aheadOf, isNext, Walk.afterUnit]
        rw [stops]
        exact nothing.afterUnit bestHere isOffered
      · have targetsOwned : Owned nfa
            (unitTargets (nfa.readingEdges isLazy nodes) unit.toNat) := by
          intro target isTarget
          obtain ⟨node, isNode, characters, isEdge, isHeld, -⟩ :=
            (mem_nextSeeds unmet).mp isTarget
          refine ⟨stands.decisive.target isEdge, ?_⟩
          exact owned.leads stands ((Nfa.leads_cons_iff reading.reached).mpr
            (.inr ⟨node, isNode, characters, target, isEdge, isHeld,
              .refl (target, rest)⟩))
        have goesOn : read state true false
            (automaton.aheadOf (unit :: rest)) =
            (automaton.walk true rest false next).afterUnit
              (if state.isFinal then some (state.terminal, 0) else none) := by
          simp [read, aheadOf, isNext]
        rw [goesOn]
        exact (inductionHypothesis targetsOwned nextKey).afterUnit bestHere
          isOffered

/-! ## The match of some terminals -/

section Terminals

variable {input : List CodeUnit} {terminals : List Terminal}

theorem accepts_iff_matches
    {index : Nat}
    {after : List CodeUnit}
    (stands : nfa.StandsFor anyCase (terminals.map Terminal.pattern) holds) :
    Accepts nfa holds [0] input index after ↔
      ∃ terminal, terminals[index]? = some terminal ∧
        terminal.pattern.Matches anyCase input after := by
  have accepts := stands.accepts index input after
  rw [List.getElem?_map] at accepts
  simpa [Accepts, Nfa.Leads] using accepts

/-- The matches that the automaton of some terminals offers are those that the
terminals contribute. -/
theorem offers_iff_contributes
    {index length : Nat}
    (stands : nfa.StandsFor anyCase (terminals.map Terminal.pattern) holds)
    (flags : ∀ (index : Nat) (terminal : Terminal),
      terminals[index]? = some terminal → isLazy index = terminal.isLazy)
    (within : length ≤ input.length) :
    Offers nfa holds isLazy [0] input index (input.drop length) ↔
      Contributes anyCase input terminals index length := by
  constructor
  · rintro ⟨isAccepted, shortest⟩
    obtain ⟨terminal, isTerminal, isMatch⟩ :=
      (accepts_iff_matches stands).mp isAccepted
    refine ⟨terminal, isTerminal, ⟨within, isMatch⟩, ?_⟩
    rintro isLazyTerminal shorter less ⟨shorterWithin, shorterMatch⟩
    have longer := shortest ((flags index terminal isTerminal).trans
      isLazyTerminal) (input.drop shorter)
      ((accepts_iff_matches stands).mpr ⟨terminal, isTerminal, shorterMatch⟩)
    rw [List.length_drop, List.length_drop] at longer
    omega
  · rintro ⟨terminal, isTerminal, ⟨-, isMatch⟩, shortest⟩
    refine ⟨(accepts_iff_matches stands).mpr ⟨terminal, isTerminal, isMatch⟩,
      fun isLazyIndex other isOther => ?_⟩
    by_contra longer
    rw [List.length_drop] at longer
    have bounded := isOther.suffix.length_le
    have isDrop : other = input.drop (input.length - other.length) :=
      List.suffix_iff_eq_drop.mp isOther.suffix
    obtain ⟨same, isSame, otherMatch⟩ := (accepts_iff_matches stands).mp isOther
    obtain rfl := Option.some.inj (isTerminal.symm.trans isSame)
    refine shortest ((flags index terminal isTerminal).symm.trans isLazyIndex)
      (input.length - other.length) (by omega) ⟨Nat.sub_le _ _, ?_⟩
    rw [← isDrop]
    exact otherMatch

/-- The automaton of some terminals finds the longest match. -/
theorem maximalMunch_build
    (apart : CharacterData.SurrogatesApart)
    (normal : ∀ terminal ∈ terminals, terminal.pattern.Normal)
    (anyCase : Bool)
    (input : List CodeUnit) :
    MaximalMunch anyCase input terminals
      ((build terminals anyCase).longestMatch input true) := by
  have stands := Nfa.standsFor_ofPatterns apart anyCase
    (terminals.map Terminal.pattern) (by
      intro pattern member
      obtain ⟨terminal, isTerminal, rfl⟩ := List.mem_map.mp member
      exact normal terminal isTerminal)
  have flags : ∀ (index : Nat) (terminal : Terminal),
      terminals[index]? = some terminal →
      (((terminals.map Terminal.isLazy).toArray[index]?).getD false) =
        terminal.isLazy := by
    intro index terminal isTerminal
    simp [isTerminal]
  obtain ⟨keys, keyed⟩ := exists_keyed apart
    (Nfa.ofPatterns anyCase (terminals.map Terminal.pattern))
    (fun index => ((terminals.map Terminal.isLazy).toArray[index]?).getD false)
  have owned : Owned (Nfa.ofPatterns anyCase (terminals.map Terminal.pattern))
      [0] :=
    List.forall_mem_singleton.mpr
      ⟨stands.nonempty, fun notStart => absurd rfl notStart⟩
  have best := @walk_best _ _ _ _ anyCase _ (build terminals anyCase) keys
    input [0] 0 stands keyed owned keyed.first
  have offers {index length : Nat} (within : length ≤ input.length) :=
    @offers_iff_contributes _ _ _ _ anyCase input terminals index length stands
      flags within
  unfold longestMatch
  match answer : (build terminals anyCase).walk true input false 0 with
  | .needMore =>
      rw [answer] at best
      exact best
  | .stopped none =>
      rw [answer] at best
      rintro index length ⟨terminal, isTerminal, ⟨within, isMatch⟩, shortest⟩
      exact best index (input.drop length) ((offers within).mpr
        ⟨terminal, isTerminal, ⟨within, isMatch⟩, shortest⟩)
  | .stopped (some (none, distance)) =>
      rw [answer] at best
      exact best.elim
  | .stopped (some (some index, distance)) =>
      rw [answer] at best
      obtain ⟨within, isOffered, greatest⟩ := best
      refine ⟨(offers within).mp isOffered, fun other length contributes => ?_⟩
      have otherWithin : length ≤ input.length := by
        obtain ⟨-, -, ⟨isWithin, -⟩, -⟩ := contributes
        exact isWithin
      have bounds := greatest other (input.drop length)
        ((offers otherWithin).mpr contributes)
      rw [List.length_drop] at bounds
      omega

end Terminals

/-- An answer is that of the automaton of some terminals if and only if it is
the longest of the matches that the terminals offer. -/
theorem longestMatch_eq_iff_maximalMunch
    (apart : CharacterData.SurrogatesApart)
    (terminals : List Terminal)
    (normal : ∀ terminal ∈ terminals, terminal.pattern.Normal)
    (anyCase : Bool)
    (input : List CodeUnit)
    (answer : Match) :
    (build terminals anyCase).longestMatch input true = answer ↔
      MaximalMunch anyCase input terminals answer := by
  have found := maximalMunch_build apart normal anyCase input
  constructor
  · rintro rfl
    exact found
  · intro isAnswer
    exact found.unique isAnswer

omit [CharacterData] in
theorem longestMatch_eq_iff_maximalMunch_letters :
    @MaximalMunch .ascii false [97, 98, 55357, 56832]
      [⟨.concat [.text "a", .lookahead (.text "b") false], false⟩,
        ⟨.repeat (.text "a") .oneOrMore, true⟩,
        ⟨.text "😀", false⟩] (.found 0 1) := by
  have built : @build .ascii
      [⟨.concat [.text "a", .lookahead (.text "b") false], false⟩,
        ⟨.repeat (.text "a") .oneOrMore, true⟩,
        ⟨.text "😀", false⟩] false =
      ⟨#[⟨[⟨⟨97, 97⟩, ⟨[], some 1⟩⟩, ⟨⟨55357, 55357⟩, ⟨[], some 2⟩⟩],
          .nowhere, false, none, none⟩,
        ⟨[], .nowhere, false, none, some ⟨3, 4, 5⟩⟩,
        ⟨[⟨⟨56832, 56832⟩, ⟨[], some 6⟩⟩], .nowhere, false, none, none⟩,
        ⟨[⟨⟨98, 98⟩, ⟨[], some 7⟩⟩], .nowhere, false, none, none⟩,
        ⟨[], .nowhere, true, some 0, none⟩,
        ⟨[], .nowhere, true, some 1, none⟩,
        ⟨[], .nowhere, true, some 2, none⟩,
        ⟨[], .nowhere, true, none, none⟩], 3, 19⟩ := by
    cbv
  refine (@longestMatch_eq_iff_maximalMunch .ascii
    CharacterData.surrogatesApart_ascii _ ?_ false _ _).mp ?_
  · simp [Pattern.Normal, Pattern.AllNormal]
  · rw [built]
    decide +kernel

end Automaton
end Lexical
end ParserGenerator
