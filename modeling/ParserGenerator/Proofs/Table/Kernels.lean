import Mathlib.Data.Finset.Powerset
import Mathlib.Logic.Relation
import ParserGenerator.Proofs.Table.Closure

/-!
# The graph of kernels

Exploration numbers each kernel once and gives it the transitions that moving
over symbols asks for. Since kernels are sets of items there is a bound on
their number, and the exploration comes to its end.
-/

namespace ParserGenerator
namespace Table

/-- Looking up a key among pairs of keys with what they determine. -/
theorem lookup_map_self
    {Value : Type}
    (assign : Nat → Value)
    (keys : List Nat)
    (key : Nat) :
    (keys.map fun other => (other, assign other)).lookup key =
      if key ∈ keys then some (assign key) else none := by
  induction keys with
  | nil => rfl
  | cons first rest inductionHypothesis =>
      rw [List.map_cons, List.lookup_cons, inductionHypothesis]
      by_cases same : key = first
      · simp [same]
      · simp [same, beq_false_of_ne same]

namespace Rules

variable {rules : Rules}

/-! ## Moves -/

/-- The items of a closure moved over a symbol. -/
def moved (rules : Rules) (kernel : List Item) (symbol : SymbolId) :
    List Item :=
  ((rules.closure kernel).filter fun item =>
    rules.next? item == some symbol).map Item.advance

theorem mem_moved {item : Item} {kernel : List Item} {symbol : SymbolId} :
    item ∈ rules.moved kernel symbol ↔
      ∃ before ∈ rules.closure kernel,
        rules.next? before = some symbol ∧ before.advance = item := by
  simp [moved, and_assoc]

/-- There is a move over each symbol after a dot, to the items moved over
it. -/
theorem lookup_moves
    {kernel moved : List Item}
    {symbol : SymbolId} :
    (rules.moves kernel).lookup symbol = some moved ↔
      (∃ item ∈ rules.closure kernel, rules.next? item = some symbol) ∧
        moved = rules.moved kernel symbol := by
  have asPairs : rules.moves kernel =
      (ascending ((rules.closure kernel).filterMap rules.next?)).map
        fun other => (other, rules.moved kernel other) := rfl
  rw [asPairs, lookup_map_self]
  simp only [mem_ascending, List.mem_filterMap, Option.ite_none_right_eq_some,
    Option.some.injEq]
  exact and_congr_right fun _ => eq_comm

/-! ## Kernels -/

/-- The kernel of the first state. -/
def startKernel (rules : Rules) : List Item := [⟨rules.accept, 0⟩]

/-- A list of items that can be the kernel of a state. -/
structure IsKernel (rules : Rules) (kernel : List Item) : Prop where
  /-- Each item precedes all later ones. -/
  ordered : kernel.Pairwise Item.Precedes
  /-- The productions are those of the rules. -/
  known : ∀ item ∈ kernel, item.production ≤ rules.accept
  /-- The dots are within the bodies. -/
  inBody : ∀ item ∈ kernel, item.dot ≤ (rules.body item.production).length
  /-- Only the first kernel has a dot at the start of a body. -/
  moved : kernel = rules.startKernel ∨ ∀ item ∈ kernel, 0 < item.dot

theorem isKernel_start (rules : Rules) : rules.IsKernel rules.startKernel where
  ordered := List.pairwise_singleton _ _
  known := by simp [startKernel]
  inBody := by simp [startKernel]
  moved := .inl rfl

namespace IsKernel

variable {kernel : List Item}

/-- No production that is called for starts in the kernel already. -/
theorem ordered_closure (isKernel : rules.IsKernel kernel) :
    (rules.closure kernel).Pairwise Item.Precedes := by
  refine Item.pairwise_sort (List.Nodup.append ?_ ?_ ?_)
  · exact isKernel.ordered.imp Item.Precedes.ne
  · refine (nodup_calledFor kernel).map fun left right same => ?_
    simpa using same
  · intro item inKernel added
    obtain ⟨production, called, rfl⟩ := List.mem_map.mp added
    rcases isKernel.moved with rfl | dots
    · have isAccept : production = rules.accept := by
        simpa [startKernel] using inKernel
      exact Nat.ne_of_lt (lt_accept_of_mem_calledFor called) isAccept
    · exact Nat.lt_irrefl 0 (dots _ inKernel)

theorem known_closure
    (isKernel : rules.IsKernel kernel)
    {item : Item}
    (member : item ∈ rules.closure kernel) :
    item.production ≤ rules.accept := by
  rcases mem_closure.mp member with inKernel | ⟨-, called⟩
  · exact isKernel.known item inKernel
  · exact Nat.le_of_lt (lt_accept_of_mem_calledFor called)

/-- Moving over a symbol gives a kernel again. -/
theorem of_moved
    (isKernel : rules.IsKernel kernel)
    (symbol : SymbolId) :
    rules.IsKernel (rules.moved kernel symbol) where
  ordered := List.pairwise_map.mpr
    ((isKernel.ordered_closure.filter _).imp Item.Precedes.advance)
  known := by
    intro item member
    obtain ⟨before, beforeMember, -, rfl⟩ := mem_moved.mp member
    have beforeKnown := isKernel.known_closure beforeMember
    exact beforeKnown
  inBody := by
    intro item member
    obtain ⟨before, -, next, rfl⟩ := mem_moved.mp member
    exact (List.getElem?_eq_some_iff.mp next).1
  moved := by
    refine .inr fun item member => ?_
    obtain ⟨before, -, -, rfl⟩ := mem_moved.mp member
    exact Nat.succ_pos _

end IsKernel

/-- All items of the rules. -/
def allItems (rules : Rules) : List Item :=
  (List.range (rules.accept + 1)).flatMap fun production =>
    (List.range ((rules.body production).length + 1)).map
      (Item.mk production)

theorem mem_allItems {item : Item} :
    item ∈ rules.allItems ↔
      item.production ≤ rules.accept ∧
        item.dot ≤ (rules.body item.production).length := by
  obtain ⟨production, dot⟩ := item
  rw [← Nat.lt_add_one_iff, ← Nat.lt_add_one_iff]
  simp only [allItems, List.mem_flatMap, List.mem_map, List.mem_range,
    Item.mk.injEq]
  constructor
  · rintro ⟨_, inside, _, within, rfl, rfl⟩
    exact ⟨inside, within⟩
  · rintro ⟨inside, within⟩
    exact ⟨production, inside, dot, within, rfl, rfl⟩

theorem body_of_lt
    {production : ProductionId}
    (inside : production < rules.grammar.productions.size) :
    rules.body production = rules.grammar.productions[production].body := by
  have other : production ≠ rules.accept := Nat.ne_of_lt inside
  simp [body, other, inside]

@[simp] theorem body_accept : rules.body rules.accept = [rules.goal] := by
  simp [body]

theorem length_allItems : rules.allItems.length = rules.itemCount := by
  have bodies : (List.range rules.accept).map
        (fun production => (rules.body production).length + 1) =
      rules.grammar.productions.toList.map fun production =>
        production.body.length + 1 := by
    refine List.ext_getElem (by simp [accept]) fun index left right => ?_
    have inside : index < rules.grammar.productions.size := by
      simpa [accept] using left
    simp [body_of_lt inside]
  have isSum : rules.itemCount =
      (rules.grammar.productions.toList.map fun production =>
        production.body.length + 1).sum + 2 := by
    rw [itemCount]
    induction rules.grammar.productions.toList with
    | nil => rfl
    | cons production rest inductionHypothesis =>
        rw [List.foldr_cons, inductionHypothesis, List.map_cons, List.sum_cons]
        omega
  rw [allItems, List.length_flatMap, isSum, ← bodies, List.range_succ]
  simp

/-! ## Numbers of kernels -/

/-- What numbering more kernels may do: the numbers stay, and no kernel gets a
second one. -/
structure Extends (before after : Array (List Item)) : Prop where
  /-- Kernels keep their numbers. -/
  keeps : ∀ (state : Nat) (kernel : List Item),
    before[state]? = some kernel → after[state]? = some kernel
  /-- No kernel has two numbers. -/
  distinct : before.toList.Nodup → after.toList.Nodup

theorem Extends.refl (kernels : Array (List Item)) : Extends kernels kernels :=
  ⟨fun _ _ found => found, fun distinct => distinct⟩

theorem Extends.trans
    {first second third : Array (List Item)}
    (extension : Extends first second)
    (further : Extends second third) :
    Extends first third where
  keeps state kernel found :=
    further.keeps state kernel (extension.keeps state kernel found)
  distinct distinct := further.distinct (extension.distinct distinct)

theorem extends_numberKernel
    (kernels : Array (List Item))
    (kernel : List Item) :
    Extends kernels (numberKernel kernels kernel).1 := by
  unfold numberKernel
  split
  · exact .refl kernels
  · next absent =>
      have notMember : kernel ∉ kernels.toList := by
        rw [Array.mem_toList_iff]
        intro member
        simpa using Array.findIdx?_eq_none_iff.mp absent kernel member
      refine ⟨fun state found isFound => ?_, fun distinct => ?_⟩
      · obtain ⟨inside, -⟩ := Array.getElem?_eq_some_iff.mp isFound
        simp only [Array.getElem?_push, Nat.ne_of_lt inside, if_false, isFound]
      · rw [Array.toList_push]
        exact distinct.append (List.nodup_singleton kernel)
          (by simpa using notMember)

theorem getElem?_numberKernel
    (kernels : Array (List Item))
    (kernel : List Item) :
    (numberKernel kernels kernel).1[(numberKernel kernels kernel).2]? =
      some kernel := by
  unfold numberKernel
  split
  · next found isFound =>
      obtain ⟨inside, same, -⟩ := Array.findIdx?_eq_some_iff_getElem.mp isFound
      rw [Array.getElem?_eq_getElem inside, eq_of_beq same]
  · simp

/-- Numbering a kernel adds no other one. -/
theorem eq_of_numberKernel
    {kernels : Array (List Item)}
    {kernel found : List Item}
    {state : Nat}
    (isFound : (numberKernel kernels kernel).1[state]? = some found) :
    kernels[state]? = some found ∨
      state = (numberKernel kernels kernel).2 ∧ found = kernel := by
  unfold numberKernel at *
  split at isFound
  · exact .inl isFound
  · rw [Array.getElem?_push] at isFound
    split at isFound
    · next last => exact .inr ⟨last, (Option.some.inj isFound).symm⟩
    · exact .inl isFound

/-- Transitions that lead to the kernels of moves over the same symbols. -/
def Numbers (kernels : Array (List Item)) :
    List (SymbolId × Nat) → List (SymbolId × List Item) → Prop :=
  List.Forall₂ fun edge move =>
    edge.1 = move.1 ∧ kernels[edge.2]? = some move.2

theorem Numbers.extend
    {before after : Array (List Item)}
    {edges : List (SymbolId × Nat)}
    {moves : List (SymbolId × List Item)}
    (numbers : Numbers before edges moves)
    (extension : Extends before after) :
    Numbers after edges moves :=
  numbers.imp fun _ _ matched =>
    ⟨matched.1, extension.keeps _ _ matched.2⟩

/-- The transition over a symbol leads to the kernel of the move over it. -/
theorem Numbers.lookup
    {kernels : Array (List Item)}
    {edges : List (SymbolId × Nat)}
    {moves : List (SymbolId × List Item)}
    (numbers : Numbers kernels edges moves)
    (symbol : SymbolId) :
    (edges.lookup symbol).isSome = (moves.lookup symbol).isSome ∧
      ∀ target kernel, edges.lookup symbol = some target →
        moves.lookup symbol = some kernel → kernels[target]? = some kernel := by
  induction numbers with
  | nil => simp
  | @cons edge move edges moves matched numbers inductionHypothesis =>
      obtain ⟨edgeSymbol, target⟩ := edge
      obtain ⟨moveSymbol, kernel⟩ := move
      obtain ⟨rfl, found⟩ := matched
      by_cases same : symbol = edgeSymbol
      · subst same
        simp [found]
      · simpa [List.lookup_cons, beq_false_of_ne same] using
          inductionHypothesis

theorem extends_numberMoves
    (kernels : Array (List Item))
    (moves : List (SymbolId × List Item)) :
    Extends kernels (numberMoves kernels moves).1 := by
  induction moves generalizing kernels with
  | nil => exact .refl kernels
  | cons move moves inductionHypothesis =>
      exact (extends_numberKernel kernels move.2).trans
        (inductionHypothesis _)

theorem numbers_numberMoves
    (kernels : Array (List Item))
    (moves : List (SymbolId × List Item)) :
    Numbers (numberMoves kernels moves).1 (numberMoves kernels moves).2
      moves := by
  induction moves generalizing kernels with
  | nil => exact .nil
  | cons move moves inductionHypothesis =>
      refine .cons ⟨rfl, ?_⟩ (inductionHypothesis _)
      exact (extends_numberMoves _ moves).keeps _ _
        (getElem?_numberKernel kernels move.2)

/-- Numbering moves adds only their kernels, and these are led to. -/
theorem mem_of_numberMoves
    {kernels : Array (List Item)}
    {moves : List (SymbolId × List Item)}
    {kernel : List Item}
    {state : Nat}
    (found : (numberMoves kernels moves).1[state]? = some kernel) :
    kernels[state]? = some kernel ∨
      (∃ symbol, (symbol, kernel) ∈ moves) ∧
      ∃ symbol, (symbol, state) ∈ (numberMoves kernels moves).2 := by
  induction moves generalizing kernels with
  | nil => exact .inl found
  | cons move moves inductionHypothesis =>
      rcases inductionHypothesis found with
        earlier | ⟨⟨symbol, member⟩, edgeSymbol, edge⟩
      · rcases eq_of_numberKernel earlier with before | ⟨rfl, rfl⟩
        · exact .inl before
        · exact .inr ⟨⟨move.1, List.mem_cons_self⟩, move.1,
            List.mem_cons_self⟩
      · exact .inr ⟨⟨symbol, List.mem_cons_of_mem _ member⟩, edgeSymbol,
          List.mem_cons_of_mem _ edge⟩

end Rules

/-! ## Exploration -/

namespace KernelGraph

/-- The transition from a state over a symbol. -/
def goto (graph : KernelGraph) (state : Nat) (symbol : SymbolId) :
    Option Nat :=
  graph.gotos[state]?.bind (·.lookup symbol)

/-- Whether some transition leads from one state to another. -/
def Adjacent (graph : KernelGraph) (source target : Nat) : Prop :=
  ∃ symbol, graph.goto source symbol = some target

end KernelGraph

/-- The part of the graph that has been explored is right. -/
structure Explored (rules : Rules) (graph : KernelGraph) : Prop where
  /-- The first state is that of the goal. -/
  first : graph.kernels[0]? = some rules.startKernel
  /-- All kernels are well formed. -/
  isKernel : ∀ (state : Nat) (kernel : List Item),
    graph.kernels[state]? = some kernel → rules.IsKernel kernel
  /-- No kernel has two numbers. -/
  distinct : graph.kernels.toList.Nodup
  /-- Transitions start in states. -/
  behind : graph.gotos.size ≤ graph.kernels.size
  /-- The transitions of a state are its moves. -/
  numbered : ∀ (state : Nat) (edges : List (SymbolId × Nat)),
    graph.gotos[state]? = some edges → ∃ kernel,
      graph.kernels[state]? = some kernel ∧
        Rules.Numbers graph.kernels edges (rules.moves kernel)
  /-- Every state can be reached. -/
  reached : ∀ state < graph.kernels.size,
    Relation.ReflTransGen graph.Adjacent 0 state

/-- A kernel has only one number. -/
theorem Explored.state_unique
    {rules : Rules}
    {graph : KernelGraph}
    (explored : Explored rules graph)
    {left right : Nat}
    {kernel : List Item}
    (leftFound : graph.kernels[left]? = some kernel)
    (rightFound : graph.kernels[right]? = some kernel) :
    left = right := by
  obtain ⟨leftInside, leftIs⟩ := Array.getElem?_eq_some_iff.mp leftFound
  obtain ⟨rightInside, rightIs⟩ := Array.getElem?_eq_some_iff.mp rightFound
  have same : graph.kernels.toList[left] = graph.kernels.toList[right] := by
    simp [leftIs, rightIs]
  exact explored.distinct.getElem_inj_iff.mp same

namespace Rules

variable {rules : Rules}

theorem explored_start (rules : Rules) :
    Explored rules ⟨#[rules.startKernel], #[]⟩ where
  first := rfl
  isKernel state kernel found := by
    obtain rfl : kernel = rules.startKernel := by
      have member := Array.mem_of_getElem? found
      simpa using member
    exact rules.isKernel_start
  distinct := List.nodup_singleton _
  behind := Nat.zero_le 1
  numbered := by simp
  reached state inside := by
    obtain rfl : state = 0 := Nat.lt_one_iff.mp inside
    exact .refl

theorem isKernel_of_mem_moves
    {kernel moved : List Item}
    {symbol : SymbolId}
    (isKernel : rules.IsKernel kernel)
    (member : (symbol, moved) ∈ rules.moves kernel) :
    rules.IsKernel moved := by
  obtain ⟨other, -, same⟩ := List.mem_map.mp member
  obtain ⟨rfl, rfl⟩ := Prod.mk.inj same
  exact isKernel.of_moved other

/-- The symbols of the moves of a kernel are different. -/
theorem nodup_moves (rules : Rules) (kernel : List Item) :
    ((rules.moves kernel).map Prod.fst).Nodup := by
  unfold moves
  rw [List.map_map]
  exact (List.map_id' _).symm ▸ (ascends_ascending _).nodup

theorem Numbers.map_fst
    {kernels : Array (List Item)}
    {edges : List (SymbolId × Nat)}
    {moves : List (SymbolId × List Item)}
    (numbers : Numbers kernels edges moves) :
    edges.map Prod.fst = moves.map Prod.fst := by
  induction numbers with
  | nil => rfl
  | cons matched _ inductionHypothesis =>
      rw [List.map_cons, List.map_cons, matched.1, inductionHypothesis]

/-- A listed pair is found if the keys are different. -/
theorem lookup_of_mem
    {entries : List (SymbolId × Nat)}
    {symbol : SymbolId}
    {target : Nat}
    (distinct : (entries.map Prod.fst).Nodup)
    (member : (symbol, target) ∈ entries) :
    entries.lookup symbol = some target := by
  induction entries with
  | nil => simp at member
  | cons entry entries inductionHypothesis =>
      obtain ⟨first, found⟩ := entry
      obtain ⟨isNew, restDistinct⟩ := List.nodup_cons.mp distinct
      rcases List.mem_cons.mp member with same | later
      · obtain ⟨rfl, rfl⟩ := Prod.mk.inj same
        simp
      · have different : symbol ≠ first := by
          rintro rfl
          exact isNew (List.mem_map.mpr ⟨_, later, rfl⟩)
        rw [List.lookup_cons, beq_false_of_ne different]
        exact inductionHypothesis restDistinct later

/-- The graph with the moves of one more kernel. -/
def exploreOne (rules : Rules) (graph : KernelGraph) (kernel : List Item) :
    KernelGraph :=
  ⟨(numberMoves graph.kernels (rules.moves kernel)).1,
    graph.gotos.push (numberMoves graph.kernels (rules.moves kernel)).2⟩

theorem extends_exploreOne (graph : KernelGraph) (kernel : List Item) :
    Extends graph.kernels (rules.exploreOne graph kernel).kernels :=
  extends_numberMoves graph.kernels (rules.moves kernel)

theorem Extends.size_le
    {before after : Array (List Item)}
    (extension : Extends before after) :
    before.size ≤ after.size := by
  refine Nat.le_of_not_lt fun smaller => ?_
  have found := extension.keeps _ _ (Array.getElem?_eq_getElem smaller)
  exact Nat.lt_irrefl _ (Array.getElem?_eq_some_iff.mp found).1

theorem goto_exploreOne_of_goto
    {graph : KernelGraph}
    {kernel : List Item}
    {source target : Nat}
    {symbol : SymbolId}
    (edge : graph.goto source symbol = some target) :
    (rules.exploreOne graph kernel).goto source symbol = some target := by
  obtain ⟨edges, found, isTarget⟩ := Option.bind_eq_some_iff.mp edge
  have inside := (Array.getElem?_eq_some_iff.mp found).1
  refine Option.bind_eq_some_iff.mpr ⟨edges, ?_, isTarget⟩
  simp only [exploreOne, Array.getElem?_push, Nat.ne_of_lt inside, if_false,
    found]

/-- The state that was explored leads to the kernels that are new. -/
theorem adjacent_exploreOne
    {graph : KernelGraph}
    {kernel : List Item}
    {state : Nat}
    (inside : state < (rules.exploreOne graph kernel).kernels.size) :
    state < graph.kernels.size ∨
      (rules.exploreOne graph kernel).Adjacent graph.gotos.size state := by
  obtain earlier | ⟨-, symbol, edge⟩ :=
    mem_of_numberMoves (Array.getElem?_eq_getElem inside)
  · exact .inl (Array.getElem?_eq_some_iff.mp earlier).1
  · have numbers := numbers_numberMoves graph.kernels (rules.moves kernel)
    have distinct := numbers.map_fst ▸ rules.nodup_moves kernel
    refine .inr ⟨symbol, ?_⟩
    simp [KernelGraph.goto, exploreOne, lookup_of_mem distinct edge]

/-- One more state is explored. -/
theorem explored_exploreOne
    {graph : KernelGraph}
    {kernel : List Item}
    (explored : Explored rules graph)
    (next : graph.kernels[graph.gotos.size]? = some kernel) :
    Explored rules (rules.exploreOne graph kernel) := by
  have extension := rules.extends_exploreOne graph kernel
  have inside : graph.gotos.size < graph.kernels.size :=
    (Array.getElem?_eq_some_iff.mp next).1
  have stillReached : ∀ state < graph.kernels.size, Relation.ReflTransGen
      (rules.exploreOne graph kernel).Adjacent 0 state := by
    intro state stateInside
    refine Relation.ReflTransGen.mono ?_ _ _
      (explored.reached state stateInside)
    rintro source target ⟨symbol, edge⟩
    exact ⟨symbol, goto_exploreOne_of_goto edge⟩
  refine ⟨extension.keeps _ _ explored.first, ?_,
    extension.distinct explored.distinct, ?_, ?_, ?_⟩
  · intro state other found
    rcases mem_of_numberMoves found with earlier | ⟨⟨symbol, member⟩, -⟩
    · exact explored.isKernel state other earlier
    · exact isKernel_of_mem_moves (explored.isKernel _ _ next) member
  · have grows := extension.size_le
    simp only [exploreOne, Array.size_push] at grows ⊢
    omega
  · intro state edges found
    simp only [exploreOne, Array.getElem?_push] at found
    split at found
    · next last =>
        obtain rfl := Option.some.inj found
        exact ⟨kernel, extension.keeps _ _ (last ▸ next),
          numbers_numberMoves _ _⟩
    · obtain ⟨other, otherFound, otherNumbers⟩ :=
        explored.numbered state edges found
      exact ⟨other, extension.keeps _ _ otherFound,
        otherNumbers.extend extension⟩
  · intro state stateInside
    rcases adjacent_exploreOne stateInside with earlier | adjacent
    · exact stillReached state earlier
    · exact (stillReached _ inside).tail adjacent

/-- Exploration keeps what is right and goes on until every kernel has its
transitions or the fuel is used up. -/
theorem explored_exploreKernels
    (fuel : Nat)
    {graph : KernelGraph}
    (explored : Explored rules graph) :
    Explored rules (rules.exploreKernels fuel graph) ∧
      ((rules.exploreKernels fuel graph).gotos.size =
          (rules.exploreKernels fuel graph).kernels.size ∨
        (rules.exploreKernels fuel graph).gotos.size =
          graph.gotos.size + fuel) := by
  induction fuel generalizing graph with
  | zero => exact ⟨explored, .inr rfl⟩
  | succ fuel inductionHypothesis =>
      unfold exploreKernels
      split
      · next ended =>
          have atEnd := Array.getElem?_eq_none_iff.mp ended
          exact ⟨explored, .inl (Nat.le_antisymm explored.behind atEnd)⟩
      · next kernel next =>
          obtain ⟨result, ends⟩ :=
            inductionHypothesis (explored_exploreOne explored next)
          refine ⟨result, ends.imp_right fun size => size.trans ?_⟩
          simp only [exploreOne, Array.size_push]
          omega

/-- There are no more kernels than sets of items. -/
theorem size_kernels_le_of_explored
    {graph : KernelGraph}
    (explored : Explored rules graph) :
    graph.kernels.size ≤ 1 <<< rules.itemCount := by
  classical
  have memberIsKernel : ∀ kernel ∈ graph.kernels.toList,
      rules.IsKernel kernel := by
    intro kernel member
    obtain ⟨state, inside, rfl⟩ :=
      Array.mem_iff_getElem.mp (Array.mem_toList_iff.mp member)
    exact explored.isKernel state _ (Array.getElem?_eq_getElem inside)
  have distinct : (graph.kernels.toList.map List.toFinset).Nodup := by
    refine explored.distinct.map_on fun left leftMember right rightMember
      same => ?_
    refine Item.eq_of_pairwise_precedes (memberIsKernel left leftMember).ordered
      (memberIsKernel right rightMember).ordered fun item => ?_
    simpa using Finset.ext_iff.mp same item
  have inside : (graph.kernels.toList.map List.toFinset).toFinset ⊆
      rules.allItems.toFinset.powerset := by
    intro items member
    obtain ⟨kernel, kernelMember, rfl⟩ :=
      List.mem_map.mp (List.mem_toFinset.mp member)
    have isKernel := memberIsKernel kernel kernelMember
    refine Finset.mem_powerset.mpr fun item itemMember => ?_
    rw [List.mem_toFinset] at itemMember ⊢
    exact mem_allItems.mpr
      ⟨isKernel.known item itemMember, isKernel.inBody item itemMember⟩
  calc graph.kernels.size
      = (graph.kernels.toList.map List.toFinset).toFinset.card := by
        rw [List.toFinset_card_of_nodup distinct]
        simp
    _ ≤ rules.allItems.toFinset.powerset.card := Finset.card_le_card inside
    _ = 2 ^ rules.allItems.toFinset.card := Finset.card_powerset _
    _ ≤ 1 <<< rules.itemCount := by
        rw [Nat.one_shiftLeft]
        refine Nat.pow_le_pow_right (by omega) ?_
        exact length_allItems ▸ List.toFinset_card_le _

theorem explored_kernelGraph (rules : Rules) :
    Explored rules rules.kernelGraph :=
  (explored_exploreKernels _ rules.explored_start).1

/-- Every kernel has its transitions in the end. -/
theorem size_gotos_kernelGraph (rules : Rules) :
    rules.kernelGraph.gotos.size = rules.kernelGraph.kernels.size := by
  obtain ⟨explored, complete | used⟩ :=
    explored_exploreKernels ((1 <<< rules.itemCount) + 1) rules.explored_start
  · exact complete
  · have few := size_kernels_le_of_explored explored
    have behind := explored.behind
    simp only [List.size_toArray, List.length_nil] at used
    omega

variable {state target : Nat} {kernel : List Item} {symbol : SymbolId}

/-- A transition leads to the kernel moved over its symbol, and some item asks
for it. -/
theorem kernel_of_goto
    (found : rules.kernelGraph.kernels[state]? = some kernel)
    (edge : rules.kernelGraph.goto state symbol = some target) :
    rules.kernelGraph.kernels[target]? = some (rules.moved kernel symbol) ∧
      ∃ item ∈ rules.closure kernel, rules.next? item = some symbol := by
  obtain ⟨edges, edgesFound, isTarget⟩ := Option.bind_eq_some_iff.mp edge
  obtain ⟨other, otherFound, numbers⟩ :=
    rules.explored_kernelGraph.numbered state edges edgesFound
  obtain rfl := Option.some.inj (found.symm.trans otherFound)
  obtain ⟨bothSome, leads⟩ := numbers.lookup symbol
  rw [isTarget, Option.isSome_some] at bothSome
  obtain ⟨moved, isMoved⟩ := Option.isSome_iff_exists.mp bothSome.symm
  obtain ⟨asked, rfl⟩ := lookup_moves.mp isMoved
  exact ⟨leads target _ isTarget isMoved, asked⟩

/-- There is a transition over every symbol after a dot. -/
theorem exists_goto
    {item : Item}
    (found : rules.kernelGraph.kernels[state]? = some kernel)
    (member : item ∈ rules.closure kernel)
    (next : rules.next? item = some symbol) :
    ∃ target, rules.kernelGraph.goto state symbol = some target := by
  have inside : state < rules.kernelGraph.gotos.size :=
    rules.size_gotos_kernelGraph ▸ (Array.getElem?_eq_some_iff.mp found).1
  obtain ⟨other, otherFound, numbers⟩ :=
    rules.explored_kernelGraph.numbered state _
      (Array.getElem?_eq_getElem inside)
  obtain rfl := Option.some.inj (found.symm.trans otherFound)
  have isMoved := lookup_moves.mpr ⟨⟨item, member, next⟩, rfl⟩
  have bothSome := (numbers.lookup symbol).1
  rw [isMoved, Option.isSome_some] at bothSome
  obtain ⟨target, isTarget⟩ := Option.isSome_iff_exists.mp bothSome
  exact ⟨target, Option.bind_eq_some_iff.mpr
    ⟨_, Array.getElem?_eq_getElem inside, isTarget⟩⟩

/-- No transition leads back to the first state. -/
theorem target_ne_zero
    (edge : rules.kernelGraph.goto state symbol = some target) :
    target ≠ 0 := by
  rintro rfl
  obtain ⟨edges, edgesFound, -⟩ := Option.bind_eq_some_iff.mp edge
  obtain ⟨kernel, found, -⟩ :=
    rules.explored_kernelGraph.numbered state edges edgesFound
  obtain ⟨movedFound, -⟩ := kernel_of_goto found edge
  have same := Option.some.inj
    (rules.explored_kernelGraph.first.symm.trans movedFound)
  have member : ⟨rules.accept, 0⟩ ∈ rules.moved kernel symbol :=
    same ▸ List.mem_singleton_self _
  obtain ⟨before, -, -, advanced⟩ := mem_moved.mp member
  simp [Item.advance] at advanced

end Rules
end Table
end ParserGenerator
