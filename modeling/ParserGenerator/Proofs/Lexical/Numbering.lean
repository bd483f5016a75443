import Mathlib.Data.Fintype.BigOperators
import Mathlib.Data.Fintype.Option
import Mathlib.Data.Fintype.List
import ParserGenerator.Proofs.Lexical.Intervals
import ParserGenerator.Proofs.Lexical.Paths
import ParserGenerator.Proofs.Reach

/-!
# Numbering the states

The states of the deterministic automaton are numbered by their keys. There
are only so many keys, so that all of them are expanded in the end. Each state
then does what its key says: it branches on an undecided condition, or it sends
units on to the states of the nodes that its reading edges lead to.
-/

namespace ParserGenerator
namespace Lexical

/-! ## Keys -/

section Decisions

variable {decided others : List (Nat × Bool)} {node : Nat} {holds : Bool}

/-- The decisions are in the order of their nodes. -/
def Ordered (decided : List (Nat × Bool)) : Prop :=
  decided.Pairwise fun left right => left.1 < right.1

theorem lookup_eq_some_iff (ordered : Ordered decided) :
    decided.lookup node = some holds ↔ (node, holds) ∈ decided := by
  induction decided with
  | nil => simp
  | cons entry rest inductionHypothesis =>
      obtain ⟨other, answer⟩ := entry
      obtain ⟨least, restOrdered⟩ := List.pairwise_cons.mp ordered
      rw [List.lookup_cons, List.mem_cons, Prod.mk.injEq]
      by_cases same : node = other
      · subst same
        have later : (node, holds) ∉ rest := by
          intro member
          have less : node < node := least (node, holds) member
          omega
        simp [later, eq_comm]
      · rw [beq_false_of_ne same, inductionHypothesis restOrdered]
        simp [same]

/-- Decisions with the same answers are equal. -/
theorem Ordered.eq_of_lookup
    (ordered : Ordered decided)
    (othersOrdered : Ordered others)
    (same : ∀ node, decided.lookup node = others.lookup node) :
    decided = others := by
  have nodup {entries : List (Nat × Bool)} (isOrdered : Ordered entries) :
      entries.Nodup := by
    refine isOrdered.imp fun {left right} less equal => ?_
    rw [equal] at less
    exact Nat.lt_irrefl _ less
  have permuted : decided.Perm others := by
    refine (List.perm_ext_iff_of_nodup (nodup ordered)
      (nodup othersOrdered)).mpr fun entry => ?_
    rw [← lookup_eq_some_iff ordered, ← lookup_eq_some_iff othersOrdered, same]
  refine permuted.eq_of_pairwise ?_ ordered othersOrdered
  intro first second _ _ less greater
  omega

theorem mem_decide {entry : Nat × Bool} :
    entry ∈ Numbering.decide node holds decided ↔
      entry = (node, holds) ∨ entry ∈ decided := by
  fun_induction Numbering.decide node holds decided with
  | case1 => simp
  | case2 other answer rest less => simp
  | case3 other answer rest notLess inductionHypothesis =>
      rw [List.mem_cons, inductionHypothesis, List.mem_cons, or_left_comm]

theorem Ordered.decide
    (ordered : Ordered decided)
    (undecided : decided.lookup node = none) :
    Ordered (Numbering.decide node holds decided) := by
  fun_induction Numbering.decide node holds decided with
  | case1 => exact List.pairwise_singleton _ _
  | case2 other answer rest less =>
      refine List.pairwise_cons.mpr ⟨fun entry member => ?_, ordered⟩
      rcases List.mem_cons.mp member with rfl | later
      · exact less
      · exact Nat.lt_trans less ((List.pairwise_cons.mp ordered).1 entry later)
  | case3 other answer rest notLess inductionHypothesis =>
      obtain ⟨least, restOrdered⟩ := List.pairwise_cons.mp ordered
      rw [List.lookup_cons] at undecided
      have differs : node ≠ other := by
        rintro rfl
        simp at undecided
      rw [beq_false_of_ne differs] at undecided
      refine List.pairwise_cons.mpr ⟨fun entry member => ?_,
        inductionHypothesis restOrdered undecided⟩
      rcases mem_decide.mp member with rfl | isRest
      · show other < node
        omega
      · exact least entry isRest

end Decisions

namespace Nfa

variable {nfa : Nfa} {decided : List (Nat × Bool)} {seeds : List Nat}

/-- The key of a set of nodes before anything is decided. -/
def freshKey (nfa : Nfa) (seeds : List Nat) : Key := ⟨nfa.closure [] seeds, []⟩

/-- The key after one more decision. -/
def decidedKey (nfa : Nfa) (key : Key) (node : Nat) (holds : Bool) : Key :=
  ⟨nfa.closure (Numbering.decide node holds key.decided) key.nodes,
    Numbering.decide node holds key.decided⟩

theorem ascends_closure : Ascends (nfa.closure decided seeds) :=
  List.Pairwise.filter _ List.pairwise_lt_range

theorem mem_closure {node : Nat} :
    node ∈ nfa.closure decided seeds ↔
      Reachable nfa.nodes.size (nfa.freeTargets decided) seeds node :=
  mem_reachable

theorem lt_of_mem_closure
    {node : Nat}
    (member : node ∈ nfa.closure decided seeds) :
    node < nfa.nodes.size := by
  cases mem_closure.mp member with
  | seed _ inside => exact inside
  | step _ _ inside => exact inside

/-! ## Terminals of nodes -/

section Terminals

variable {nodes : List Nat} {index : Nat}

theorem mem_terminals
    {index : Nat} :
    (index ∈ nodes.filterMap fun number =>
      match (nfa.node number).accept with
      | some (.terminal index) => some index
      | _ => none) ↔
      ∃ node ∈ nodes, (nfa.node node).accept = some (.terminal index) := by
  rw [List.mem_filterMap]
  refine exists_congr fun node => and_congr_right fun _ => ?_
  split
  · next other accepts => simp [accepts]
  · next other => simpa using other index

/-- The terminal of some nodes is the first one that is accepted. -/
theorem terminal?_eq_some (found : nfa.terminal? nodes = some index) :
    (∃ node ∈ nodes, (nfa.node node).accept = some (.terminal index)) ∧
      ∀ node ∈ nodes, ∀ other,
        (nfa.node node).accept = some (.terminal other) → index ≤ other := by
  obtain ⟨member, least⟩ := List.min?_eq_some_iff.mp found
  refine ⟨mem_terminals.mp member, fun node isNode other accepts => ?_⟩
  exact least other (mem_terminals.mpr ⟨node, isNode, accepts⟩)

theorem terminal?_eq_none_iff :
    nfa.terminal? nodes = none ↔
      ∀ node ∈ nodes, ∀ index,
        (nfa.node node).accept ≠ some (.terminal index) := by
  rw [terminal?, List.min?_eq_none_iff, List.eq_nil_iff_forall_not_mem]
  constructor
  · intro absent node isNode index accepts
    exact absent index (mem_terminals.mpr ⟨node, isNode, accepts⟩)
  · intro absent index member
    obtain ⟨node, isNode, accepts⟩ := mem_terminals.mp member
    exact absent node isNode index accepts

end Terminals

end Nfa

namespace Key

/-- The nodes of a key are in order and exist, and only they are decided. -/
structure Valid (nfa : Nfa) (key : Key) : Prop where
  /-- The nodes ascend. -/
  ascends : Ascends key.nodes
  /-- The nodes exist. -/
  inside : ∀ node ∈ key.nodes, node < nfa.nodes.size
  /-- The decisions are in the order of their nodes. -/
  ordered : Ordered key.decided
  /-- Only nodes of the key are decided. -/
  within : ∀ entry ∈ key.decided, entry.1 ∈ key.nodes

variable {nfa : Nfa} {key other : Key}

theorem valid_freshKey (nfa : Nfa) (seeds : List Nat) :
    (nfa.freshKey seeds).Valid nfa where
  ascends := Nfa.ascends_closure
  inside := fun _ => Nfa.lt_of_mem_closure
  ordered := .nil
  within := fun _ impossible => absurd impossible List.not_mem_nil

theorem Valid.decidedKey
    {node : Nat}
    (valid : key.Valid nfa)
    (member : node ∈ key.nodes)
    (undecided : key.decided.lookup node = none)
    (holds : Bool) :
    (nfa.decidedKey key node holds).Valid nfa where
  ascends := Nfa.ascends_closure
  inside := fun _ => Nfa.lt_of_mem_closure
  ordered := valid.ordered.decide undecided
  within := by
    intro entry isDecided
    have isNode : entry.1 ∈ key.nodes := by
      rcases mem_decide.mp isDecided with rfl | earlier
      · exact member
      · exact valid.within entry earlier
    exact Nfa.mem_closure.mpr (.seed isNode (valid.inside _ isNode))

/-- For each node whether it is in the key and what is decided there. -/
def code (size : Nat) (key : Key) : Fin size → Bool × Option Bool :=
  fun node => (decide (node.val ∈ key.nodes), key.decided.lookup node.val)

theorem Valid.lookup_eq_none
    {node : Nat}
    (valid : key.Valid nfa)
    (outside : nfa.nodes.size ≤ node) :
    key.decided.lookup node = none := by
  cases found : key.decided.lookup node with
  | none => rfl
  | some holds =>
      have member := (lookup_eq_some_iff valid.ordered).mp found
      have isInside := valid.inside _ (valid.within _ member)
      omega

/-- Valid keys with the same code are equal. -/
theorem Valid.eq_of_code
    (valid : key.Valid nfa)
    (otherValid : other.Valid nfa)
    (same : key.code nfa.nodes.size = other.code nfa.nodes.size) :
    key = other := by
  have sameAt (node : Nat) (inside : node < nfa.nodes.size) :
      decide (node ∈ key.nodes) = decide (node ∈ other.nodes) ∧
        key.decided.lookup node = other.decided.lookup node :=
    Prod.mk.inj (congrFun same ⟨node, inside⟩)
  have sameNodes : key.nodes = other.nodes := by
    refine valid.ascends.eq_of_mem_iff otherValid.ascends fun node => ?_
    by_cases inside : node < nfa.nodes.size
    · exact decide_eq_decide.mp (sameAt node inside).1
    · exact ⟨fun member => absurd (valid.inside node member) inside,
        fun member => absurd (otherValid.inside node member) inside⟩
  have sameDecided : key.decided = other.decided := by
    refine valid.ordered.eq_of_lookup otherValid.ordered fun node => ?_
    by_cases inside : node < nfa.nodes.size
    · exact (sameAt node inside).2
    · have outside := Nat.not_lt.mp inside
      rw [valid.lookup_eq_none outside, otherValid.lookup_eq_none outside]
  obtain ⟨nodes, decided⟩ := key
  obtain ⟨otherNodes, otherDecided⟩ := other
  rw [mk.injEq]
  exact ⟨sameNodes, sameDecided⟩

theorem keyCount_eq_pow : keyCount nfa = 6 ^ nfa.nodes.size := by
  have grows (nodes : List Node) (count : Nat) :
      nodes.foldl (fun count _ => count * 6) count =
        count * 6 ^ nodes.length := by
    induction nodes generalizing count with
    | nil => simp
    | cons node rest inductionHypothesis =>
        rw [List.foldl_cons, inductionHypothesis, List.length_cons, pow_succ',
          mul_assoc]
  rw [keyCount, ← Array.foldl_toList, grows, one_mul, Array.length_toList]

/-- There are no more keys than the automaton allows for. -/
theorem length_le_keyCount
    {keys : List Key}
    (distinct : keys.Nodup)
    (valid : ∀ key ∈ keys, key.Valid nfa) :
    keys.length ≤ keyCount nfa := by
  have distinctCodes : (keys.map (code nfa.nodes.size)).Nodup :=
    distinct.map_on fun key isKey other isOther same =>
      (valid key isKey).eq_of_code (valid other isOther) same
  have bounded := distinctCodes.length_le_card
  rw [List.length_map] at bounded
  refine Nat.le_trans bounded (Nat.le_of_eq ?_)
  simp [keyCount_eq_pow]

end Key

/-! ## Numberings -/

namespace Numbering

variable {nfa : Nfa} {numbering before middle after : Numbering} {key : Key}
  {seeds : List Nat}

/-- The tables of a numbering agree with its keys. -/
structure Sound (nfa : Nfa) (numbering : Numbering) : Prop where
  /-- A key is found where it is. -/
  numbers : ∀ (key : Key) (number : Nat),
    numbering.numbers[key]? = some number ↔
      numbering.keys[number]? = some key
  /-- The states asked for have their keys. -/
  known : ∀ (seeds : List Nat) (number : Nat),
    numbering.known[seeds]? = some number →
      numbering.keys[number]? = some (nfa.freshKey seeds)
  /-- All keys are valid. -/
  valid : ∀ (number : Nat) (key : Key),
    numbering.keys[number]? = some key → key.Valid nfa

theorem Sound.distinct (sound : numbering.Sound nfa) :
    numbering.keys.toList.Nodup := by
  rw [List.nodup_iff_pairwise_ne, List.pairwise_iff_getElem]
  intro left right leftInside rightInside less same
  have leftFound : numbering.keys[left]? =
      some numbering.keys.toList[left] := by
    rw [← Array.getElem?_toList, List.getElem?_eq_getElem leftInside]
  have rightFound : numbering.keys[right]? =
      some numbering.keys.toList[left] := by
    rw [← Array.getElem?_toList, List.getElem?_eq_getElem rightInside, same]
  have sameNumber := ((sound.numbers _ _).mpr leftFound).symm.trans
    ((sound.numbers _ _).mpr rightFound)
  exact Nat.ne_of_lt less (Option.some.inj sameNumber)

theorem Sound.size_le (sound : numbering.Sound nfa) :
    numbering.keys.size ≤ keyCount nfa := by
  rw [← Array.length_toList]
  refine Key.length_le_keyCount sound.distinct fun key member => ?_
  obtain ⟨number, found⟩ := List.mem_iff_getElem?.mp member
  exact sound.valid number key (Array.getElem?_toList ▸ found)

theorem sound_empty (nfa : Nfa) : Sound nfa empty := by
  constructor
  · intro key number
    simp [empty]
  · intro seeds number
    simp [empty]
  · intro number key
    simp [empty]

/-- A sound numbering with the keys of another one. -/
structure Grows (nfa : Nfa) (before after : Numbering) : Prop where
  /-- The numbering is sound. -/
  sound : after.Sound nfa
  /-- The keys keep their numbers. -/
  keys : ∀ (number : Nat) (key : Key), before.keys[number]? = some key →
    after.keys[number]? = some key

theorem Grows.refl (sound : numbering.Sound nfa) : Grows nfa numbering numbering :=
  ⟨sound, fun _ _ found => found⟩

theorem Grows.trans
    (first : Grows nfa before middle)
    (second : Grows nfa middle after) :
    Grows nfa before after :=
  ⟨second.sound, fun number key found =>
    second.keys number key (first.keys number key found)⟩

/-- A key gets a number. -/
theorem grows_number
    (sound : numbering.Sound nfa)
    (valid : key.Valid nfa) :
    Grows nfa numbering (numbering.number key).1 ∧
      (numbering.number key).1.keys[(numbering.number key).2]? = some key := by
  unfold number
  cases found : numbering.numbers[key]? with
  | some number =>
      exact ⟨.refl sound, (sound.numbers key number).mp found⟩
  | none =>
      have fresh (number : Nat) : numbering.keys[number]? ≠ some key := by
        intro isKey
        rw [(sound.numbers key number).mpr isKey] at found
        cases found
      have old {number : Nat} {other : Key}
          (isKey : numbering.keys[number]? = some other) :
          (numbering.keys.push key)[number]? = some other := by
        have inside := (Array.getElem?_eq_some_iff.mp isKey).1
        rw [Array.getElem?_push, if_neg (Nat.ne_of_lt inside), isKey]
      refine ⟨⟨⟨?_, ?_, ?_⟩, fun number other => old⟩, by simp⟩
      · intro other number
        rw [Std.HashMap.getElem?_insert, Array.getElem?_push]
        by_cases same : key = other
        · subst same
          by_cases last : number = numbering.keys.size
          · simp [last]
          · simp [last, fresh number, Ne.symm last]
        · by_cases last : number = numbering.keys.size
          · have missing : numbering.keys[numbering.keys.size]? = none := by
              simp
            simp [last, same, sound.numbers]
          · simp [last, same, sound.numbers]
      · intro seeds number isKnown
        exact old (sound.known seeds number isKnown)
      · intro number other isKey
        rw [Array.getElem?_push] at isKey
        split at isKey
        · exact Option.some.inj isKey ▸ valid
        · exact sound.valid number other isKey

/-- What a set of nodes is resolved to: nothing if it is empty, else the number
of its key. -/
def Resolves (nfa : Nfa) (keys : Array Key) (seeds : List Nat)
    (found : Option Nat) : Prop :=
  seeds = [] ∧ found = none ∨
    seeds ≠ [] ∧ ∃ number, found = some number ∧
      keys[number]? = some (nfa.freshKey seeds)

theorem Resolves.grows
    {found : Option Nat}
    (resolves : Resolves nfa before.keys seeds found)
    (grows : Grows nfa before after) :
    Resolves nfa after.keys seeds found := by
  rcases resolves with none | ⟨nonempty, number, isFound, isKey⟩
  · exact .inl none
  · exact .inr ⟨nonempty, number, isFound, grows.keys _ _ isKey⟩

/-- The state of a set of nodes in a numbering. -/
def resolve (numbering : Numbering) (nfa : Nfa) (seeds : List Nat) :
    Option Nat :=
  if seeds.isEmpty then none else numbering.numbers[nfa.freshKey seeds]?

theorem Resolves.resolve_eq
    {found : Option Nat}
    (sound : numbering.Sound nfa)
    (resolves : Resolves nfa numbering.keys seeds found) :
    numbering.resolve nfa seeds = found := by
  rcases resolves with ⟨rfl, rfl⟩ | ⟨nonempty, number, rfl, isKey⟩
  · rfl
  · rw [resolve, if_neg (by simpa using nonempty)]
    exact (sound.numbers _ _).mpr isKey

theorem grows_stateOf (sound : numbering.Sound nfa) (seeds : List Nat) :
    Grows nfa numbering (numbering.stateOf nfa seeds).1 ∧
      Resolves nfa (numbering.stateOf nfa seeds).1.keys seeds
        (numbering.stateOf nfa seeds).2 := by
  unfold stateOf
  split
  · next isEmpty =>
      exact ⟨.refl sound, .inl ⟨List.isEmpty_iff.mp isEmpty, rfl⟩⟩
  · next notEmpty =>
      have nonempty : seeds ≠ [] := fun isEmpty =>
        notEmpty (List.isEmpty_iff.mpr isEmpty)
      cases isKnown : numbering.known[seeds]? with
      | some number =>
          exact ⟨.refl sound, .inr ⟨nonempty, number, rfl,
            sound.known seeds number isKnown⟩⟩
      | none =>
          obtain ⟨grows, isKey⟩ :=
            grows_number sound (Key.valid_freshKey nfa seeds)
          refine ⟨⟨⟨grows.sound.numbers, ?_, grows.sound.valid⟩, grows.keys⟩,
            .inr ⟨nonempty, _, rfl, isKey⟩⟩
          intro others number found
          dsimp only at found
          rw [Std.HashMap.getElem?_insert] at found
          split at found
          · next same =>
              obtain rfl := eq_of_beq same
              obtain rfl := Option.some.inj found
              exact isKey
          · exact grows.sound.known others number found

theorem grows_statesOf
    (sound : numbering.Sound nfa)
    (sets : List (List Nat)) :
    Grows nfa numbering (numbering.statesOf nfa sets).1 ∧
      List.Forall₂ (Resolves nfa (numbering.statesOf nfa sets).1.keys) sets
        (numbering.statesOf nfa sets).2 := by
  induction sets generalizing numbering with
  | nil => exact ⟨.refl sound, .nil⟩
  | cons seeds rest inductionHypothesis =>
      obtain ⟨first, resolves⟩ := grows_stateOf sound seeds
      obtain ⟨others, resolvesRest⟩ := inductionHypothesis first.sound
      exact ⟨first.trans others, .cons (resolves.grows others) resolvesRest⟩

/-- The state of a set of nodes has a number. -/
def Resolved (numbering : Numbering) (nfa : Nfa) (seeds : List Nat) : Prop :=
  Resolves nfa numbering.keys seeds (numbering.resolve nfa seeds)

theorem Resolves.resolved
    {found : Option Nat}
    (resolves : Resolves nfa before.keys seeds found)
    (grows : Grows nfa before after) :
    after.Resolved nfa seeds := by
  have now := resolves.grows grows
  rw [Resolved, now.resolve_eq grows.sound]
  exact now

variable {edges : List (CharSet × Nat)}

/-- The row of the units at a point, as any later numbering resolves it. -/
theorem grows_row (sound : numbering.Sound nfa) (point : Option Nat) :
    Grows nfa numbering (numbering.row nfa edges point).1 ∧
      ∀ later, Grows nfa (numbering.row nfa edges point).1 later →
        (numbering.row nfa edges point).2 =
            rowOf (pointTarget edges (later.resolve nfa) point) ∧
          ∀ category ≠ .surrogate,
            later.Resolved nfa (targets (openEdges edges point) category) := by
  obtain ⟨grows, resolves⟩ := grows_statesOf sound
    (unitCategories.map (targets (openEdges edges point)))
  refine ⟨grows, fun later laterGrows => ⟨?_, ?_⟩⟩
  · have resolved : List.Forall₂ Eq
        ((unitCategories.map (targets (openEdges edges point))).map
          (later.resolve nfa)) (numbering.row nfa edges point).2 := by
      rw [List.forall₂_map_left_iff]
      exact resolves.imp fun seeds found isFound =>
        (isFound.grows laterGrows).resolve_eq laterGrows.sound
    rw [List.forall₂_eq_eq_eq, List.map_map] at resolved
    exact resolved.symm
  · intro category notSurrogate
    have asked : targets (openEdges edges point) category ∈
        unitCategories.map (targets (openEdges edges point)) :=
      List.mem_map_of_mem (mem_unitCategories.mpr notSurrogate)
    obtain ⟨found, -, isFound⟩ := exists_right_of_mem resolves asked
    exact isFound.resolved laterGrows

/-- The cell of an interval, as any later numbering resolves it. -/
theorem grows_cell (sound : numbering.Sound nfa) (interval : CodeRange) :
    Grows nfa numbering (numbering.cell nfa edges interval).1 ∧
      ∀ later, Grows nfa (numbering.cell nfa edges interval).1 later →
        (numbering.cell nfa edges interval).2 =
            cellOf edges (later.resolve nfa) interval ∧
          ∀ category,
            (isSurrogate interval.first = true ↔ category = .surrogate) →
              later.Resolved nfa
                (targets (openEdges edges (some interval.first)) category) := by
  unfold cell cellOf
  split
  · next inGap =>
      obtain ⟨grows, resolves⟩ := grows_stateOf sound
        (targets (openEdges edges (some interval.first)) .surrogate)
      refine ⟨grows, fun later laterGrows => ⟨?_, ?_⟩⟩
      · rw [pointTarget,
          (resolves.grows laterGrows).resolve_eq laterGrows.sound]
      · intro category isGap
        rw [isGap.mp inGap]
        exact resolves.resolved laterGrows
  · next notInGap =>
      obtain ⟨grows, resolves⟩ := grows_row sound (some interval.first)
      refine ⟨grows, fun later laterGrows => ⟨?_, ?_⟩⟩
      · exact congrArg Cell.plain (resolves later laterGrows).1
      · intro category isGap
        exact (resolves later laterGrows).2 category fun isSurrogate =>
          notInGap (isGap.mpr isSurrogate)

/-- The cells of some intervals, as any later numbering resolves them. -/
theorem grows_cells
    (sound : numbering.Sound nfa)
    (intervals : List CodeRange) :
    Grows nfa numbering (numbering.cells nfa edges intervals).1 ∧
      ∀ later, Grows nfa (numbering.cells nfa edges intervals).1 later →
        (numbering.cells nfa edges intervals).2 =
            intervals.map (fun interval =>
              (interval, cellOf edges (later.resolve nfa) interval)) ∧
          ∀ interval ∈ intervals, ∀ category,
            (isSurrogate interval.first = true ↔ category = .surrogate) →
              later.Resolved nfa
                (targets (openEdges edges (some interval.first)) category) := by
  induction intervals generalizing numbering with
  | nil => exact ⟨.refl sound, fun _ _ => ⟨rfl, by simp⟩⟩
  | cons interval rest inductionHypothesis =>
      obtain ⟨first, isCell⟩ := grows_cell sound interval
      obtain ⟨others, areCells⟩ := inductionHypothesis first.sound
      refine ⟨first.trans others, fun later laterGrows => ?_⟩
      obtain ⟨cell, resolved⟩ := isCell later (others.trans laterGrows)
      obtain ⟨cells, restResolved⟩ := areCells later laterGrows
      refine ⟨?_, List.forall_mem_cons.mpr ⟨resolved, restResolved⟩⟩
      rw [List.map_cons, ← cell, ← cells]
      rfl

/-! ## Expanded keys -/

/-- The first undecided condition of a key is that of one of its nodes. -/
theorem undecided?_eq_some
    {node condition : Nat}
    (found : nfa.undecided? key = some (node, condition)) :
    node ∈ key.nodes ∧ key.decided.lookup node = none ∧
      nfa.condition? node = some condition := by
  obtain ⟨number, member, isFound⟩ := List.exists_of_findSome?_eq_some found
  cases decision : key.decided.lookup number with
  | some holds => simp [decision] at isFound
  | none =>
      simp only [decision, Option.map_eq_some_iff, Prod.mk.injEq] at isFound
      obtain ⟨tested, isTested, rfl, rfl⟩ := isFound
      exact ⟨member, decision, isTested⟩

/-- The state of a key that reads, where `resolve` gives the states of sets of
nodes. -/
def readingState (nfa : Nfa) (isLazy : Nat → Bool)
    (resolve : List Nat → Option Nat) (key : Key) : State :=
  let edges := nfa.readingEdges isLazy key.nodes
  let outside := rowOf (pointTarget edges resolve none)
  let terminal := nfa.terminal? key.nodes
  ⟨compress outside ((intervals edges).map fun interval =>
      (interval, cellOf edges resolve interval)),
    Dispatch.ofRow outside,
    terminal.isSome || nfa.meetsCondition key.nodes, terminal, none⟩

/-- The points and categories at which a state that reads looks for targets. -/
inductive Asks (edges : List (CharSet × Nat)) : Option Nat → Category → Prop
  | outside
      {category : Category}
      (other : category ≠ .surrogate) :
      Asks edges none category
  | inside
      {interval : CodeRange}
      {category : Category}
      (member : interval ∈ intervals edges)
      (isGap : isSurrogate interval.first = true ↔ category = .surrogate) :
      Asks edges (some interval.first) category

/-- A state is made from its key, once the keys that it leads to have
numbers. -/
def Makes (nfa : Nfa) (isLazy : Nat → Bool) (numbering : Numbering)
    (key : Key) (state : State) : Prop :=
  match nfa.undecided? key with
  | some (node, condition) => ∃ branch,
      state = ⟨[], .nowhere, false, none, some branch⟩ ∧
      numbering.keys[branch.condition]? =
        some (nfa.freshKey [conditionEntry nfa condition]) ∧
      numbering.keys[branch.onTrue]? = some (nfa.decidedKey key node true) ∧
      numbering.keys[branch.onFalse]? = some (nfa.decidedKey key node false)
  | none => state = readingState nfa isLazy (numbering.resolve nfa) key ∧
      ∀ point category,
        Asks (nfa.readingEdges isLazy key.nodes) point category →
          numbering.Resolved nfa (targets
            (openEdges (nfa.readingEdges isLazy key.nodes) point) category)

section Made

variable {isLazy : Nat → Bool} {state : State} {node condition : Nat}

/-- A state that is made from a key with an undecided condition branches. -/
theorem Makes.branches
    (makes : Makes nfa isLazy numbering key state)
    (found : nfa.undecided? key = some (node, condition)) :
    ∃ branch, state = ⟨[], .nowhere, false, none, some branch⟩ ∧
      numbering.keys[branch.condition]? =
        some (nfa.freshKey [conditionEntry nfa condition]) ∧
      numbering.keys[branch.onTrue]? = some (nfa.decidedKey key node true) ∧
      numbering.keys[branch.onFalse]? =
        some (nfa.decidedKey key node false) := by
  rw [Makes, found] at makes
  exact makes

/-- A state that is made from a key with nothing to decide reads. -/
theorem Makes.reads
    (makes : Makes nfa isLazy numbering key state)
    (complete : nfa.undecided? key = none) :
    state = readingState nfa isLazy (numbering.resolve nfa) key ∧
      ∀ point category,
        Asks (nfa.readingEdges isLazy key.nodes) point category →
          numbering.Resolved nfa (targets
            (openEdges (nfa.readingEdges isLazy key.nodes) point) category) := by
  rw [Makes, complete] at makes
  exact makes

end Made

/-- Where a condition is undecided, a state branches. -/
theorem expand_eq_branch
    {isLazy : Nat → Bool}
    {node condition start onTrue onFalse : Nat}
    {one two three : Numbering}
    (found : nfa.undecided? key = some (node, condition))
    (isStart : numbering.number
      (nfa.freshKey [conditionEntry nfa condition]) = (one, start))
    (isTrue : one.number (nfa.decidedKey key node true) = (two, onTrue))
    (isFalse : two.number (nfa.decidedKey key node false) = (three, onFalse)) :
    numbering.expand nfa isLazy key =
      (three,
        ⟨[], .nowhere, false, none, some ⟨start, onTrue, onFalse⟩⟩) := by
  unfold Nfa.freshKey at isStart
  unfold Nfa.decidedKey at isTrue isFalse
  simp only [expand, found, branch, isStart, isTrue, isFalse]

theorem grows_expand
    (isLazy : Nat → Bool)
    (sound : numbering.Sound nfa)
    (valid : key.Valid nfa) :
    Grows nfa numbering (numbering.expand nfa isLazy key).1 ∧
      ∀ later, Grows nfa (numbering.expand nfa isLazy key).1 later →
        Makes nfa isLazy later key (numbering.expand nfa isLazy key).2 := by
  unfold Makes
  cases found : nfa.undecided? key with
  | some entry =>
      obtain ⟨node, condition⟩ := entry
      obtain ⟨member, undecided, -⟩ := undecided?_eq_some found
      obtain ⟨first, startKey⟩ := grows_number sound
        (Key.valid_freshKey nfa [conditionEntry nfa condition])
      rcases isStart : numbering.number
        (nfa.freshKey [conditionEntry nfa condition]) with ⟨one, start⟩
      rw [isStart] at first startKey
      obtain ⟨second, trueKey⟩ := grows_number first.sound
        (valid.decidedKey member undecided true)
      rcases isTrue : one.number (nfa.decidedKey key node true) with
        ⟨two, onTrue⟩
      rw [isTrue] at second trueKey
      obtain ⟨third, falseKey⟩ := grows_number second.sound
        (valid.decidedKey member undecided false)
      rcases isFalse : two.number (nfa.decidedKey key node false) with
        ⟨three, onFalse⟩
      rw [isFalse] at third falseKey
      rw [expand_eq_branch found isStart isTrue isFalse]
      refine ⟨(first.trans second).trans third, fun later laterGrows =>
        ⟨⟨start, onTrue, onFalse⟩, rfl, ?_, ?_, ?_⟩⟩
      · exact laterGrows.keys _ _ (third.keys _ _ (second.keys _ _ startKey))
      · exact laterGrows.keys _ _ (third.keys _ _ trueKey)
      · exact laterGrows.keys _ _ falseKey
  | none =>
      unfold expand
      rw [found]
      obtain ⟨first, isRow⟩ := @grows_row nfa numbering
        (nfa.readingEdges isLazy key.nodes) sound none
      obtain ⟨second, areCells⟩ := @grows_cells nfa _
        (nfa.readingEdges isLazy key.nodes) first.sound
        (intervals (nfa.readingEdges isLazy key.nodes))
      refine ⟨first.trans second, fun later laterGrows => ?_⟩
      obtain ⟨outside, outsideResolved⟩ :=
        isRow later (second.trans laterGrows)
      obtain ⟨cells, cellsResolved⟩ := areCells later laterGrows
      refine ⟨?_, fun point category asks => ?_⟩
      · rw [readingState, ← outside, ← cells]
      · cases asks with
        | outside other => exact outsideResolved category other
        | inside member isGap => exact cellsResolved _ member category isGap

/-- Expanding the keys one after the other, until each one has a state. -/
inductive Finishes (nfa : Nfa) (isLazy : Nat → Bool) :
    Numbering → Array State → Numbering → Array State → Prop
  | done
      {numbering : Numbering}
      {states : Array State}
      (complete : numbering.keys[states.size]? = none) :
      Finishes nfa isLazy numbering states numbering states
  | expand
      {numbering last : Numbering}
      {states final : Array State}
      {key : Key}
      (found : numbering.keys[states.size]? = some key)
      (rest : Finishes nfa isLazy (numbering.expand nfa isLazy key).1
        (states.push (numbering.expand nfa isLazy key).2) last final) :
      Finishes nfa isLazy numbering states last final

/-- The states so far are made from their keys. -/
def Covers (nfa : Nfa) (isLazy : Nat → Bool) (numbering : Numbering)
    (states : Array State) : Prop :=
  states.size ≤ numbering.keys.size ∧
    ∀ (number : Nat) (state : State), states[number]? = some state →
      ∃ key, numbering.keys[number]? = some key ∧
        ∀ later, Grows nfa numbering later → Makes nfa isLazy later key state

theorem Covers.push
    {isLazy : Nat → Bool}
    {states : Array State}
    (sound : numbering.Sound nfa)
    (covers : Covers nfa isLazy numbering states)
    (found : numbering.keys[states.size]? = some key) :
    Covers nfa isLazy (numbering.expand nfa isLazy key).1
      (states.push (numbering.expand nfa isLazy key).2) := by
  obtain ⟨grows, makes⟩ :=
    grows_expand isLazy sound (sound.valid _ key found)
  constructor
  · have isKey := grows.keys _ _ found
    rw [Array.size_push]
    exact (Array.getElem?_eq_some_iff.mp isKey).1
  · intro number state isState
    rw [Array.getElem?_push] at isState
    split at isState
    · next isLast =>
        obtain rfl := Option.some.inj isState
        exact ⟨key, isLast ▸ grows.keys _ _ found, makes⟩
    · obtain ⟨old, isOld, oldMakes⟩ := covers.2 number state isState
      exact ⟨old, grows.keys _ _ isOld, fun later laterGrows =>
        oldMakes later (grows.trans laterGrows)⟩

/-- There are only so many keys, so that expanding comes to an end. -/
theorem exists_finishes
    (isLazy : Nat → Bool)
    {fuel : Nat}
    {states : Array State}
    (sound : numbering.Sound nfa)
    (covers : Covers nfa isLazy numbering states)
    (enough : keyCount nfa < states.size + fuel) :
    ∃ last, Finishes nfa isLazy numbering states last
      (expandAll nfa isLazy fuel numbering states) := by
  induction fuel generalizing numbering states with
  | zero =>
      have bounded := sound.size_le
      have behind := covers.1
      omega
  | succ fuel inductionHypothesis =>
      unfold expandAll
      cases found : numbering.keys[states.size]? with
      | none => exact ⟨numbering, .done found⟩
      | some key =>
          obtain ⟨grows, -⟩ :=
            grows_expand isLazy sound (sound.valid _ key found)
          obtain ⟨last, finishes⟩ := inductionHypothesis grows.sound
            (covers.push sound found) (by rw [Array.size_push]; omega)
          exact ⟨last, .expand found finishes⟩

/-- In the end every key has a state, which is made from it. -/
theorem Finishes.covers
    {isLazy : Nat → Bool}
    {last : Numbering}
    {states final : Array State}
    (finishes : Finishes nfa isLazy numbering states last final)
    (sound : numbering.Sound nfa)
    (covers : Covers nfa isLazy numbering states) :
    Grows nfa numbering last ∧ Covers nfa isLazy last final ∧
      final.size = last.keys.size := by
  induction finishes with
  | done complete =>
      exact ⟨.refl sound, covers,
        Nat.le_antisymm covers.1 (Array.getElem?_eq_none_iff.mp complete)⟩
  | @expand numbering last states final key found _ inductionHypothesis =>
      obtain ⟨grows, -⟩ := grows_expand isLazy sound (sound.valid _ key found)
      obtain ⟨lastGrows, lastCovers, allExpanded⟩ :=
        inductionHypothesis grows.sound (covers.push sound found)
      exact ⟨grows.trans lastGrows, lastCovers, allExpanded⟩

/-- A state does what its key says, in terms of the keys of the states. -/
def Expands [CharacterData] (nfa : Nfa) (isLazy : Nat → Bool)
    (keys : Array Key) (key : Key) (state : State) : Prop :=
  match nfa.undecided? key with
  | some (node, condition) => ∃ branch, state.branch = some branch ∧
      keys[branch.condition]? =
        some (nfa.freshKey [conditionEntry nfa condition]) ∧
      keys[branch.onTrue]? = some (nfa.decidedKey key node true) ∧
      keys[branch.onFalse]? = some (nfa.decidedKey key node false)
  | none => state.branch = none ∧
      state.terminal = nfa.terminal? key.nodes ∧
      state.isFinal =
        ((nfa.terminal? key.nodes).isSome || nfa.meetsCondition key.nodes) ∧
      ∀ unit : CodeUnit, Resolves nfa keys
        (unitTargets (nfa.readingEdges isLazy key.nodes) unit.toNat)
        (state.next unit)

/-- A state that is made from its key does what the key says. -/
theorem Makes.expands
    [CharacterData]
    {isLazy : Nat → Bool}
    {state : State}
    (apart : CharacterData.SurrogatesApart)
    (makes : Makes nfa isLazy numbering key state) :
    Expands nfa isLazy numbering.keys key state := by
  unfold Expands
  cases found : nfa.undecided? key with
  | some entry =>
      obtain ⟨branch, rfl, keys⟩ := makes.branches found
      exact ⟨branch, rfl, keys⟩
  | none =>
      obtain ⟨rfl, resolved⟩ := makes.reads found
      refine ⟨rfl, rfl, rfl, fun unit => ?_⟩
      have isUnit : unit.toNat < supplementaryFirst := unit.toNat_lt
      have known : unit.toNat ≤ maxCodePoint :=
        Nat.le_trans (Nat.le_of_lt isUnit) (by decide)
      obtain ⟨interval, isInterval, inside⟩ :=
        exists_interval (nfa.readingEdges isLazy key.nodes) isUnit
      have sends : (readingState nfa isLazy (numbering.resolve nfa) key).next
          unit = numbering.resolve nfa (unitTargets
            (nfa.readingEdges isLazy key.nodes) unit.toNat) :=
        next_eq_resolve apart rfl rfl unit
      have asked : numbering.Resolved nfa
          (unitTargets (nfa.readingEdges isLazy key.nodes) unit.toNat) := by
        rw [← targets_eq_unitTargets isInterval inside isUnit]
        refine resolved _ _ (.inside isInterval ?_)
        rw [isSurrogate_first isInterval inside]
        exact (apart unit.toNat known).symm
      rw [sends]
      exact asked

end Numbering

/-- The subset construction ends with some states and the numbers of their
keys. -/
def Constructs (nfa : Nfa) (isLazy : Nat → Bool) (numbering : Numbering)
    (states : Array State) : Prop :=
  Numbering.Finishes nfa isLazy (Numbering.empty.stateOf nfa [0]).1 #[]
    numbering states

theorem exists_constructs (nfa : Nfa) (isLazy : Nat → Bool) :
    ∃ numbering, Constructs nfa isLazy numbering (determinize nfa isLazy) := by
  obtain ⟨grows, -⟩ :=
    Numbering.grows_stateOf (Numbering.sound_empty nfa) [0]
  exact Numbering.exists_finishes isLazy grows.sound ⟨Nat.zero_le _, by simp⟩
    (show keyCount nfa < 0 + (keyCount nfa + 1) by omega)

namespace Constructs

variable {nfa : Nfa} {isLazy : Nat → Bool} {numbering : Numbering}
  {states : Array State} {number : Nat} {key : Key} {state : State}

theorem covers (constructs : Constructs nfa isLazy numbering states) :
    Numbering.Grows nfa (Numbering.empty.stateOf nfa [0]).1 numbering ∧
      Numbering.Covers nfa isLazy numbering states ∧
      states.size = numbering.keys.size := by
  obtain ⟨grows, -⟩ :=
    Numbering.grows_stateOf (Numbering.sound_empty nfa) [0]
  exact Numbering.Finishes.covers constructs grows.sound
    ⟨Nat.zero_le _, by simp⟩

theorem sound (constructs : Constructs nfa isLazy numbering states) :
    numbering.Sound nfa :=
  constructs.covers.1.sound

theorem size_eq (constructs : Constructs nfa isLazy numbering states) :
    states.size = numbering.keys.size :=
  constructs.covers.2.2

theorem first (constructs : Constructs nfa isLazy numbering states) :
    numbering.keys[0]? = some (nfa.freshKey [0]) := by
  refine constructs.covers.1.keys _ _ ?_
  simp [Numbering.stateOf, Numbering.number, Numbering.empty, Nfa.freshKey]

/-- Every state is made from its key. -/
theorem exists_key
    (constructs : Constructs nfa isLazy numbering states)
    (isState : states[number]? = some state) :
    ∃ key, numbering.keys[number]? = some key ∧
      Numbering.Makes nfa isLazy numbering key state := by
  obtain ⟨key, isKey, makes⟩ := constructs.covers.2.1.2 number state isState
  exact ⟨key, isKey, makes numbering (.refl constructs.sound)⟩

/-- A state is made from every key. -/
theorem exists_state
    (constructs : Constructs nfa isLazy numbering states)
    (isKey : numbering.keys[number]? = some key) :
    ∃ state, states[number]? = some state ∧
      Numbering.Makes nfa isLazy numbering key state := by
  have inside := (Array.getElem?_eq_some_iff.mp isKey).1
  have isState := Array.getElem?_eq_getElem (constructs.size_eq ▸ inside)
  obtain ⟨found, isFound, makes⟩ := constructs.exists_key isState
  obtain rfl := Option.some.inj (isKey.symm.trans isFound)
  exact ⟨_, isState, makes⟩

end Constructs

namespace Automaton

variable [CharacterData]

/-- The nondeterministic automaton of some terminals. -/
abbrev nfaOf (terminals : List Terminal) (anyCase : Bool) : Nfa :=
  Nfa.ofPatterns anyCase (terminals.map Terminal.pattern)

/-- Which of some terminals are lazy, by number. -/
abbrev lazyOf (terminals : List Terminal) (index : Nat) : Bool :=
  (terminals.map Terminal.isLazy).toArray[index]?.getD false

/-- The states of the automaton of some terminals are constructed with these
numbers of keys. -/
def Numbered (terminals : List Terminal) (anyCase : Bool)
    (numbering : Numbering) : Prop :=
  Constructs (nfaOf terminals anyCase) (lazyOf terminals) numbering
    (build terminals anyCase).states

theorem states_build (terminals : List Terminal) (anyCase : Bool) :
    (build terminals anyCase).states =
      determinize (nfaOf terminals anyCase) (lazyOf terminals) := by
  simp only [build, nfaOf]

theorem exists_numbered (terminals : List Terminal) (anyCase : Bool) :
    ∃ numbering, Numbered terminals anyCase numbering := by
  unfold Numbered
  rw [states_build]
  exact exists_constructs (nfaOf terminals anyCase) (lazyOf terminals)

end Automaton

/-- The states of a deterministic automaton have keys, the first one that of
the start, and do what their keys say. -/
structure Keyed [CharacterData] (nfa : Nfa) (isLazy : Nat → Bool)
    (keys : Array Key) (states : Array State) : Prop where
  /-- There are as many states as keys. -/
  size_eq : states.size = keys.size
  /-- The automaton starts at the first node. -/
  first : keys[0]? = some (nfa.freshKey [0])
  /-- All keys are valid. -/
  valid : ∀ (number : Nat) (key : Key), keys[number]? = some key →
    key.Valid nfa
  /-- Every key has a state that does what it says. -/
  expands : ∀ (number : Nat) (key : Key), keys[number]? = some key →
    ∃ state, states[number]? = some state ∧
      Numbering.Expands nfa isLazy keys key state

theorem exists_keyed
    [CharacterData]
    (apart : CharacterData.SurrogatesApart)
    (nfa : Nfa)
    (isLazy : Nat → Bool) :
    ∃ keys, Keyed nfa isLazy keys (determinize nfa isLazy) := by
  obtain ⟨numbering, constructs⟩ := exists_constructs nfa isLazy
  refine ⟨numbering.keys, constructs.size_eq, constructs.first,
    constructs.sound.valid, fun number key isKey => ?_⟩
  obtain ⟨state, isState, makes⟩ := constructs.exists_state isKey
  exact ⟨state, isState, makes.expands apart⟩

end Lexical
end ParserGenerator
