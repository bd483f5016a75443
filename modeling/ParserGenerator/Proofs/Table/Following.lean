import ParserGenerator.Proofs.Table.First
import ParserGenerator.Proofs.Table.States

/-!
# Closures with lookaheads are exact

The lookaheads of an item in a closure are those it has in the kernel and those
that it gets from the items that call for it: symbols that can come next after
the non-terminal, or that an override names, and, if nothing need come next,
the lookaheads of the calling item.
-/

namespace ParserGenerator
namespace Table

namespace Rules

/-- The symbols that follow a symbol of the body by an override. -/
def override? (rules : Rules) (item : Item) (symbol : SymbolId) :
    Option SymbolSet :=
  rules.grammar.productions[item.production]?.bind
    (·.lookaheadOverride? symbol)

/-- A symbol follows the non-terminal after the dot whatever follows the
item. -/
def Arises (rules : Rules) (item : Item) (symbol : SymbolId) : Prop :=
  ∃ called rest, (rules.body item.production).drop item.dot = called :: rest ∧
    match rules.override? item called with
    | some symbols => symbol ∈ symbols
    | none => rules.grammar.Starts rest symbol

/-- What follows the item follows the non-terminal after the dot. -/
def Inherits (rules : Rules) (item : Item) : Prop :=
  ∃ called rest, (rules.body item.production).drop item.dot = called :: rest ∧
    rules.override? item called = none ∧ rules.grammar.Nullable rest

/-- The lookaheads of the items of a closure. -/
inductive Follows (rules : Rules) (kernel : List LookaheadItem) :
    Item → SymbolId → Prop
  | kernel
      {item : Item}
      {symbols : SymbolSet}
      {symbol : SymbolId}
      (member : (item, symbols) ∈ kernel)
      (found : symbol ∈ symbols) :
      Follows rules kernel item symbol
  | arises
      {item : Item}
      {production : ProductionId}
      {symbol : SymbolId}
      (member : item ∈ rules.closure (kernel.map Prod.fst))
      (called : production ∈ rules.predicted item)
      (arises : rules.Arises item symbol) :
      Follows rules kernel ⟨production, 0⟩ symbol
  | inherits
      {item : Item}
      {production : ProductionId}
      {symbol : SymbolId}
      (follows : Follows rules kernel item symbol)
      (called : production ∈ rules.predicted item)
      (inherits : rules.Inherits item) :
      Follows rules kernel ⟨production, 0⟩ symbol

/-- Rules for which a table is attempted: the grammar is well formed and the
goal is a non-terminal. -/
structure WellFormed (rules : Rules) : Prop where
  /-- The grammar is well formed. -/
  grammar : rules.grammar.WellFormed
  /-- The goal is defined by productions. -/
  goal : rules.grammar.isNonTerminal rules.goal = true

variable {rules : Rules}

theorem WellFormed.body_known
    (wellFormed : rules.WellFormed)
    {production : ProductionId}
    {symbol : SymbolId}
    (member : symbol ∈ rules.body production) :
    symbol < rules.grammar.symbols.size := by
  unfold body at member
  split at member
  · obtain rfl := List.mem_singleton.mp member
    exact Grammar.lt_size_of_isNonTerminal wellFormed.goal
  · cases found : rules.grammar.productions[production]? with
    | none => simp [found] at member
    | some rule =>
        refine wellFormed.grammar.bodies rule (Array.mem_of_getElem? found)
          symbol ?_
        simpa [found] using member

theorem next?_eq_some_iff {item : Item} {symbol : SymbolId} :
    rules.next? item = some symbol ↔
      ∃ rest, (rules.body item.production).drop item.dot = symbol :: rest := by
  unfold next?
  rw [← List.head?_drop, List.head?_eq_some_iff]

section Split

variable {item : Item} {called symbol : SymbolId} {rest : List SymbolId}
  (split : (rules.body item.production).drop item.dot = called :: rest)

include split

theorem arises_iff :
    rules.Arises item symbol ↔
      match rules.override? item called with
      | some symbols => symbol ∈ symbols
      | none => rules.grammar.Starts rest symbol := by
  unfold Arises
  rw [split]
  constructor
  · rintro ⟨_, _, same, holds⟩
    obtain ⟨rfl, rfl⟩ := List.cons.inj same
    exact holds
  · exact fun holds => ⟨called, rest, rfl, holds⟩

theorem inherits_iff :
    rules.Inherits item ↔
      rules.override? item called = none ∧ rules.grammar.Nullable rest := by
  unfold Inherits
  rw [split]
  constructor
  · rintro ⟨_, _, same, holds⟩
    obtain ⟨rfl, rfl⟩ := List.cons.inj same
    exact holds
  · exact fun holds => ⟨called, rest, rfl, holds⟩

theorem WellFormed.rest_known (wellFormed : rules.WellFormed) :
    ∀ other ∈ rest, other < rules.grammar.symbols.size := by
  intro other member
  have inDrop : other ∈ (rules.body item.production).drop item.dot := by
    rw [split]
    exact List.mem_cons_of_mem called member
  exact wellFormed.body_known (List.mem_of_mem_drop inDrop)

/-- The symbols that follow the non-terminal after the dot. -/
theorem mem_followers
    (wellFormed : rules.WellFormed)
    {symbols : SymbolSet} :
    symbol ∈ (rules.override? item called).getD
        (rules.analysis.firsts.leadingBefore rest symbols) ↔
      rules.Arises item symbol ∨ rules.Inherits item ∧ symbol ∈ symbols := by
  have starts : symbol ∈
      ((FirstSets.ofGrammar rules.grammar).leading rest).1 ↔
        rules.grammar.Starts rest symbol :=
    FirstSets.mem_leading_ofGrammar wellFormed.grammar
      (wellFormed.rest_known split)
  have nullable := FirstSets.leading_ofGrammar_snd wellFormed.grammar rest
  rw [arises_iff split, inherits_iff split]
  cases rules.override? item called with
  | some overriding => simp
  | none => simp [FirstSets.mem_leadingBefore, analysis, starts, nullable]

end Split
end Rules

namespace Analysis

variable {rules : Rules}

/-- What an item contributes to the symbols that follow the non-terminal after
its dot. -/
theorem contribution?_eq_some_iff
    {item : Item}
    {symbols found : SymbolSet}
    {called : SymbolId} :
    rules.analysis.contribution? (item, symbols) = some (called, found) ↔
      ∃ rest, (rules.body item.production).drop item.dot = called :: rest ∧
        rules.grammar.isNonTerminal called = true ∧
        found = (rules.override? item called).getD
          (rules.analysis.firsts.leadingBefore rest symbols) := by
  cases drops : (rules.body item.production).drop item.dot with
  | nil => simp [contribution?, drops]
  | cons first rest =>
      by_cases nonTerminal : rules.grammar.isNonTerminal first = true
      · have isContribution : rules.analysis.contribution? (item, symbols) =
            some (first, (rules.override? item first).getD
              (rules.analysis.firsts.leadingBefore rest symbols)) := by
          simp [contribution?, drops, nonTerminal, Rules.override?]
        rw [isContribution]
        constructor
        · intro same
          obtain ⟨rfl, rfl⟩ := Prod.mk.inj (Option.some.inj same)
          exact ⟨rest, rfl, nonTerminal, rfl⟩
        · rintro ⟨_, same, -, rfl⟩
          obtain ⟨rfl, rfl⟩ := List.cons.inj same
          rfl
      · have isNone : rules.analysis.contribution? (item, symbols) = none := by
          simp [contribution?, drops, nonTerminal]
        rw [isNone]
        constructor
        · simp
        · rintro ⟨_, same, isNonTerminal, -⟩
          obtain ⟨rfl, -⟩ := List.cons.inj same
          exact absurd isNonTerminal nonTerminal

/-- The symbols that may follow a symbol. -/
theorem mem_followingHead
    {following : Array SymbolSet}
    {production : ProductionId}
    {symbol : SymbolId} :
    symbol ∈ rules.analysis.followingHead following production ↔
      ∃ head, rules.head? production = some head ∧
        symbol ∈ setAt following head := by
  unfold followingHead
  cases heads : rules.head? production with
  | none => simp [heads]
  | some head => simp [heads, setAt]

/-- A contribution adds to the symbols after one non-terminal. -/
theorem mem_setAt_contribute
    (wellFormed : rules.WellFormed)
    {following : Array SymbolSet}
    {item : Item}
    {symbols : SymbolSet}
    {other symbol : SymbolId} :
    symbol ∈ setAt (rules.analysis.contribute following (item, symbols)) other ↔
      symbol ∈ setAt following other ∨
        rules.next? item = some other ∧
          rules.grammar.isNonTerminal other = true ∧
          other < following.size ∧
          (rules.Arises item symbol ∨
            rules.Inherits item ∧ symbol ∈ symbols) := by
  unfold contribute
  split
  · next called found contributes =>
      obtain ⟨rest, split, nonTerminal, rfl⟩ :=
        contribution?_eq_some_iff.mp contributes
      have next := Rules.next?_eq_some_iff.mpr ⟨rest, split⟩
      rw [mem_setAt_modify, Rules.mem_followers split wellFormed]
      constructor
      · rintro (earlier | ⟨rfl, inside, added⟩)
        · exact .inl earlier
        · exact .inr ⟨next, nonTerminal, inside, added⟩
      · rintro (earlier | ⟨isNext, -, inside, added⟩)
        · exact .inl earlier
        · exact .inr ⟨Option.some.inj (next.symm.trans isNext), inside, added⟩
  · next isNone =>
      refine ⟨.inl, ?_⟩
      rintro (earlier | ⟨next, nonTerminal, -, -⟩)
      · exact earlier
      · obtain ⟨rest, split⟩ := Rules.next?_eq_some_iff.mp next
        have contributes := isNone.symm.trans
          (contribution?_eq_some_iff.mpr ⟨rest, split, nonTerminal, rfl⟩)
        simp at contributes

/-! ## Regularity -/

/-- A set of known symbols, or of the symbol that stands for what may follow,
in order. -/
def RegularSet (rules : Rules) (symbols : SymbolSet) : Prop :=
  Ascends symbols ∧ ∀ symbol ∈ symbols, symbol < rules.analysis.fresh + 1

/-- Families of such sets, one for each symbol. -/
abbrev RegularFollowing (rules : Rules) (following : Array SymbolSet) : Prop :=
  RegularFamily rules.analysis.fresh (rules.analysis.fresh + 1) following

theorem regularSet_leadingBefore
    {symbols : SymbolSet}
    (rest : List SymbolId)
    (regular : RegularSet rules symbols) :
    RegularSet rules (rules.analysis.firsts.leadingBefore rest symbols) := by
  obtain ⟨ascends, below⟩ :=
    (FirstSets.regular_ofGrammar rules.grammar).leading rest
  have known : ∀ symbol ∈ (rules.analysis.firsts.leading rest).1,
      symbol < rules.analysis.fresh + 1 :=
    fun symbol member => Nat.lt_succ_of_lt (below symbol member)
  unfold FirstSets.leadingBefore
  dsimp only
  split
  · refine ⟨ascends_mergeAscending _ regular.1, fun symbol member => ?_⟩
    rcases mem_mergeAscending.mp member with here | inTail
    · exact known symbol here
    · exact regular.2 symbol inTail
  · exact ⟨ascends, known⟩

theorem mem_of_lookup
    {Value : Type}
    {entries : List (Nat × Value)}
    {key : Nat}
    {value : Value}
    (found : entries.lookup key = some value) :
    (key, value) ∈ entries := by
  induction entries with
  | nil => simp at found
  | cons entry entries inductionHypothesis =>
      obtain ⟨first, other⟩ := entry
      rw [List.lookup_cons] at found
      split at found
      · next same =>
          obtain rfl := eq_of_beq same
          obtain rfl := Option.some.inj found
          exact List.mem_cons_self
      · exact List.mem_cons_of_mem _ (inductionHypothesis found)

theorem regularSet_override
    (wellFormed : rules.WellFormed)
    {item : Item}
    {called : SymbolId}
    {symbols : SymbolSet}
    (overrides : rules.override? item called = some symbols) :
    RegularSet rules symbols := by
  obtain ⟨rule, found, isOverride⟩ := Option.bind_eq_some_iff.mp overrides
  obtain ⟨ascends, below⟩ := wellFormed.grammar.overrides rule
    (Array.mem_of_getElem? found) _ (mem_of_lookup isOverride)
  exact ⟨ascends, fun symbol member => Nat.lt_succ_of_lt (below symbol member)⟩

theorem regular_contribute
    (wellFormed : rules.WellFormed)
    {following : Array SymbolSet}
    {entry : LookaheadItem}
    (regular : RegularFollowing rules following)
    (entryRegular : RegularSet rules entry.2) :
    RegularFollowing rules (rules.analysis.contribute following entry) := by
  unfold contribute
  split
  · next called found contributes =>
      obtain ⟨rest, -, -, rfl⟩ := contribution?_eq_some_iff.mp contributes
      have foundRegular : RegularSet rules
          ((rules.override? entry.1 called).getD
            (rules.analysis.firsts.leadingBefore rest entry.2)) := by
        cases overrides : rules.override? entry.1 called with
        | none => exact regularSet_leadingBefore rest entryRegular
        | some symbols => exact regularSet_override wellFormed overrides
      exact regular.extend called foundRegular.1 foundRegular.2
  · exact regular

theorem regularSet_followingHead
    {following : Array SymbolSet}
    (regular : RegularFollowing rules following)
    (production : ProductionId) :
    RegularSet rules (rules.analysis.followingHead following production) := by
  unfold followingHead
  cases heads : rules.head? production with
  | none => exact ⟨by simpa [heads] using Ascends.nil, by simp [heads]⟩
  | some head =>
      have isSet : ((rules.analysis.rules.head? production).bind
          (following[·]?)).getD [] = setAt following head := by
        simp [heads, setAt]
      rw [isSet]
      exact ⟨regular.ascends head, regular.below head⟩

theorem regular_followingPass
    (wellFormed : rules.WellFormed)
    {following : Array SymbolSet}
    (called : List ProductionId)
    (regular : RegularFollowing rules following) :
    RegularFollowing rules (rules.analysis.followingPass called following) :=
  List.foldlRecOn called _ regular fun _ regular production _ =>
    regular_contribute wellFormed regular
      (regularSet_followingHead regular production)

/-- What kernels contribute. -/
def kernelFollowing (rules : Rules) (kernel : List LookaheadItem) :
    Array SymbolSet :=
  kernel.foldl rules.analysis.contribute
    (Array.replicate rules.grammar.symbols.size [])

theorem regular_kernelFollowing
    (wellFormed : rules.WellFormed)
    {kernel : List LookaheadItem}
    (regular : ∀ entry ∈ kernel, RegularSet rules entry.2) :
    RegularFollowing rules (kernelFollowing rules kernel) :=
  List.foldlRecOn kernel _ (regularFamily_empty _ _)
    fun _ followingRegular entry member =>
      regular_contribute wellFormed followingRegular (regular entry member)

theorem regular_following
    (wellFormed : rules.WellFormed)
    {kernel : List LookaheadItem}
    (regular : ∀ entry ∈ kernel, RegularSet rules entry.2) :
    RegularFollowing rules (rules.analysis.following kernel) :=
  settle_induction (RegularFollowing rules)
    (fun _ followingRegular =>
      regular_followingPass wellFormed _ followingRegular) _
    (regular_kernelFollowing wellFormed regular)

/-- The closure of regular sets is regular. -/
theorem regularSet_of_mem_closure
    (wellFormed : rules.WellFormed)
    {kernel : List LookaheadItem}
    (regular : ∀ entry ∈ kernel, RegularSet rules entry.2)
    {entry : LookaheadItem}
    (member : entry ∈ rules.analysis.closure kernel) :
    RegularSet rules entry.2 := by
  rcases mem_closure.mp member with inKernel | ⟨production, -, rfl⟩
  · exact regular entry inKernel
  · exact regularSet_followingHead (regular_following wellFormed regular)
      production

/-! ## Exactness -/

/-- Whether a symbol is known to follow a non-terminal. -/
def HasFollower (following : Array SymbolSet)
    (fact : SymbolId × SymbolId) : Prop :=
  fact.2 ∈ setAt following fact.1

theorem hasFollower_contribute
    (wellFormed : rules.WellFormed)
    (following : Array SymbolSet)
    (entry : LookaheadItem)
    (fact : SymbolId × SymbolId)
    (has : HasFollower following fact) :
    HasFollower (rules.analysis.contribute following entry) fact :=
  (mem_setAt_contribute wellFormed).mpr (.inl has)

theorem hasFollower_followingPass
    (wellFormed : rules.WellFormed)
    (called : List ProductionId)
    (following : Array SymbolSet)
    (fact : SymbolId × SymbolId)
    (has : HasFollower following fact) :
    HasFollower (rules.analysis.followingPass called following) fact :=
  has_foldl HasFollower
    (fun _ _ _ found => hasFollower_contribute wellFormed _ _ _ found)
    called has

/-- Another pass adds nothing. -/
theorem followingPass_following
    (wellFormed : rules.WellFormed)
    {kernel : List LookaheadItem}
    (regular : ∀ entry ∈ kernel, RegularSet rules entry.2) :
    rules.analysis.followingPass (rules.calledFor (kernel.map Prod.fst))
        (rules.analysis.following kernel) =
      rules.analysis.following kernel := by
  let facts := Finset.range rules.analysis.fresh ×ˢ
    Finset.range (rules.analysis.fresh + 1)
  refine settle_fixed_of_facts (RegularFollowing rules) HasFollower facts
    ?_ ?_ ?_ ?_ (regular_kernelFollowing wellFormed regular) ?_
  · exact fun following followingRegular =>
      regular_followingPass wellFormed _ followingRegular
  · exact fun following _ fact has =>
      hasFollower_followingPass wellFormed _ following fact has
  · rintro following followingRegular ⟨first, symbol⟩ has
    have inside := lt_size_of_mem_setAt has
    have below := followingRegular.below first symbol has
    rw [followingRegular.size] at inside
    exact Finset.mem_product.mpr
      ⟨Finset.mem_range.mpr inside, Finset.mem_range.mpr below⟩
  · exact fun left right leftRegular rightRegular same =>
      leftRegular.eq_of_mem_iff rightRegular fun first symbol =>
        same (first, symbol)
  · rw [Finset.card_product, Finset.card_range, Finset.card_range]
    exact Nat.lt_succ_self _

/-- All that is known to follow a non-terminal is a lookahead of its
productions. -/
def SoundFollowing (rules : Rules) (kernel : List LookaheadItem)
    (following : Array SymbolSet) : Prop :=
  ∀ head, ∀ symbol ∈ setAt following head, ∀ production,
    rules.head? production = some head →
      rules.Follows kernel ⟨production, 0⟩ symbol

theorem SoundFollowing.contribute
    (wellFormed : rules.WellFormed)
    {kernel : List LookaheadItem}
    {following : Array SymbolSet}
    {item : Item}
    {symbols : SymbolSet}
    (sound : SoundFollowing rules kernel following)
    (member : item ∈ rules.closure (kernel.map Prod.fst))
    (follows : ∀ symbol ∈ symbols, rules.Follows kernel item symbol) :
    SoundFollowing rules kernel
      (rules.analysis.contribute following (item, symbols)) := by
  intro head symbol found production heads
  rcases (mem_setAt_contribute wellFormed).mp found with
    earlier | ⟨next, nonTerminal, -, arises | ⟨inherits, inSymbols⟩⟩
  · exact sound head symbol earlier production heads
  · exact .arises member
      (Rules.mem_predicted.mpr ⟨head, next, nonTerminal, heads⟩) arises
  · exact .inherits (follows symbol inSymbols)
      (Rules.mem_predicted.mpr ⟨head, next, nonTerminal, heads⟩) inherits

theorem soundFollowing_following
    (wellFormed : rules.WellFormed)
    (kernel : List LookaheadItem) :
    SoundFollowing rules kernel (rules.analysis.following kernel) := by
  refine settle_induction (SoundFollowing rules kernel)
    (fun following sound => ?_) _ ?_
  · refine List.foldlRecOn _ _ sound fun following sound production called => ?_
    refine sound.contribute wellFormed
      (Rules.mem_closure.mpr (.inr ⟨rfl, called⟩)) fun symbol found => ?_
    obtain ⟨head, heads, inSet⟩ := mem_followingHead.mp found
    exact sound head symbol inSet production heads
  · refine List.foldlRecOn kernel _ ?_ fun following sound entry member => ?_
    · intro head symbol found
      have inside := lt_size_of_mem_setAt found
      have empty := (regularFamily_empty rules.grammar.symbols.size 0).below
        head symbol found
      simp at empty
    · refine sound.contribute wellFormed (Rules.mem_closure.mpr
        (.inl (List.mem_map.mpr ⟨entry, member, rfl⟩))) fun symbol found => ?_
      exact .kernel member found

/-- The items of a closure contribute what they say. -/
theorem mem_following
    (wellFormed : rules.WellFormed)
    {kernel : List LookaheadItem}
    (regular : ∀ entry ∈ kernel, RegularSet rules entry.2)
    {item : Item}
    {symbols : SymbolSet}
    {called symbol : SymbolId}
    (member : (item, symbols) ∈ rules.analysis.closure kernel)
    (next : rules.next? item = some called)
    (nonTerminal : rules.grammar.isNonTerminal called = true)
    (contributes : rules.Arises item symbol ∨
      rules.Inherits item ∧ symbol ∈ symbols) :
    symbol ∈ setAt (rules.analysis.following kernel) called := by
  have known : called < rules.analysis.fresh :=
    Grammar.lt_size_of_isNonTerminal nonTerminal
  show HasFollower (rules.analysis.following kernel) (called, symbol)
  rcases mem_closure.mp member with inKernel | ⟨production, isCalled, same⟩
  · refine settle_induction (HasFollower · (called, symbol))
      (fun _ has => hasFollower_followingPass wellFormed _ _ _ has) _ ?_
    refine has_foldl_of_mem HasFollower (hasFollower_contribute wellFormed)
      (fun following => following.size = rules.analysis.fresh) ?_ ?_
      inKernel ?_
    · intro following entry size
      unfold contribute
      split
      · rw [Array.size_modify, size]
      · exact size
    · exact Array.size_replicate
    · intro following size _
      exact (mem_setAt_contribute wellFormed).mpr
        (.inr ⟨next, nonTerminal, size ▸ known, contributes⟩)
  · obtain ⟨rfl, rfl⟩ := Prod.mk.inj same
    rw [← followingPass_following wellFormed regular]
    refine has_foldl_of_mem HasFollower
      (fun _ _ _ has => hasFollower_contribute wellFormed _ _ _ has)
      (RegularFollowing rules) ?_ (regular_following wellFormed regular)
      isCalled ?_
    · exact fun following production followingRegular =>
        regular_contribute wellFormed followingRegular
          (regularSet_followingHead followingRegular production)
    · intro following followingRegular grown
      refine (mem_setAt_contribute wellFormed).mpr (.inr ⟨next, nonTerminal,
        followingRegular.size ▸ known, contributes.imp_right ?_⟩)
      rintro ⟨inherits, found⟩
      obtain ⟨head, heads, inSet⟩ := mem_followingHead.mp found
      exact ⟨inherits, mem_followingHead.mpr
        ⟨head, heads, grown (head, symbol) inSet⟩⟩

/-- What an item contributes is a lookahead of the productions it calls for. -/
theorem exists_mem_closure_of_called
    (wellFormed : rules.WellFormed)
    {kernel : List LookaheadItem}
    (regular : ∀ entry ∈ kernel, RegularSet rules entry.2)
    {item : Item}
    {symbols : SymbolSet}
    {production : ProductionId}
    {symbol : SymbolId}
    (member : (item, symbols) ∈ rules.analysis.closure kernel)
    (called : production ∈ rules.predicted item)
    (contributes : rules.Arises item symbol ∨
      rules.Inherits item ∧ symbol ∈ symbols) :
    ∃ others, (⟨production, 0⟩, others) ∈ rules.analysis.closure kernel ∧
      symbol ∈ others := by
  obtain ⟨head, next, nonTerminal, heads⟩ := Rules.mem_predicted.mp called
  have inClosure : item ∈ rules.closure (kernel.map Prod.fst) :=
    Rules.mem_map_closure.mp (List.mem_map.mpr ⟨_, member, rfl⟩)
  have isCalled := Rules.mem_calledFor_of_mem_closure inClosure called
  refine ⟨_, mem_closure.mpr (.inr ⟨production, isCalled, rfl⟩), ?_⟩
  exact mem_followingHead.mpr ⟨head, heads,
    mem_following wellFormed regular member next nonTerminal contributes⟩

/-- The lookaheads in a closure are exact. -/
theorem mem_closure_iff_follows
    (wellFormed : rules.WellFormed)
    {kernel : List LookaheadItem}
    (regular : ∀ entry ∈ kernel, RegularSet rules entry.2)
    {item : Item}
    {symbol : SymbolId} :
    (∃ symbols, (item, symbols) ∈ rules.analysis.closure kernel ∧
        symbol ∈ symbols) ↔
      rules.Follows kernel item symbol := by
  constructor
  · rintro ⟨symbols, member, found⟩
    rcases mem_closure.mp member with inKernel | ⟨production, called, same⟩
    · exact .kernel inKernel found
    · obtain ⟨rfl, rfl⟩ := Prod.mk.inj same
      obtain ⟨head, heads, inSet⟩ := mem_followingHead.mp found
      exact soundFollowing_following wellFormed kernel head symbol inSet
        production heads
  · intro follows
    induction follows with
    | kernel member found =>
        exact ⟨_, mem_closure.mpr (.inl member), found⟩
    | arises member called arises =>
        obtain ⟨⟨item, symbols⟩, entryMember, rfl⟩ :=
          List.mem_map.mp (Rules.mem_map_closure.mpr member)
        exact exists_mem_closure_of_called wellFormed regular entryMember called
          (.inl arises)
    | inherits _ called inherits inductionHypothesis =>
        obtain ⟨symbols, entryMember, found⟩ := inductionHypothesis
        exact exists_mem_closure_of_called wellFormed regular entryMember called
          (.inr ⟨inherits, found⟩)

end Analysis
end Table
end ParserGenerator
