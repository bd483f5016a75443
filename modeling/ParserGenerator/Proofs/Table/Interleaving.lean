import Mathlib
import ParserGenerator.Proofs.Parse.Sentences

/-!
# Reductions on changing symbols come to an end

A parser that looks at the marker before a token as well as at the token
reduces now on one symbol and now on the other. Where every non-terminal that
the goal leads to derives something, reductions end even if each is on a symbol
of its own. Symbols that yield nothing pile up only as far as they do on some
single symbol, since something can come after each pile, and the symbols that
take each other's places do so on a single symbol too.
-/

namespace ParserGenerator
namespace Table
namespace Rules

variable {rules : Rules} {table : Table} {symbol : SymbolId}
  {stack next : List SymbolId} {item : Item}

/-! ## What can come next -/

/-- Every non-terminal in a form that the goal derives derives a word without
non-terminals. -/
def Fruitful (rules : Rules) : Prop :=
  ∀ form, rules.grammar.Derives [rules.goal] form →
    ∀ symbol ∈ form, rules.grammar.isNonTerminal symbol = true →
      ∃ word, rules.grammar.Sentence symbol word

/-- What is left of an item yields something. -/
theorem Fruitful.exists_yields
    (fruitful : rules.Fruitful)
    (viable : rules.Viable stack item) :
    ∃ word, rules.grammar.Yields
      ((rules.body item.production).drop item.dot) word := by
  obtain ⟨after, derives⟩ := viable.exists_form
  refine Grammar.exists_yields_of_sentences _ fun symbol member => ?_
  exact fruitful _ derives symbol (by simp [member])

/-- Something can come after symbols that yield something. -/
theorem Reaches.exists_mayFollow
    {rest word : List SymbolId}
    (reaches : rules.Reaches stack item symbol)
    (yields : rules.grammar.Yields rest word) :
    ∃ following, rules.MayFollow stack item rest following := by
  cases word with
  | nil => exact ⟨symbol, .inr ⟨yields.nullable rfl, reaches⟩⟩
  | cons first word => exact ⟨first, .inl (yields.starts rfl)⟩

/-- Something can follow every item. -/
theorem ConflictFree.exists_reaches
    (conflictFree : rules.ConflictFree table)
    (fruitful : rules.Fruitful)
    (viable : rules.Viable stack item) :
    ∃ following, rules.Reaches stack item following := by
  induction viable with
  | start => exact ⟨_, .start⟩
  | advance _ next inductionHypothesis =>
      obtain ⟨following, reaches⟩ := inductionHypothesis
      exact ⟨following, reaches.advance next⟩
  | predict viable called inductionHypothesis =>
      obtain ⟨_, reaches⟩ := inductionHypothesis
      obtain ⟨head, next, -, -⟩ := mem_predicted.mp called
      obtain ⟨rest, split⟩ := next?_eq_some_iff.mp next
      obtain ⟨word, yields⟩ := fruitful.exists_yields (viable.advance next)
      rw [drop_advance split] at yields
      obtain ⟨following, mayFollow⟩ := reaches.exists_mayFollow yields
      exact ⟨following,
        conflictFree.reaches_of_mayFollow viable split called mayFollow⟩

/-- A symbol may come after what is left of an item that symbols lead to. -/
def Awaits (rules : Rules) (stack : List SymbolId) (symbol : SymbolId) : Prop :=
  ∃ item, rules.Viable stack item ∧
    rules.MayFollow stack item ((rules.body item.production).drop item.dot)
      symbol

theorem Awaits.lt_size
    (wellFormed : rules.WellFormed)
    (awaits : rules.Awaits stack symbol) :
    symbol < rules.grammar.symbols.size := by
  obtain ⟨item, -, starts | ⟨-, reaches⟩⟩ := awaits
  · exact starts.lt_size wellFormed.grammar fun other member =>
      wellFormed.body_known (List.mem_of_mem_drop member)
  · exact reaches.lt_fresh wellFormed

/-- Something can come next wherever symbols lead to a state. -/
theorem ConflictFree.exists_awaits
    (conflictFree : rules.ConflictFree table)
    (fruitful : rules.Fruitful)
    {state : Nat}
    (leads : rules.stateAfter stack = some state) :
    ∃ following, rules.Awaits stack following := by
  obtain ⟨item, viable⟩ := exists_viable_of_stateAfter leads
  obtain ⟨_, reaches⟩ := conflictFree.exists_reaches fruitful viable
  obtain ⟨_, yields⟩ := fruitful.exists_yields viable
  obtain ⟨following, mayFollow⟩ := reaches.exists_mayFollow yields
  exact ⟨following, item, viable, mayFollow⟩

/-! ## Piles of symbols that yield nothing -/

/-- The last symbol was asked for where a symbol comes next that may come after
it. -/
def Asks (rules : Rules) (stack : List SymbolId) (last symbol : SymbolId) :
    Prop :=
  ∃ item rest, rules.Viable stack item ∧
    (rules.body item.production).drop item.dot = last :: rest ∧
    rules.MayFollow stack item rest symbol

theorem Viable.asks_of_starts
    {last : SymbolId}
    (viable : rules.Viable (stack ++ [last]) item)
    (starts : rules.grammar.Starts
      ((rules.body item.production).drop item.dot) symbol) :
    rules.Asks stack last symbol := by
  generalize isStack : stack ++ [last] = whole at viable
  induction viable with
  | start => simp at isStack
  | @advance before item asked viable next =>
      obtain ⟨rfl, isLast⟩ := List.append_inj' isStack rfl
      obtain rfl := List.singleton_inj.mp isLast
      obtain ⟨rest, split⟩ := next?_eq_some_iff.mp next
      rw [drop_advance split] at starts
      exact ⟨item, rest, viable, split, .inl starts⟩
  | predict viable called inductionHypothesis =>
      obtain ⟨head, next, -, heads⟩ := mem_predicted.mp called
      obtain ⟨rest, split⟩ := next?_eq_some_iff.mp next
      obtain ⟨rule, found, rfl⟩ := Option.map_eq_some_iff.mp heads
      rw [List.drop_zero, (body_of_rule found).2] at starts
      refine inductionHypothesis ?_ isStack
      rw [split]
      exact .inside (Array.mem_of_getElem? found) starts

theorem ConflictFree.asks_of_reaches
    (conflictFree : rules.ConflictFree table)
    {last : SymbolId}
    (reaches : rules.Reaches (stack ++ [last]) item symbol)
    (nullable : rules.grammar.Nullable
      ((rules.body item.production).drop item.dot)) :
    rules.Asks stack last symbol := by
  generalize isStack : stack ++ [last] = whole at reaches
  induction reaches with
  | start => simp at isStack
  | @advance before item asked symbol reaches next =>
      obtain ⟨rfl, isLast⟩ := List.append_inj' isStack rfl
      obtain rfl := List.singleton_inj.mp isLast
      obtain ⟨rest, split⟩ := next?_eq_some_iff.mp next
      rw [drop_advance split] at nullable
      exact ⟨item, rest, reaches.viable, split, .inr ⟨nullable, reaches⟩⟩
  | @arises whole item production symbol viable called arises =>
      obtain ⟨head, next, -, heads⟩ := mem_predicted.mp called
      obtain ⟨rest, split⟩ := next?_eq_some_iff.mp next
      obtain ⟨rule, found, rfl⟩ := Option.map_eq_some_iff.mp heads
      rw [List.drop_zero, (body_of_rule found).2] at nullable
      have starts := (arises_iff split).mp arises
      rw [conflictFree.override?_eq_none] at starts
      subst isStack
      refine viable.asks_of_starts ?_
      rw [split]
      exact .later (.production (Array.mem_of_getElem? found) nullable .nil)
        starts
  | @inherits whole item production symbol reaches called inherits
      inductionHypothesis =>
      obtain ⟨head, next, -, heads⟩ := mem_predicted.mp called
      obtain ⟨rest, split⟩ := next?_eq_some_iff.mp next
      obtain ⟨rule, found, rfl⟩ := Option.map_eq_some_iff.mp heads
      rw [List.drop_zero, (body_of_rule found).2] at nullable
      obtain ⟨-, restNullable⟩ := (inherits_iff split).mp inherits
      refine inductionHypothesis ?_ isStack
      rw [split]
      exact .production (Array.mem_of_getElem? found) nullable restNullable

namespace ConflictFree

/-- Symbols that yield nothing are recognised by reductions on any symbol that
may come after them. -/
theorem reductions_of_awaits
    (conflictFree : rules.ConflictFree table)
    {added : List SymbolId}
    (nullable : rules.grammar.Nullable added)
    (awaits : rules.Awaits (stack ++ added) symbol) :
    Relation.ReflTransGen (rules.Reduces table symbol) stack
      (stack ++ added) := by
  induction added using List.reverseRecOn with
  | nil => rw [List.append_nil]
  | append_singleton added last inductionHypothesis =>
      obtain ⟨addedNullable, lastNullable⟩ := nullable.split
      rw [← List.append_assoc] at awaits ⊢
      have asks : rules.Asks (stack ++ added) last symbol := by
        obtain ⟨item, viable, starts | ⟨restNullable, reaches⟩⟩ := awaits
        · exact viable.asks_of_starts starts
        · exact conflictFree.asks_of_reaches reaches restNullable
      obtain ⟨item, rest, viable, split, mayFollow⟩ := asks
      have awaitsBefore : rules.Awaits (stack ++ added) symbol := by
        refine ⟨item, viable, ?_⟩
        rw [split]
        exact mayFollow.imp (Grammar.Starts.later lastNullable)
          fun ⟨restNullable, reaches⟩ =>
            ⟨lastNullable.append restNullable, reaches⟩
      exact (inductionHypothesis addedNullable awaitsBefore).trans
        (conflictFree.reductions_of_nullable lastNullable viable split
          mayFollow)

end ConflictFree

/-- Reductions that end go through stacks of bounded size only. -/
theorem Terminates.exists_bound
    (terminates : rules.Terminates table symbol stack) :
    ∃ bound, ∀ next,
      Relation.ReflTransGen (rules.Reduces table symbol) stack next →
        next.length ≤ bound := by
  induction terminates with
  | intro stack _ inductionHypothesis =>
      by_cases reducing : ∃ next, rules.Reduces table symbol stack next
      · obtain ⟨next, reduces⟩ := reducing
        obtain ⟨bound, bounded⟩ := inductionHypothesis next reduces
        refine ⟨max stack.length bound, fun last reductions => ?_⟩
        rcases reductions.cases_head with rfl | ⟨other, first, onward⟩
        · exact Nat.le_max_left _ _
        · obtain rfl := reduces.unique first
          exact (bounded last onward).trans (Nat.le_max_right _ _)
      · refine ⟨stack.length, fun last reductions => ?_⟩
        rcases reductions.cases_head with rfl | ⟨other, first, -⟩
        · exact Nat.le_refl _
        · exact absurd ⟨other, first⟩ reducing

/-- No more than so many symbols that yield nothing can pile up. -/
def Room (rules : Rules) (stack : List SymbolId) (room : Nat) : Prop :=
  ∀ added state, rules.grammar.Nullable added →
    rules.stateAfter (stack ++ added) = some state → added.length ≤ room

theorem ConflictFree.exists_room
    (conflictFree : rules.ConflictFree table)
    (fruitful : rules.Fruitful)
    {state : Nat}
    (leads : rules.stateAfter stack = some state) :
    ∃ room, rules.Room stack room := by
  have terminates : ∀ symbol, rules.Terminates table symbol stack := fun _ =>
    conflictFree.terminates_of_stateAfter leads
  -- Each pile is a stack that reductions on some single symbol go through.
  choose bound bounded using fun symbol => (terminates symbol).exists_bound
  refine ⟨(Finset.range rules.grammar.symbols.size).sup bound,
    fun added state nullable leadsAdded => ?_⟩
  obtain ⟨following, awaits⟩ :=
    conflictFree.exists_awaits fruitful leadsAdded
  have known := Finset.mem_range.mpr (awaits.lt_size conflictFree.wellFormed)
  have reductions := conflictFree.reductions_of_awaits nullable awaits
  calc added.length
      ≤ (stack ++ added).length := by simp
    _ ≤ bound following := bounded following _ reductions
    _ ≤ _ := Finset.le_sup known

/-! ## Symbols that take each other's places -/

/-- A production replaces one symbol, together with symbols that yield nothing,
whatever follows. -/
def Replaces (rules : Rules) (inner outer : SymbolId) : Prop :=
  ∃ following, rules.Wraps following inner outer

/-- What follows the last of some replacements may follow all of them. -/
theorem ConflictFree.exists_wraps_of_replaces
    (conflictFree : rules.ConflictFree table)
    {inner outer : SymbolId}
    (replaces : Relation.TransGen rules.Replaces inner outer) :
    ∃ following, Relation.TransGen (rules.Wraps following) inner outer := by
  induction replaces using Relation.TransGen.head_induction_on with
  | single replaces =>
      obtain ⟨following, wraps⟩ := replaces
      exact ⟨following, .single wraps⟩
  | head replaces _ inductionHypothesis =>
      obtain ⟨_, wraps⟩ := replaces
      obtain ⟨following, onward⟩ := inductionHypothesis
      refine ⟨following, .head ?_ onward⟩
      -- The first production is called for where the next one starts, and what
      -- comes after it there yields nothing.
      have isNonTerminal := wraps.isNonTerminal conflictFree.wellFormed
      obtain @⟨_, rest, production, _, _, _, isBody, nullable, heads⟩ := wraps
      obtain ⟨below, outerRest, item, reaches, split, restNullable, -, -⟩ :=
        conflictFree.reductions_of_wraps onward
      have called : production ∈ rules.predicted item := mem_predicted.mpr
        ⟨_, next?_eq_some_iff.mpr ⟨_, split⟩, isNonTerminal, heads⟩
      exact .mk (conflictFree.reaches_of_mayFollow reaches.viable split called
        (.inr ⟨restNullable, reaches⟩)) isBody nullable heads

open Classical in
/-- How many symbols can replace a symbol. -/
noncomputable def replacements (rules : Rules) (inner : SymbolId) : Nat :=
  ((Finset.range rules.grammar.symbols.size).filter fun outer =>
    Relation.TransGen rules.Replaces inner outer).card

/-- A symbol that replaces another has fewer that replace it. -/
theorem ConflictFree.replacements_lt
    (conflictFree : rules.ConflictFree table)
    {inner outer : SymbolId}
    (wraps : rules.Wraps symbol inner outer) :
    rules.replacements outer < rules.replacements inner := by
  refine card_transGen_lt ⟨symbol, wraps⟩
    (Grammar.lt_size_of_isNonTerminal
      (wraps.isNonTerminal conflictFree.wellFormed)) fun cycle => ?_
  obtain ⟨following, wrapsItself⟩ :=
    conflictFree.exists_wraps_of_replaces cycle
  exact conflictFree.not_wraps_self outer wrapsItself

/-! ## Reductions on changing symbols -/

/-- Every sequence of reductions ends, each on any symbol whatever. -/
def Exhausts (rules : Rules) (table : Table) (stack : List SymbolId) : Prop :=
  Acc (fun after before => ∃ symbol, rules.Reduces table symbol before after)
    stack

theorem Room.concat
    {room : Nat}
    {last : SymbolId}
    (hasRoom : rules.Room stack (room + 1))
    (nullable : rules.grammar.Nullable [last]) :
    rules.Room (stack ++ [last]) room := by
  intro added state addedNullable leads
  rw [List.append_assoc] at leads
  exact Nat.le_of_succ_le_succ
    (hasRoom _ state (nullable.append addedNullable) leads)

theorem nullable_head
    {production : ProductionId}
    {head : SymbolId}
    (heads : rules.head? production = some head)
    (nullable : rules.grammar.Nullable (rules.body production)) :
    rules.grammar.Nullable [head] := by
  obtain ⟨rule, found, rfl⟩ := Option.map_eq_some_iff.mp heads
  rw [(body_of_rule found).2] at nullable
  exact .production (Array.mem_of_getElem? found) nullable .nil

namespace ConflictFree

/-- Reductions end after one more symbol that yields nothing, if they do
wherever there is less room and if those that touch the symbols before it
end. -/
theorem exhausts_concat
    (conflictFree : rules.ConflictFree table)
    {room : Nat}
    {last : SymbolId}
    (withLess : ∀ {stack}, rules.Room stack room →
      (∀ symbol next, rules.Touches table symbol stack next →
        rules.Exhausts table next) →
      rules.Exhausts table stack)
    (hasRoom : rules.Room stack (room + 1))
    (touching : ∀ symbol next, rules.Touches table symbol stack next →
      rules.Exhausts table next)
    (nullable : rules.grammar.Nullable [last]) :
    rules.Exhausts table (stack ++ [last]) := by
  induction count : rules.replacements last using Nat.strong_induction_on
    generalizing last with
  | _ count fewer =>
      refine withLess (hasRoom.concat nullable) ?_
      rintro symbol _ @⟨added, below, production, head, addedNullable, acts,
        heads, isStack, shorter⟩
      rw [List.append_assoc] at acts isStack
      have allNullable := nullable.append addedNullable
      by_cases deeper : below.length < stack.length
      · exact touching symbol _ (.mk allNullable acts heads isStack deeper)
      · -- Only the last symbol is touched, so another one takes its place.
        rw [List.length_append, List.length_singleton] at shorter
        obtain ⟨rfl, isBody⟩ := List.append_inj isStack (by omega)
        have wraps := conflictFree.wraps_of_reduce addedNullable acts heads
          isBody.symm
        rw [isBody] at allNullable
        exact fewer _ (count ▸ conflictFree.replacements_lt wraps)
          (nullable_head heads allNullable) rfl

/-- A reduction adds a symbol that yields nothing or touches the stack. -/
theorem adds_or_touches
    (conflictFree : rules.ConflictFree table)
    (reduces : rules.Reduces table symbol stack next) :
    (∃ head state, next = stack ++ [head] ∧ rules.grammar.Nullable [head] ∧
        rules.stateAfter (stack ++ [head]) = some state) ∨
      rules.Touches table symbol stack next := by
  cases reduces with
  | @mk production head below acts heads =>
      cases isBody : rules.body production with
      | nil =>
          obtain ⟨_, _, state, isBelow, isHead, leads⟩ :=
            conflictFree.reduction_of_actionAfter acts
          obtain rfl := List.append_cancel_right isBelow
          obtain rfl := Option.some.inj (heads.symm.trans isHead)
          rw [List.append_nil]
          exact .inl ⟨head, state, rfl, nullable_head heads (isBody ▸ .nil),
            leads⟩
      | cons first rest =>
          rw [← isBody]
          refine .inr (.mk .nil ?_ heads (List.append_nil _) (by simp [isBody]))
          rwa [List.append_nil]

/-- Reductions end if they do wherever the first one leads. -/
theorem exhausts_of_next
    (conflictFree : rules.ConflictFree table)
    (adding : ∀ head state, rules.grammar.Nullable [head] →
      rules.stateAfter (stack ++ [head]) = some state →
        rules.Exhausts table (stack ++ [head]))
    (touching : ∀ symbol next, rules.Touches table symbol stack next →
      rules.Exhausts table next) :
    rules.Exhausts table stack := by
  refine .intro _ ?_
  rintro next ⟨symbol, reduces⟩
  rcases conflictFree.adds_or_touches reduces with
    ⟨head, state, rfl, nullable, leads⟩ | touches
  · exact adding head state nullable leads
  · exact touching symbol next touches

/-- Reductions end if those that touch the symbols they started with end. -/
theorem exhausts_of_touching
    (conflictFree : rules.ConflictFree table)
    {room : Nat}
    (hasRoom : rules.Room stack room)
    (touching : ∀ symbol next, rules.Touches table symbol stack next →
      rules.Exhausts table next) :
    rules.Exhausts table stack := by
  induction room generalizing stack with
  | zero =>
      refine conflictFree.exhausts_of_next ?_ touching
      intro head state nullable leads
      exact absurd (hasRoom _ state nullable leads) (by simp)
  | succ room inductionHypothesis =>
      refine conflictFree.exhausts_of_next ?_ touching
      intro head state nullable _
      exact conflictFree.exhausts_concat inductionHypothesis hasRoom touching
        nullable

/-- Reductions end where every non-terminal that the goal leads to derives
something, even if each is on a symbol of its own. -/
theorem exhausts_of_stateAfter
    (conflictFree : rules.ConflictFree table)
    (fruitful : rules.Fruitful)
    {state : Nat}
    (leads : rules.stateAfter stack = some state) :
    rules.Exhausts table stack := by
  induction stack using
    (InvImage.wf (rank rules.replacements) wellFounded_lt).induction
    generalizing state with
  | _ stack lower =>
      obtain ⟨room, hasRoom⟩ := conflictFree.exists_room fruitful leads
      refine conflictFree.exhausts_of_touching hasRoom
        fun symbol next touches => ?_
      obtain ⟨_, leadsNext⟩ := conflictFree.exists_stateAfter_of_touches touches
      exact lower next
        (conflictFree.rank_lt_of_touches conflictFree.replacements_lt touches)
        leadsNext

end ConflictFree
end Rules
end Table
end ParserGenerator
