import Mathlib.Data.Finset.Option
import Mathlib.Data.Finset.Prod
import ParserGenerator.Proofs.Families
import ParserGenerator.Proofs.Fixpoint
import ParserGenerator.Proofs.Grammar.Language
import ParserGenerator.Table.First

/-!
# First sets are exact

A symbol is found to be nullable if and only if it yields nothing, and its
first set holds exactly the symbols that it can start with.
-/

namespace ParserGenerator
namespace Table
namespace FirstSets

variable {grammar : Grammar} {sets : FirstSets} {symbol first : SymbolId}
  {symbols : List SymbolId}

/-! ## One production -/

@[simp] theorem leading_nil (sets : FirstSets) :
    sets.leading [] = ([], true) := rfl

@[simp] theorem mem_leading_cons :
    symbol ∈ (sets.leading (first :: symbols)).1 ↔
      symbol ∈ sets.firstOf first ∨
        sets.isNullable first = true ∧ symbol ∈ (sets.leading symbols).1 := by
  rw [leading]
  split
  · next nullable => simp [nullable]
  · next notNullable => simp [notNullable]

@[simp] theorem leading_cons_snd :
    (sets.leading (first :: symbols)).2 =
      (sets.isNullable first && (sets.leading symbols).2) := by
  rw [leading]
  split
  · next nullable => simp [nullable]
  · next notNullable => simp [notNullable]

theorem mem_leadingBefore {tail : SymbolSet} :
    symbol ∈ sets.leadingBefore symbols tail ↔
      symbol ∈ (sets.leading symbols).1 ∨
        (sets.leading symbols).2 = true ∧ symbol ∈ tail := by
  unfold leadingBefore
  dsimp only
  split
  · next nullable => simp [nullable]
  · next notNullable => simp [notNullable]

theorem mem_firstOf_addProduction {rule : Production} :
    symbol ∈ (sets.addProduction rule).firstOf first ↔
      symbol ∈ sets.firstOf first ∨
        rule.head = first ∧ first < sets.first.size ∧
          symbol ∈ (sets.leading rule.body).1 :=
  mem_setAt_modify

theorem isNullable_addProduction {rule : Production} :
    (sets.addProduction rule).isNullable first = true ↔
      sets.isNullable first = true ∨
        rule.head = first ∧ first < sets.nullable.size ∧
          (sets.leading rule.body).2 = true := by
  simp only [addProduction, isNullable, Array.getElem?_modify]
  by_cases same : rule.head = first
  · by_cases inside : first < sets.nullable.size
    · simp [same, inside]
    · simp [same, inside]
  · simp [same]

/-! ## The sets as facts -/

/-- What is known about a symbol: another one that it starts with, or that it
yields nothing. -/
def Has (sets : FirstSets) : SymbolId × Option SymbolId → Prop
  | (first, some symbol) => symbol ∈ sets.firstOf first
  | (first, none) => sets.isNullable first = true

theorem has_addProduction
    (sets : FirstSets)
    (rule : Production)
    (fact : SymbolId × Option SymbolId)
    (has : sets.Has fact) :
    (sets.addProduction rule).Has fact := by
  obtain ⟨first, _ | symbol⟩ := fact
  · exact isNullable_addProduction.mpr (.inl has)
  · exact mem_firstOf_addProduction.mpr (.inl has)

/-- More facts make sequences start with more symbols and keep them
nullable. -/
theorem leading_mono
    {later : FirstSets}
    (grown : ∀ fact, sets.Has fact → later.Has fact)
    (symbols : List SymbolId) :
    (∀ symbol ∈ (sets.leading symbols).1,
        symbol ∈ (later.leading symbols).1) ∧
      ((sets.leading symbols).2 = true → (later.leading symbols).2 = true) := by
  induction symbols with
  | nil => simp
  | cons first symbols inductionHypothesis =>
      obtain ⟨starts, nullable⟩ := inductionHypothesis
      have firstNullable : sets.isNullable first = true →
          later.isNullable first = true := grown (first, none)
      constructor
      · intro symbol member
        rw [mem_leading_cons] at member ⊢
        rcases member with here | ⟨skipped, inRest⟩
        · exact .inl (grown (first, some symbol) here)
        · exact .inr ⟨firstNullable skipped, starts symbol inRest⟩
      · simp only [leading_cons_snd, Bool.and_eq_true]
        exact fun both => ⟨firstNullable both.1, nullable both.2⟩

/-- Sets of known symbols in order and a flag, for each symbol. -/
structure Regular (count : Nat) (sets : FirstSets) : Prop where
  /-- The sets are in order. -/
  family : RegularFamily count count sets.first
  /-- There is a flag for each symbol. -/
  size_nullable : sets.nullable.size = count

theorem Regular.leading
    {count : Nat}
    (regular : sets.Regular count)
    (symbols : List SymbolId) :
    Ascends (sets.leading symbols).1 ∧
      ∀ symbol ∈ (sets.leading symbols).1, symbol < count := by
  induction symbols with
  | nil => exact ⟨.nil, by simp⟩
  | cons first symbols inductionHypothesis =>
      unfold FirstSets.leading
      split
      · refine ⟨ascends_mergeAscending _ inductionHypothesis.1,
          fun symbol member => ?_⟩
        rcases mem_mergeAscending.mp member with here | inRest
        · exact regular.family.below first symbol here
        · exact inductionHypothesis.2 symbol inRest
      · exact ⟨regular.family.ascends first, regular.family.below first⟩

theorem Regular.addProduction
    {count : Nat}
    (regular : sets.Regular count)
    (rule : Production) :
    (sets.addProduction rule).Regular count := by
  obtain ⟨ascends, below⟩ := regular.leading rule.body
  refine ⟨regular.family.extend rule.head ascends below, ?_⟩
  simpa [FirstSets.addProduction] using regular.size_nullable

theorem firstOf_initial (first : SymbolId) :
    (initial grammar).firstOf first =
      if first < grammar.symbols.size ∧ grammar.isNonTerminal first = false then
        [first]
      else
        [] := by
  simp only [initial, firstOf, List.getElem?_toArray, List.getElem?_map]
  by_cases inside : first < grammar.symbols.size
  · cases nonTerminal : grammar.isNonTerminal first with
    | true => simp [inside, nonTerminal]
    | false => simp [inside, nonTerminal]
  · simp [inside]

theorem isNullable_initial (first : SymbolId) :
    (initial grammar).isNullable first = false := by
  simp only [initial, isNullable, Array.getElem?_replicate]
  split <;> rfl

theorem regular_initial (grammar : Grammar) :
    (initial grammar).Regular grammar.symbols.size := by
  have isFirst : ∀ first, setAt (initial grammar).first first =
      (initial grammar).firstOf first := fun _ => rfl
  refine ⟨⟨by simp [initial], fun first => ?_, fun first symbol member => ?_⟩,
    by simp [initial]⟩
  · rw [isFirst, firstOf_initial]
    split
    · exact .singleton first
    · exact .nil
  · rw [isFirst, firstOf_initial] at member
    split at member
    · next known => exact List.mem_singleton.mp member ▸ known.1
    · simp at member

/-- Sets with the same facts are equal. -/
theorem Regular.eq_of_has_iff
    {count : Nat}
    {left right : FirstSets}
    (leftRegular : left.Regular count)
    (rightRegular : right.Regular count)
    (same : ∀ fact, left.Has fact ↔ right.Has fact) :
    left = right := by
  obtain ⟨leftFirst, leftNullable⟩ := left
  obtain ⟨rightFirst, rightNullable⟩ := right
  have sameFirst : leftFirst = rightFirst :=
    leftRegular.family.eq_of_mem_iff rightRegular.family
      fun first symbol => same (first, some symbol)
  have sameNullable : leftNullable = rightNullable := by
    refine Array.ext (leftRegular.size_nullable.trans
      rightRegular.size_nullable.symm) fun index leftInside rightInside => ?_
    have sameFlag := Bool.eq_iff_iff.mpr (same (index, none))
    simpa [isNullable, leftInside, rightInside] using sameFlag
  rw [sameFirst, sameNullable]

/-! ## The settled sets -/

theorem pass_eq (grammar : Grammar) (sets : FirstSets) :
    pass grammar sets =
      grammar.productions.toList.foldl addProduction sets :=
  (Array.foldl_toList addProduction).symm

theorem Regular.pass
    {count : Nat}
    (regular : sets.Regular count)
    (grammar : Grammar) :
    (pass grammar sets).Regular count := by
  rw [pass_eq]
  exact List.foldlRecOn _ _ regular fun _ regular rule _ =>
    regular.addProduction rule

theorem regular_ofGrammar (grammar : Grammar) :
    (ofGrammar grammar).Regular grammar.symbols.size :=
  settle_induction (Regular grammar.symbols.size)
    (fun _ regular => regular.pass grammar) _ (regular_initial grammar)

/-- Another pass adds nothing. -/
theorem pass_ofGrammar (grammar : Grammar) :
    pass grammar (ofGrammar grammar) = ofGrammar grammar := by
  let count := grammar.symbols.size
  let facts := Finset.range count ×ˢ (Finset.range count).insertNone
  refine settle_fixed_of_facts (Regular count) Has facts
    (fun _ regular => regular.pass grammar) ?_ ?_ ?_ (regular_initial grammar)
    ?_
  · intro sets _ fact has
    rw [pass_eq]
    exact has_foldl Has has_addProduction _ has
  · rintro sets regular ⟨first, _ | symbol⟩ has
    · have inside : first < sets.nullable.size := by
        refine Nat.lt_of_not_le fun outside => ?_
        simp [Has, isNullable, outside] at has
      simpa [facts, ← regular.size_nullable] using inside
    · have inside := lt_size_of_mem_setAt has
      have known := regular.family.below first symbol has
      rw [regular.family.size] at inside
      simpa [facts] using ⟨inside, known⟩
  · exact fun left right leftRegular rightRegular =>
      leftRegular.eq_of_has_iff rightRegular
  · simp [facts, count]

/-- What the body of a production starts with, its head does. -/
theorem has_ofGrammar_of_rule
    {rule : Production}
    (wellFormed : grammar.WellFormed)
    (member : rule ∈ grammar.productions) :
    (∀ symbol ∈ ((ofGrammar grammar).leading rule.body).1,
        symbol ∈ (ofGrammar grammar).firstOf rule.head) ∧
      (((ofGrammar grammar).leading rule.body).2 = true →
        (ofGrammar grammar).isNullable rule.head = true) := by
  have inside : rule.head < grammar.symbols.size :=
    Grammar.lt_size_of_isNonTerminal (wellFormed.heads rule member)
  have added : ∀ fact,
      (∀ later : FirstSets, later.Regular grammar.symbols.size →
        (∀ known, (ofGrammar grammar).Has known → later.Has known) →
        (later.addProduction rule).Has fact) →
      (ofGrammar grammar).Has fact := by
    intro fact adds
    rw [← pass_ofGrammar, pass_eq]
    exact has_foldl_of_mem Has has_addProduction
      (Regular grammar.symbols.size)
      (fun _ rule regular => regular.addProduction rule)
      (regular_ofGrammar grammar) (Array.mem_toList_iff.mpr member) adds
  constructor
  · intro symbol starts
    refine added (rule.head, some symbol) fun later regular grown => ?_
    exact mem_firstOf_addProduction.mpr (.inr ⟨rfl,
      regular.family.size ▸ inside, (leading_mono grown _).1 symbol starts⟩)
  · intro nullable
    refine added (rule.head, none) fun later regular grown => ?_
    exact isNullable_addProduction.mpr (.inr ⟨rfl,
      regular.size_nullable ▸ inside, (leading_mono grown _).2 nullable⟩)

/-! ## Exactness -/

/-- Everything that is known is so. -/
structure Sound (grammar : Grammar) (sets : FirstSets) : Prop where
  /-- First sets hold only symbols that come first. -/
  starts : ∀ first, ∀ symbol ∈ sets.firstOf first,
    grammar.Starts [first] symbol
  /-- Only symbols that yield nothing are found nullable. -/
  nullable : ∀ first, sets.isNullable first = true → grammar.Nullable [first]

theorem Sound.leading
    (sound : sets.Sound grammar)
    (symbols : List SymbolId) :
    (∀ symbol ∈ (sets.leading symbols).1, grammar.Starts symbols symbol) ∧
      ((sets.leading symbols).2 = true → grammar.Nullable symbols) := by
  induction symbols with
  | nil => exact ⟨by simp, fun _ => .nil⟩
  | cons first symbols inductionHypothesis =>
      obtain ⟨starts, nullable⟩ := inductionHypothesis
      constructor
      · intro symbol member
        rcases mem_leading_cons.mp member with here | ⟨skipped, inRest⟩
        · exact (sound.starts first symbol here).append_right symbols
        · exact .later (sound.nullable first skipped) (starts symbol inRest)
      · simp only [leading_cons_snd, Bool.and_eq_true]
        exact fun both => (sound.nullable first both.1).append
          (nullable both.2)

theorem Sound.addProduction
    {rule : Production}
    (sound : sets.Sound grammar)
    (member : rule ∈ grammar.productions) :
    (sets.addProduction rule).Sound grammar := by
  obtain ⟨starts, nullable⟩ := sound.leading rule.body
  constructor
  · intro first symbol found
    rcases mem_firstOf_addProduction.mp found with earlier | ⟨rfl, -, added⟩
    · exact sound.starts first symbol earlier
    · exact .inside member (starts symbol added)
  · intro first found
    rcases isNullable_addProduction.mp found with earlier | ⟨rfl, -, added⟩
    · exact sound.nullable first earlier
    · exact .production member (nullable added) .nil

theorem sound_ofGrammar (grammar : Grammar) :
    (ofGrammar grammar).Sound grammar := by
  refine settle_induction (Sound grammar) (fun sets sound => ?_) _ ?_
  · rw [pass_eq]
    refine List.foldlRecOn _ _ sound fun sets sound rule member => ?_
    exact sound.addProduction (Array.mem_toList_iff.mp member)
  · constructor
    · intro first symbol member
      rw [firstOf_initial] at member
      split at member
      · next known =>
          obtain rfl := List.mem_singleton.mp member
          exact .here known.2
      · simp at member
    · intro first found
      rw [isNullable_initial] at found
      simp at found

/-- A sequence is found nullable if and only if it yields nothing. -/
theorem leading_ofGrammar_snd
    (wellFormed : grammar.WellFormed)
    (symbols : List SymbolId) :
    ((ofGrammar grammar).leading symbols).2 = true ↔
      grammar.Nullable symbols := by
  refine ⟨((sound_ofGrammar grammar).leading symbols).2, fun nullable => ?_⟩
  induction nullable with
  | nil => rfl
  | production member _ _ bodyFound restFound =>
      rw [leading_cons_snd, restFound, Bool.and_true]
      exact (has_ofGrammar_of_rule wellFormed member).2 bodyFound

/-- The symbols found to come first are those that a sequence starts with. -/
theorem mem_leading_ofGrammar
    (wellFormed : grammar.WellFormed)
    (known : ∀ other ∈ symbols, other < grammar.symbols.size) :
    symbol ∈ ((ofGrammar grammar).leading symbols).1 ↔
      grammar.Starts symbols symbol := by
  refine ⟨((sound_ofGrammar grammar).leading symbols).1 symbol, fun starts => ?_⟩
  induction starts with
  | @here symbol symbols isTerminal =>
      refine mem_leading_cons.mpr (.inl ?_)
      have inside := known symbol List.mem_cons_self
      have initially : (initial grammar).Has (symbol, some symbol) := by
        simp [Has, firstOf_initial, inside, isTerminal]
      refine settle_induction (Has · (symbol, some symbol))
        (fun sets has => ?_) _ initially
      rw [pass_eq]
      exact has_foldl Has has_addProduction _ has
  | @inside rule symbols symbol member _ inductionHypothesis =>
      refine mem_leading_cons.mpr (.inl ?_)
      exact (has_ofGrammar_of_rule wellFormed member).1 symbol
        (inductionHypothesis (wellFormed.bodies rule member))
  | @later first symbol symbols nullable _ inductionHypothesis =>
      have firstFound := (leading_ofGrammar_snd wellFormed [first]).mpr nullable
      rw [leading_cons_snd, Bool.and_eq_true] at firstFound
      refine mem_leading_cons.mpr (.inr ⟨firstFound.1, ?_⟩)
      exact inductionHypothesis fun other member =>
        known other (List.mem_cons_of_mem first member)

end FirstSets
end Table
end ParserGenerator
