import ParserGenerator.Proofs.Ascending
import ParserGenerator.Proofs.Reach
import ParserGenerator.Table.Kernels

/-!
# Closures of kernels

The items of a closure are those of the kernel and the starts of the
productions that these call for. Kernels are kept in the order of their items,
so that a set of items has only one kernel.
-/

namespace ParserGenerator
namespace Table

namespace Item

/-- The order of items without equality. -/
def Precedes (left right : Item) : Prop :=
  left.production < right.production ∨
    left.production = right.production ∧ left.dot < right.dot

theorem le_iff {left right : Item} :
    left.le right = true ↔ left = right ∨ left.Precedes right := by
  obtain ⟨leftProduction, leftDot⟩ := left
  obtain ⟨rightProduction, rightDot⟩ := right
  simp only [le, Precedes, Bool.or_eq_true, Bool.and_eq_true,
    decide_eq_true_eq, beq_iff_eq, mk.injEq, ProductionId]
  omega

theorem Precedes.ne {left right : Item} (precedes : left.Precedes right) :
    left ≠ right := by
  rintro rfl
  simp [Precedes] at precedes

theorem Precedes.advance {left right : Item}
    (precedes : left.Precedes right) :
    left.advance.Precedes right.advance := by
  simp only [Precedes, Item.advance, ProductionId] at *
  omega

theorem le_trans
    (first second third : Item)
    (less : first.le second = true)
    (lessNext : second.le third = true) :
    first.le third = true := by
  simp only [le, Bool.or_eq_true, Bool.and_eq_true, decide_eq_true_eq,
    beq_iff_eq, ProductionId] at *
  omega

theorem le_total (left right : Item) :
    (left.le right || right.le left) = true := by
  simp only [le, Bool.or_eq_true, Bool.and_eq_true, decide_eq_true_eq,
    beq_iff_eq, ProductionId]
  omega

@[simp] theorem mem_sort {item : Item} {items : List Item} :
    item ∈ sort items ↔ item ∈ items := by
  simp [sort]

/-- Sorting items without repetitions makes each precede all later ones. -/
theorem pairwise_sort
    {items : List Item}
    (distinct : items.Nodup) :
    (sort items).Pairwise Precedes := by
  have ordered : (sort items).Pairwise fun left right =>
      left.le right = true :=
    pairwise_foldr_insertOrdered le_trans le_total items .nil
  have sortedDistinct : (sort items).Pairwise (· ≠ ·) :=
    (sortBy_perm items).nodup_iff.mpr distinct
  refine ordered.imp₂ ?_ sortedDistinct
  intro left right less different
  exact (le_iff.mp less).resolve_left different

/-- Ordered lists with the same items are equal. -/
theorem eq_of_pairwise_precedes
    {left right : List Item}
    (leftOrdered : left.Pairwise Precedes)
    (rightOrdered : right.Pairwise Precedes)
    (same : ∀ item, item ∈ left ↔ item ∈ right) :
    left = right := by
  have permuted : left.Perm right :=
    (List.perm_ext_iff_of_nodup (leftOrdered.imp Precedes.ne)
      (rightOrdered.imp Precedes.ne)).mpr same
  have antisymmetric : ∀ first second, first ∈ left → second ∈ right →
      first.Precedes second → second.Precedes first → first = second := by
    intro first second _ _ less greater
    simp only [Precedes, ProductionId] at less greater
    omega
  exact permuted.eq_of_pairwise antisymmetric leftOrdered rightOrdered

end Item

namespace Rules

variable {rules : Rules}

/-! ## Productions that are called for -/

theorem head?_eq_some {production : ProductionId} {head : SymbolId}
    (heads : rules.head? production = some head) :
    production < rules.accept := by
  obtain ⟨rule, found, -⟩ := Option.map_eq_some_iff.mp heads
  exact (Array.getElem?_eq_some_iff.mp found).1

@[simp] theorem mem_productionsOf {production : ProductionId}
    {head : SymbolId} :
    production ∈ rules.grammar.productionsOf head ↔
      rules.head? production = some head := by
  simp only [Grammar.productionsOf, List.mem_filter, List.mem_range,
    beq_iff_eq]
  exact ⟨fun found => found.2, fun heads => ⟨head?_eq_some heads, heads⟩⟩

/-- An item calls for the productions of the non-terminal after its dot. -/
theorem mem_predicted {production : ProductionId} {item : Item} :
    production ∈ rules.predicted item ↔
      ∃ symbol, rules.next? item = some symbol ∧
        rules.grammar.isNonTerminal symbol = true ∧
        rules.head? production = some symbol := by
  unfold predicted
  cases next : rules.next? item with
  | none => simp
  | some symbol =>
      by_cases nonTerminal : rules.grammar.isNonTerminal symbol = true
      · simp [nonTerminal]
      · simp [nonTerminal]

theorem lt_accept_of_mem_predicted
    {production : ProductionId}
    {item : Item}
    (called : production ∈ rules.predicted item) :
    production < rules.accept := by
  obtain ⟨symbol, -, -, heads⟩ := mem_predicted.mp called
  exact head?_eq_some heads

theorem mem_calledFor_of_mem
    {production : ProductionId}
    {item : Item}
    {items : List Item}
    (member : item ∈ items)
    (called : production ∈ rules.predicted item) :
    production ∈ rules.calledFor items :=
  mem_reachable.mpr (.seed (List.mem_flatMap.mpr ⟨item, member, called⟩)
    (lt_accept_of_mem_predicted called))

theorem mem_calledFor_of_called
    {production next : ProductionId}
    {items : List Item}
    (before : production ∈ rules.calledFor items)
    (called : next ∈ rules.predicted ⟨production, 0⟩) :
    next ∈ rules.calledFor items :=
  mem_reachable.mpr (.step (mem_reachable.mp before) called
    (lt_accept_of_mem_predicted called))

/-- What holds of the productions that the items call for, and is passed on
by productions, holds of all that are called for. -/
theorem calledFor_induction
    {items : List Item}
    {holds : ProductionId → Prop}
    (directly : ∀ item ∈ items, ∀ production ∈ rules.predicted item,
      holds production)
    (passes : ∀ production ∈ rules.calledFor items, holds production →
      ∀ next ∈ rules.predicted ⟨production, 0⟩, holds next)
    {production : ProductionId}
    (called : production ∈ rules.calledFor items) :
    holds production := by
  have reached := mem_reachable.mp called
  clear called
  induction reached with
  | seed member inside =>
      obtain ⟨item, itemMember, itemCalls⟩ := List.mem_flatMap.mp member
      exact directly item itemMember _ itemCalls
  | step reached member inside inductionHypothesis =>
      exact passes _ (mem_reachable.mpr reached) inductionHypothesis _ member

theorem lt_accept_of_mem_calledFor
    {production : ProductionId}
    {items : List Item}
    (called : production ∈ rules.calledFor items) :
    production < rules.accept :=
  calledFor_induction
    (fun _ _ _ directly => lt_accept_of_mem_predicted directly)
    (fun _ _ _ _ passed => lt_accept_of_mem_predicted passed) called

theorem nodup_calledFor (items : List Item) :
    (rules.calledFor items).Nodup :=
  List.nodup_range.filter _

/-! ## Closures -/

theorem mem_closure {item : Item} {kernel : List Item} :
    item ∈ rules.closure kernel ↔
      item ∈ kernel ∨
        item.dot = 0 ∧ item.production ∈ rules.calledFor kernel := by
  obtain ⟨production, dot⟩ := item
  simp only [closure, Item.mem_sort, List.mem_append, List.mem_map,
    Item.mk.injEq]
  constructor
  · rintro (member | ⟨_, called, rfl, rfl⟩)
    · exact .inl member
    · exact .inr ⟨rfl, called⟩
  · rintro (member | ⟨atStart, called⟩)
    · exact .inl member
    · exact .inr ⟨production, called, rfl, atStart.symm⟩

/-- All that the items of a closure call for is called for. -/
theorem mem_calledFor_of_mem_closure
    {item : Item}
    {kernel : List Item}
    {production : ProductionId}
    (member : item ∈ rules.closure kernel)
    (called : production ∈ rules.predicted item) :
    production ∈ rules.calledFor kernel := by
  rcases mem_closure.mp member with inKernel | ⟨atStart, calledBefore⟩
  · exact mem_calledFor_of_mem inKernel called
  · obtain ⟨caller, dot⟩ := item
    obtain rfl : dot = 0 := atStart
    exact mem_calledFor_of_called calledBefore called

/-- A closure is closed. -/
theorem mem_closure_of_predicted
    {item : Item}
    {kernel : List Item}
    {production : ProductionId}
    (member : item ∈ rules.closure kernel)
    (called : production ∈ rules.predicted item) :
    ⟨production, 0⟩ ∈ rules.closure kernel :=
  mem_closure.mpr (.inr ⟨rfl, mem_calledFor_of_mem_closure member called⟩)

/-- What holds of the kernel and is passed on to the productions that an item
calls for holds of the closure. -/
theorem closure_induction
    (holds : Item → Prop)
    {kernel : List Item}
    (initially : ∀ item ∈ kernel, holds item)
    (passes : ∀ item ∈ rules.closure kernel, holds item →
      ∀ production ∈ rules.predicted item, holds ⟨production, 0⟩)
    {item : Item}
    (member : item ∈ rules.closure kernel) :
    holds item := by
  rcases mem_closure.mp member with inKernel | ⟨atStart, called⟩
  · exact initially item inKernel
  · obtain ⟨production, dot⟩ := item
    obtain rfl : dot = 0 := atStart
    refine @calledFor_induction rules kernel (fun other => holds ⟨other, 0⟩)
      ?_ ?_ production called
    · intro caller callerMember
      exact passes caller (mem_closure.mpr (.inl callerMember))
        (initially caller callerMember)
    · intro caller callerCalled callerHolds
      exact passes ⟨caller, 0⟩ (mem_closure.mpr (.inr ⟨rfl, callerCalled⟩))
        callerHolds

end Rules
end Table
end ParserGenerator
