import ParserGenerator.Reach

/-!
# The reachable nodes

The search marks exactly the nodes that can be reached from the seeds over
nodes of the graph.
-/

namespace ParserGenerator

/-- A node of a graph with `size` nodes that can be reached from the seeds. -/
inductive Reachable (size : Nat) (successors : Nat → List Nat)
    (seeds : List Nat) : Nat → Prop
  | seed
      {node : Nat}
      (member : node ∈ seeds)
      (inside : node < size) :
      Reachable size successors seeds node
  | step
      {node next : Nat}
      (reached : Reachable size successors seeds node)
      (member : next ∈ successors node)
      (inside : next < size) :
      Reachable size successors seeds next

/-- Whether a node is marked. -/
def Marked (marks : Array Bool) (node : Nat) : Prop :=
  marks[node]? = some true

theorem marked_set_self
    {marks : Array Bool}
    {node : Nat}
    (inside : node < marks.size) :
    Marked (marks.setIfInBounds node true) node := by
  simp [Marked, inside]

theorem Marked.set
    {marks : Array Bool}
    {node : Nat}
    (marked : Marked marks node)
    (other : Nat) :
    Marked (marks.setIfInBounds other true) node := by
  unfold Marked at *
  rw [Array.getElem?_setIfInBounds]
  split
  · next same =>
      subst same
      obtain ⟨inside, -⟩ := Array.getElem?_eq_some_iff.mp marked
      simp [inside]
  · exact marked

theorem marked_set_iff
    {marks : Array Bool}
    {node other : Nat}
    (inside : node < marks.size) :
    Marked (marks.setIfInBounds node true) other ↔
      other = node ∨ Marked marks other := by
  unfold Marked
  rw [Array.getElem?_setIfInBounds]
  by_cases same : node = other
  · subst same
    simp [inside]
  · simp [same, Ne.symm same]

theorem count_false_set_lt
    (marks : Array Bool)
    (node : Nat)
    (unmarked : marks[node]? = some false) :
    (marks.setIfInBounds node true).count false < marks.count false := by
  obtain ⟨inBounds, value⟩ := Array.getElem?_eq_some_iff.mp unmarked
  have member : 0 < marks.count false :=
    Array.count_pos_iff.mpr (value ▸ Array.getElem_mem inBounds)
  rw [Array.setIfInBounds, dif_pos inBounds, Array.count_set, value]
  show marks.count false - 1 + 0 < marks.count false
  omega

/-- Marked nodes stay marked and the given ones become marked; successors of
newly marked nodes are marked too. -/
structure Completes (successors : Nat → List Nat) (nodes : List Nat)
    (marks after : Array Bool) : Prop where
  size : after.size = marks.size
  fewer : after.count false ≤ marks.count false
  keeps : ∀ node, Marked marks node → Marked after node
  covers : ∀ node ∈ nodes, node < marks.size → Marked after node
  closes : ∀ node, Marked after node → ¬Marked marks node →
    ∀ next ∈ successors node, next < marks.size → Marked after next

namespace Completes

variable {successors : Nat → List Nat} {marks middle after : Array Bool}

theorem nil (successors : Nat → List Nat) (marks : Array Bool) :
    Completes successors [] marks marks where
  size := rfl
  fewer := Nat.le_refl _
  keeps _ marked := marked
  covers _ impossible := absurd impossible List.not_mem_nil
  closes _ marked unmarked := absurd marked unmarked

theorem marked
    {node : Nat}
    (notFree : marks[node]? ≠ some false) :
    Completes successors [node] marks marks where
  size := rfl
  fewer := Nat.le_refl _
  keeps _ marked := marked
  covers other member inside := by
    obtain rfl := List.mem_singleton.mp member
    cases value : marks[other] with
    | true => exact Array.getElem?_eq_some_iff.mpr ⟨inside, value⟩
    | false =>
        exact absurd (Array.getElem?_eq_some_iff.mpr ⟨inside, value⟩) notFree
  closes _ marked unmarked := absurd marked unmarked

theorem cons
    {node : Nat}
    {nodes : List Nat}
    (first : Completes successors [node] marks middle)
    (rest : Completes successors nodes middle after) :
    Completes successors (node :: nodes) marks after where
  size := rest.size.trans first.size
  fewer := Nat.le_trans rest.fewer first.fewer
  keeps other marked := rest.keeps other (first.keeps other marked)
  covers other member inside := by
    rcases List.mem_cons.mp member with rfl | later
    · exact rest.keeps other (first.covers other List.mem_cons_self inside)
    · exact rest.covers other later (first.size ▸ inside)
  closes other marked unmarked next member inside := by
    by_cases between : Marked middle other
    · exact rest.keeps next
        (first.closes other between unmarked next member inside)
    · exact rest.closes other marked between next member (first.size ▸ inside)

/-- A node that is not marked is marked before its successors. -/
theorem visit
    {node : Nat}
    (unmarked : marks[node]? = some false)
    (rest : Completes successors (successors node)
      (marks.setIfInBounds node true) after) :
    Completes successors [node] marks after where
  size := rest.size.trans Array.size_setIfInBounds
  fewer := Nat.le_trans rest.fewer
    (Nat.le_of_lt (count_false_set_lt marks node unmarked))
  keeps other marked := rest.keeps other (marked.set node)
  covers other member inside := by
    obtain rfl := List.mem_singleton.mp member
    exact rest.keeps other (marked_set_self inside)
  closes other marked notBefore next member nextInside := by
    have stillInside : next < (marks.setIfInBounds node true).size := by
      rwa [Array.size_setIfInBounds]
    by_cases same : other = node
    · subst same
      exact rest.covers next member stillInside
    · obtain ⟨inside, -⟩ := Array.getElem?_eq_some_iff.mp unmarked
      refine rest.closes other marked ?_ next member stillInside
      rw [marked_set_iff inside]
      rintro (equal | before)
      · exact same equal
      · exact notBefore before

end Completes

theorem completes_foldl
    {successors : Nat → List Nat}
    {fuel : Nat}
    (step : ∀ (marks : Array Bool) (node : Nat), marks.count false ≤ fuel →
      Completes successors [node] marks (markFrom successors fuel marks node))
    (nodes : List Nat)
    {marks : Array Bool}
    (enough : marks.count false ≤ fuel) :
    Completes successors nodes marks
      (nodes.foldl (markFrom successors fuel) marks) := by
  induction nodes generalizing marks with
  | nil => exact .nil successors marks
  | cons node nodes inductionHypothesis =>
      have first := step marks node enough
      exact first.cons
        (inductionHypothesis (Nat.le_trans first.fewer enough))

/-- A search with enough fuel is complete: each node on a path takes a mark. -/
theorem completes_markFrom
    (successors : Nat → List Nat)
    (fuel : Nat)
    (marks : Array Bool)
    (node : Nat)
    (enough : marks.count false ≤ fuel) :
    Completes successors [node] marks
      (markFrom successors fuel marks node) := by
  induction fuel generalizing marks node with
  | zero =>
      refine .marked fun unmarked => ?_
      have fewer := count_false_set_lt marks node unmarked
      omega
  | succ fuel inductionHypothesis =>
      rw [markFrom]
      split
      · next unmarked =>
          have fewer := count_false_set_lt marks node unmarked
          exact .visit unmarked
            (completes_foldl inductionHypothesis _ (by omega))
      · next notFree => exact .marked notFree

/-- All marked nodes of a graph with `size` nodes have a property. -/
structure MarksOnly (size : Nat) (reached : Nat → Prop)
    (marks : Array Bool) : Prop where
  size : marks.size = size
  reached : ∀ node, Marked marks node → reached node

theorem marksOnly_foldl
    {size : Nat}
    {reached : Nat → Prop}
    {step : Array Bool → Nat → Array Bool}
    (keeps : ∀ marks node, MarksOnly size reached marks →
      (node < size → reached node) → MarksOnly size reached (step marks node))
    {nodes : List Nat}
    (listed : ∀ node ∈ nodes, node < size → reached node)
    {marks : Array Bool}
    (before : MarksOnly size reached marks) :
    MarksOnly size reached (nodes.foldl step marks) := by
  induction nodes generalizing marks with
  | nil => exact before
  | cons node nodes inductionHypothesis =>
      obtain ⟨first, others⟩ := List.forall_mem_cons.mp listed
      exact inductionHypothesis others (keeps marks node before first)

/-- Only nodes that can be reached are marked. -/
theorem marksOnly_markFrom
    {successors : Nat → List Nat}
    {size : Nat}
    {reached : Nat → Prop}
    (closed : ∀ node, reached node → ∀ next ∈ successors node,
      next < size → reached next)
    (fuel : Nat)
    (marks : Array Bool)
    (node : Nat)
    (before : MarksOnly size reached marks)
    (isReached : node < size → reached node) :
    MarksOnly size reached (markFrom successors fuel marks node) := by
  induction fuel generalizing marks node with
  | zero => exact before
  | succ fuel inductionHypothesis =>
      rw [markFrom]
      split
      · next unmarked =>
          obtain ⟨inside, -⟩ := Array.getElem?_eq_some_iff.mp unmarked
          have nodeReached := isReached (before.size ▸ inside)
          refine marksOnly_foldl inductionHypothesis
            (closed node nodeReached) ⟨?_, fun other marked => ?_⟩
          · rw [Array.size_setIfInBounds, before.size]
          · rcases (marked_set_iff inside).mp marked with rfl | earlier
            · exact nodeReached
            · exact before.reached other earlier
      · exact before

/-- The search finds exactly the nodes that can be reached. -/
@[simp] theorem mem_reachable
    {size : Nat}
    {successors : Nat → List Nat}
    {seeds : List Nat}
    {node : Nat} :
    node ∈ reachable size successors seeds ↔
      Reachable size successors seeds node := by
  have unmarked : ∀ node, ¬Marked (Array.replicate size false) node := by
    intro node
    simp [Marked, Array.getElem?_replicate]
  have complete := completes_foldl
    (completes_markFrom successors size) seeds
    (show (Array.replicate size false).count false ≤ size by simp)
  have covers := complete.covers
  have closes := complete.closes
  simp only [Array.size_replicate] at covers closes
  simp only [reachable, List.mem_filter, List.mem_range, beq_iff_eq]
  constructor
  · rintro ⟨-, marked⟩
    have before : MarksOnly size (Reachable size successors seeds)
        (Array.replicate size false) :=
      ⟨Array.size_replicate, fun other before => absurd before (unmarked other)⟩
    have only := marksOnly_foldl
      (marksOnly_markFrom (fun other reached next => .step reached) size)
      (fun other => .seed) before
    exact only.reached node marked
  · intro reached
    induction reached with
    | seed member inside => exact ⟨inside, covers _ member inside⟩
    | step reached member inside inductionHypothesis =>
        exact ⟨inside, closes _ inductionHypothesis.2 (unmarked _) _ member inside⟩

end ParserGenerator
