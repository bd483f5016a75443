import ParserGenerator.Parse.Configuration
import ParserGenerator.Proofs.Table.Actions

/-!
# Stacks that follow transitions

A stack is rooted if its states are those on the way along its symbols from the
first state. The items of the state on top then tell what the topmost symbols
are.
-/

namespace ParserGenerator
namespace Parse

open Table (Rules Item Action)

/-- The state on top of some frames. -/
def topState {Value : Type} : List (Frame Value) → Nat
  | [] => 0
  | frame :: _ => frame.state

theorem Configuration.state_eq
    {Context Value : Type}
    (configuration : Configuration Context Value) :
    configuration.state = topState configuration.frames := by
  obtain ⟨frames, _, _⟩ := configuration
  cases frames <;> rfl

/-- Each frame is reached from the state below it over its symbol. -/
inductive Rooted {Value : Type} (table : Table) : List (Frame Value) → Prop
  | base : Rooted table []
  | push
      {frame : Frame Value}
      {frames : List (Frame Value)}
      (below : Rooted table frames)
      (edge : table.goto (topState frames) frame.symbol = some frame.state) :
      Rooted table (frame :: frames)

namespace Rooted

variable {Value : Type} {rules : Rules} {resolver : Option Table.Resolver}
  {table : Table} {frames : List (Frame Value)}

theorem drop (rooted : Rooted table frames) (count : Nat) :
    Rooted table (frames.drop count) := by
  induction rooted generalizing count with
  | base => simpa using Rooted.base
  | @push frame frames below edge inductionHypothesis =>
      cases count with
      | zero => exact .push below edge
      | succ count => exact inductionHypothesis count

/-- The state on top has a kernel. -/
theorem exists_kernel
    (built : (rules.construct resolver).result = .ok table)
    (rooted : Rooted table frames) :
    ∃ kernel, rules.kernelGraph.kernels[topState frames]? = some kernel := by
  induction rooted with
  | base => exact ⟨_, rules.explored_kernelGraph.first⟩
  | push below edge inductionHypothesis =>
      obtain ⟨kernel, found⟩ := inductionHypothesis
      rw [Rules.goto_of_construct built] at edge
      exact ⟨_, (Rules.kernel_of_goto found edge).1⟩

/-- A stack whose top is the first state is empty. -/
theorem eq_nil_of_topState
    (built : (rules.construct resolver).result = .ok table)
    (rooted : Rooted table frames)
    (first : topState frames = 0) :
    frames = [] := by
  cases rooted with
  | base => rfl
  | push below edge =>
      rw [Rules.goto_of_construct built] at edge
      exact absurd first (Rules.target_ne_zero edge)

/-- The symbols before the dot of an item are on top of the stack, and the item
starts in the state below them. -/
theorem spells
    (built : (rules.construct resolver).result = .ok table)
    {dot : Nat}
    (rooted : Rooted table frames)
    {production : ProductionId}
    {kernel : List Item}
    (found : rules.kernelGraph.kernels[topState frames]? = some kernel)
    (member : ⟨production, dot⟩ ∈ rules.closure kernel) :
    dot ≤ frames.length ∧
      ((frames.take dot).map Frame.symbol).reverse =
        (rules.body production).take dot ∧
      ∃ below, rules.kernelGraph.kernels[topState (frames.drop dot)]? =
          some below ∧
        ⟨production, 0⟩ ∈ rules.closure below := by
  induction dot generalizing frames kernel with
  | zero => exact ⟨Nat.zero_le _, rfl, kernel, found, member⟩
  | succ dot inductionHypothesis =>
      -- An item past the start of its body is in the kernel itself.
      have inKernel : ⟨production, dot + 1⟩ ∈ kernel :=
        (Rules.mem_closure.mp member).resolve_right (by simp)
      cases rooted with
      | base =>
          have isStart := Option.some.inj
            (found.symm.trans rules.explored_kernelGraph.first)
          simp [isStart, Rules.startKernel] at inKernel
      | @push frame rest below edge =>
          obtain ⟨belowKernel, belowFound⟩ := below.exists_kernel built
          rw [Rules.goto_of_construct built] at edge
          obtain ⟨moved, -⟩ := Rules.kernel_of_goto belowFound edge
          obtain rfl := Option.some.inj (found.symm.trans moved)
          obtain ⟨⟨before, beforeDot⟩, beforeMember, next, advanced⟩ :=
            Rules.mem_moved.mp inKernel
          obtain ⟨rfl, same⟩ := Item.mk.inj advanced
          obtain rfl := Nat.succ.inj same
          obtain ⟨enough, spelt, starts⟩ :=
            inductionHypothesis below belowFound beforeMember
          have nextSymbol : (rules.body before)[beforeDot]? =
            some frame.symbol := next
          refine ⟨Nat.succ_le_succ enough, ?_, starts⟩
          rw [List.take_succ_cons, List.map_cons, List.reverse_cons, spelt,
            List.take_add_one, nextSymbol, Option.toList_some]

/-- The body of a complete item is on top of the stack. -/
theorem spells_body
    (built : (rules.construct resolver).result = .ok table)
    (rooted : Rooted table frames)
    {production : ProductionId}
    {kernel : List Item}
    (found : rules.kernelGraph.kernels[topState frames]? = some kernel)
    (complete : ⟨production, (rules.body production).length⟩ ∈
      rules.closure kernel) :
    (rules.body production).length ≤ frames.length ∧
      ((frames.take (rules.body production).length).map
        Frame.symbol).reverse = rules.body production := by
  obtain ⟨enough, spelt, -⟩ := rooted.spells built found complete
  exact ⟨enough, by rwa [List.take_length] at spelt⟩

/-- Where the goal is complete there is nothing else on the stack. -/
theorem eq_singleton_of_accept
    (built : (rules.construct resolver).result = .ok table)
    (rooted : Rooted table frames)
    {kernel : List Item}
    (found : rules.kernelGraph.kernels[topState frames]? = some kernel)
    (complete : ⟨rules.accept, 1⟩ ∈ rules.closure kernel) :
    ∃ frame, frames = [frame] ∧ frame.symbol = rules.goal := by
  obtain ⟨enough, spelt, below, belowFound, starts⟩ :=
    rooted.spells built found complete
  obtain ⟨frame, rest, rfl⟩ := List.exists_cons_of_length_pos enough
  have isGoal : frame.symbol = rules.goal := by simpa using spelt
  -- The item of the goal starts in the first state only.
  have inKernel : ⟨rules.accept, 0⟩ ∈ below := by
    rcases Rules.mem_closure.mp starts with inKernel | ⟨-, called⟩
    · exact inKernel
    · exact absurd rfl (Nat.ne_of_lt (Rules.lt_accept_of_mem_calledFor called))
  have isFirst : below = rules.startKernel := by
    rcases (rules.explored_kernelGraph.isKernel _ _ belowFound).moved with
      isStart | dots
    · exact isStart
    · exact absurd (dots _ inKernel) (Nat.lt_irrefl 0)
  have restFirst : topState rest = 0 := by
    subst isFirst
    exact rules.explored_kernelGraph.state_unique belowFound
      rules.explored_kernelGraph.first
  obtain rfl := (rooted.drop 1).eq_nil_of_topState built restFirst
  exact ⟨frame, rfl, isGoal⟩

end Rooted
end Parse
end ParserGenerator
