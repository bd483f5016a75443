import ParserGenerator.Stream.LineCounter

/-!
# Lines of a text

A line of a text ends with each of its line breaks, where a carriage return and
the line feed after it are one. A counter that is shown a text piece by piece
tells the places of its offsets, from the one on that it was told to keep, as
the part that it has seen tells them: a carriage return at the end of that part
counts as a line break of its own until the line feed after it is seen.
-/

namespace ParserGenerator
namespace Stream

/-- Whether a line ends with the unit at an index; a carriage return leaves that
to a line feed after it. -/
def endsLine (text : List CodeUnit) (index : Nat) : Bool :=
  match text[index]? with
  | none => false
  | some unit =>
      isLineBreak unit &&
        !(unit == carriageReturn && text[index + 1]? == some lineFeed)

/-- Whether a line starts at an offset. -/
def startsLine (text : List CodeUnit) : Nat → Bool
  | 0 => true
  | index + 1 => endsLine text index

/-- The starts of the lines up to an offset. -/
def lineStarts (text : List CodeUnit) (offset : Nat) : List Nat :=
  (List.range (offset + 1)).filter (startsLine text)

/-- The place of an offset in a text. -/
def placeOf (text : List CodeUnit) (offset : Nat) : Position :=
  ⟨(lineStarts text offset).length,
    offset - (lineStarts text offset).getLastD 0 + 1⟩

variable {text : List CodeUnit} {offset stop kept : Nat}

/-! ## The starts of lines -/

@[simp] theorem lineStarts_zero (text : List CodeUnit) :
    lineStarts text 0 = [0] := rfl

theorem lineStarts_succ (text : List CodeUnit) (offset : Nat) :
    lineStarts text (offset + 1) =
      lineStarts text offset ++
        if endsLine text offset then [offset + 1] else [] := by
  rw [lineStarts, List.range_succ, List.filter_append, ← lineStarts,
    List.filter_cons, List.filter_nil]
  rfl

theorem lineStarts_ne_nil (text : List CodeUnit) (offset : Nat) :
    lineStarts text offset ≠ [] := by
  have front : 0 ∈ lineStarts text offset :=
    List.mem_filter.mpr ⟨by simp, rfl⟩
  exact List.ne_nil_of_mem front

theorem le_of_mem_lineStarts
    {start : Nat}
    (member : start ∈ lineStarts text offset) :
    start ≤ offset := by
  have inRange := (List.mem_filter.mp member).1
  rw [List.mem_range] at inRange
  omega

theorem pairwise_lineStarts (text : List CodeUnit) (offset : Nat) :
    (lineStarts text offset).Pairwise (· < ·) :=
  List.pairwise_lt_range.filter _

/-- More lines start at later offsets only. -/
theorem exists_lineStarts_append
    (text : List CodeUnit)
    (within : offset ≤ stop) :
    ∃ later, lineStarts text stop = lineStarts text offset ++ later ∧
      ∀ start ∈ later, offset < start := by
  induction within with
  | refl => exact ⟨[], by simp⟩
  | @step stop within inductionHypothesis =>
      obtain ⟨later, split, beyond⟩ := inductionHypothesis
      refine ⟨later ++ if endsLine text stop then [stop + 1] else [], ?_, ?_⟩
      · rw [lineStarts_succ, split, List.append_assoc]
      · intro start member
        rcases List.mem_append.mp member with earlier | atStop
        · exact beyond start earlier
        · split at atStop
          · rw [List.mem_singleton.mp atStop]
            exact Nat.lt_succ_of_le within
          · simp at atStop

theorem length_lineStarts_mono
    (text : List CodeUnit)
    (within : offset ≤ stop) :
    (lineStarts text offset).length ≤ (lineStarts text stop).length := by
  obtain ⟨later, split, -⟩ := exists_lineStarts_append text within
  rw [split, List.length_append]
  exact Nat.le_add_right _ _

/-- No line starts beyond the end of a text. -/
theorem lineStarts_of_length_le (beyond : text.length ≤ offset) :
    lineStarts text offset = lineStarts text text.length := by
  induction beyond with
  | refl => rfl
  | @step offset beyond inductionHypothesis =>
      have notEnd : endsLine text offset = false := by
        simp [endsLine, List.getElem?_eq_none beyond]
      rw [lineStarts_succ, notEnd, inductionHypothesis]
      simp

/-- The starts up to an offset depend on the units up to the one at the
offset. -/
theorem lineStarts_congr
    {other : List CodeUnit}
    (same : ∀ index ≤ offset, other[index]? = text[index]?) :
    lineStarts other offset = lineStarts text offset := by
  refine List.filter_congr fun start member => ?_
  rw [List.mem_range] at member
  cases start with
  | zero => rfl
  | succ index =>
      show endsLine other index = endsLine text index
      unfold endsLine
      rw [same index (by omega), same (index + 1) (by omega)]

/-- The last unit of a text ends a line if it is a line break. -/
theorem endsLine_concat (text : List CodeUnit) (unit : CodeUnit) :
    endsLine (text ++ [unit]) text.length = isLineBreak unit := by
  simp [endsLine]

theorem lineStarts_concat
    {unit : CodeUnit}
    (apart : ¬(text.getLast? = some carriageReturn ∧ unit = lineFeed)) :
    lineStarts (text ++ [unit]) text.length = lineStarts text text.length := by
  rcases text.eq_nil_or_concat with rfl | ⟨front, last, rfl⟩
  · rfl
  · rw [List.concat_eq_append] at apart ⊢
    have sameEnd : endsLine (front ++ [last] ++ [unit]) front.length =
        endsLine (front ++ [last]) front.length := by
      rw [List.getLast?_concat, Option.some.injEq,
        Classical.not_and_iff_not_or_not] at apart
      simp [endsLine, apart]
    rw [List.length_append, List.length_singleton, lineStarts_succ,
      lineStarts_succ, sameEnd, lineStarts_congr]
    intro index early
    exact List.getElem?_append_left (by simp; omega)

/-- A line feed after a carriage return takes its line break over. -/
theorem lineStarts_concat_lineFeed
    (last : text.getLast? = some carriageReturn) :
    lineStarts text text.length =
      lineStarts (text ++ [lineFeed]) text.length ++ [text.length] := by
  obtain ⟨front, rfl⟩ := List.getLast?_eq_some_iff.mp last
  have notEnd : endsLine (front ++ [carriageReturn] ++ [lineFeed])
      front.length = false := by
    simp [endsLine]
  have isEnd : endsLine (front ++ [carriageReturn]) front.length = true :=
    endsLine_concat _ _
  have same : lineStarts (front ++ [carriageReturn] ++ [lineFeed])
      front.length = lineStarts (front ++ [carriageReturn]) front.length := by
    refine lineStarts_congr fun index early => ?_
    exact List.getElem?_append_left (by simp; omega)
  rw [List.length_append, List.length_singleton, lineStarts_succ,
    lineStarts_succ, notEnd, isEnd, same]
  simp

/-- The next offset is in the next column, or at the start of the next line. -/
theorem placeOf_succ (text : List CodeUnit) (offset : Nat) :
    placeOf text (offset + 1) =
      if endsLine text offset then
        ⟨(placeOf text offset).line + 1, 1⟩
      else
        ⟨(placeOf text offset).line, (placeOf text offset).column + 1⟩ := by
  unfold placeOf
  rw [lineStarts_succ]
  split
  · simp
  · have below : (lineStarts text offset).getLastD 0 ≤ offset := by
      rw [List.getLastD_eq_getLast?, List.getLast?_eq_some_getLast
        (lineStarts_ne_nil text offset)]
      exact le_of_mem_lineStarts (List.getLast_mem _)
    simp only [List.append_nil, Position.mk.injEq, true_and]
    omega

example : placeOf [97, 13, 10, 98] 2 = ⟨1, 3⟩ := by decide

/-! ## The front of a text -/

/-- An offset lies between a carriage return and the line feed after it. -/
def SplitsReturn (text : List CodeUnit) (offset : Nat) : Prop :=
  0 < offset ∧ text[offset - 1]? = some carriageReturn ∧
    text[offset]? = some lineFeed

instance (text : List CodeUnit) (offset : Nat) :
    Decidable (SplitsReturn text offset) :=
  inferInstanceAs (Decidable (_ ∧ _ ∧ _))

theorem placeOf_take_of_lt
    (text : List CodeUnit)
    (inside : offset < stop) :
    placeOf (text.take stop) offset = placeOf text offset := by
  have same : lineStarts (text.take stop) offset = lineStarts text offset :=
    lineStarts_congr fun index early =>
      List.getElem?_take_of_lt (Nat.lt_of_le_of_lt early inside)
  rw [placeOf, same, placeOf]

/-- Without what follows it, the last unit ends a line if it is a line break. -/
theorem endsLine_take_succ (text : List CodeUnit) (index : Nat) :
    endsLine (text.take (index + 1)) index = text[index]?.any isLineBreak := by
  unfold endsLine
  rw [List.getElem?_take_of_lt (Nat.lt_succ_self index),
    List.getElem?_take_eq_none (Nat.le_refl _)]
  cases text[index]? <;> simp

/-- The front of a text tells the place of its end, unless it ends between a
carriage return and a line feed. -/
theorem placeOf_take_self
    (whole : ¬SplitsReturn text offset) :
    placeOf (text.take offset) offset = placeOf text offset := by
  cases offset with
  | zero => rfl
  | succ index =>
      have sameEnd :
          endsLine (text.take (index + 1)) index = endsLine text index := by
        rw [endsLine_take_succ, endsLine]
        cases found : text[index]? with
        | none => rfl
        | some unit =>
            simp only [SplitsReturn, Nat.succ_pos, Nat.add_sub_cancel, found,
              true_and, Option.some.injEq, not_and] at whole
            by_cases isReturn : unit = carriageReturn
            · simp [isReturn, whole isReturn]
            · simp [isReturn]
      rw [placeOf_succ, placeOf_succ, sameEnd,
        placeOf_take_of_lt text (Nat.lt_succ_self index)]

/-- The front of a text up to a carriage return seems to end with a line, which
the line feed after it still belongs to. -/
theorem placeOf_take_of_splitsReturn
    (splits : SplitsReturn text offset) :
    placeOf (text.take offset) offset =
      ⟨(placeOf text offset).line + 1, 1⟩ := by
  obtain ⟨positive, atReturn, atFeed⟩ := splits
  obtain ⟨index, rfl⟩ := Nat.exists_eq_succ_of_ne_zero
    (Nat.ne_of_gt positive)
  rw [Nat.succ_sub_one] at atReturn
  have seemsEnd : endsLine (text.take (index + 1)) index = true := by
    rw [endsLine_take_succ, atReturn]
    rfl
  have isEnd : endsLine text index = false := by
    simp [endsLine, atReturn, atFeed]
  rw [placeOf_succ, placeOf_succ, seemsEnd, isEnd,
    placeOf_take_of_lt text (Nat.lt_succ_self index)]
  rfl

/-! ## Bisection -/

namespace LineCounter

/-- Starts before an index are up to an offset and starts from it on are
beyond, if the one at the index is. -/
theorem countP_take_add_countP_drop
    (offset index : Nat)
    (starts : List Nat) :
    (starts.take index).countP (· ≤ offset) +
        (starts.drop index).countP (· ≤ offset) =
      starts.countP (· ≤ offset) := by
  rw [← List.countP_append, List.take_append_drop]

variable {starts : List Nat} {index : Nat}

theorem countP_take
    (ascending : starts.Pairwise (· < ·))
    (inside : index < starts.length)
    (below : starts[index] ≤ offset) :
    (starts.take index).countP (· ≤ offset) = index := by
  rw [← List.take_append_drop index starts, List.pairwise_append,
    List.drop_eq_getElem_cons inside] at ascending
  have allBelow : ∀ start ∈ starts.take index,
      decide (start ≤ offset) = true := by
    intro start member
    have early := ascending.2.2 start member _ List.mem_cons_self
    exact decide_eq_true (by omega)
  rw [List.countP_eq_length.mpr allBelow, List.length_take,
    Nat.min_eq_left (Nat.le_of_lt inside)]

theorem countP_drop
    (ascending : starts.Pairwise (· < ·))
    (inside : index < starts.length)
    (above : offset < starts[index])
    {later : Nat}
    (isLater : index ≤ later) :
    (starts.drop later).countP (· ≤ offset) = 0 := by
  have fromIndex := ascending.sublist (List.drop_sublist index starts)
  rw [List.drop_eq_getElem_cons inside, List.pairwise_cons] at fromIndex
  refine List.countP_eq_zero.mpr fun start member => ?_
  have late := (List.drop_sublist_drop_left starts isLater).subset member
  rw [List.drop_eq_getElem_cons inside, List.mem_cons] at late
  rw [decide_eq_true_eq, Nat.not_le]
  rcases late with rfl | beyond
  · exact above
  · exact Nat.lt_trans above (fromIndex.1 start beyond)

/-- Bisection counts the starts up to an offset. -/
theorem countUpTo_eq_countP
    (offset : Nat)
    {starts : List Nat}
    (ascending : starts.Pairwise (· < ·)) :
    countUpTo offset starts = starts.countP (· ≤ offset) := by
  fun_induction countUpTo offset starts with
  | case1 => rfl
  | case2 start below => simp [below]
  | case3 start above => simp [above]
  | case4 first second rest starts half below inductionHypothesis =>
      have inside : half < starts.length := Nat.div_lt_self (by simp [starts])
        (by omega)
      rw [List.getElem?_eq_getElem inside, Option.any_some,
        decide_eq_true_eq] at below
      rw [inductionHypothesis (ascending.sublist (List.drop_sublist _ _)),
        ← countP_take_add_countP_drop offset half starts,
        countP_take ascending inside below]
  | case5 first second rest starts half above inductionHypothesis =>
      have inside : half < starts.length := Nat.div_lt_self (by simp [starts])
        (by omega)
      rw [List.getElem?_eq_getElem inside, Option.any_some,
        decide_eq_true_eq, Nat.not_le] at above
      rw [inductionHypothesis (ascending.sublist (List.take_sublist _ _)),
        ← countP_take_add_countP_drop offset (starts.length - half) starts,
        countP_drop ascending inside above (by omega), Nat.add_zero]

/-! ## What a counter knows -/

theorem reverse_starts (counter : LineCounter) :
    counter.starts.reverse = counter.earlier.reverse ++ [counter.latest] :=
  List.reverse_cons

/-- A counter knows the lines of the text it has seen, from that of the kept
offset on. -/
structure Follows (counter : LineCounter) (text : List CodeUnit)
    (kept : Nat) : Prop where
  starts : counter.starts.reverse =
    (lineStarts text text.length).drop counter.dropped
  keeps : counter.dropped < (lineStarts text kept).length
  afterReturn : counter.afterReturn =
    if text.getLast? = some carriageReturn then some text.length else none

namespace Follows

variable {counter : LineCounter}

theorem dropped_lt
    (follows : counter.Follows text kept)
    (after : kept ≤ offset) :
    counter.dropped < (lineStarts text offset).length :=
  Nat.lt_of_lt_of_le follows.keeps (length_lineStarts_mono text after)

/-- The start of the last line is never forgotten. -/
theorem toEnd (follows : counter.Follows text kept) :
    counter.Follows text text.length := by
  refine ⟨follows.starts, Nat.lt_of_not_le fun none => ?_, follows.afterReturn⟩
  have starts := follows.starts
  rw [List.drop_eq_nil_of_le none, reverse_starts] at starts
  simp at starts

/-- The starts that are remembered up to an offset, and those beyond it. -/
theorem exists_starts_append
    (follows : counter.Follows text kept)
    (offset : Nat) :
    ∃ later, counter.starts.reverse =
        (lineStarts text offset).drop counter.dropped ++ later ∧
      ∀ start ∈ later, offset < start := by
  rcases Nat.le_total offset text.length with within | beyond
  · obtain ⟨later, split, above⟩ := exists_lineStarts_append text within
    refine ⟨later.drop (counter.dropped - (lineStarts text offset).length), ?_,
      fun start member => above start (List.mem_of_mem_drop member)⟩
    rw [follows.starts, split, List.drop_append]
  · refine ⟨[], ?_, by simp⟩
    rw [follows.starts, lineStarts_of_length_le beyond, List.append_nil]

theorem ascending (follows : counter.Follows text kept) :
    counter.starts.reverse.Pairwise (· < ·) := by
  rw [follows.starts]
  exact (pairwise_lineStarts _ _).sublist (List.drop_sublist _ _)

theorem countUpTo_starts
    (follows : counter.Follows text kept)
    (offset : Nat) :
    countUpTo offset counter.starts.reverse =
      (lineStarts text offset).length - counter.dropped := by
  obtain ⟨later, split, beyond⟩ := follows.exists_starts_append offset
  have allBelow : ∀ start ∈ (lineStarts text offset).drop counter.dropped,
      decide (start ≤ offset) = true := fun start member =>
    decide_eq_true (le_of_mem_lineStarts (List.mem_of_mem_drop member))
  have noneBelow : ∀ start ∈ later, ¬ decide (start ≤ offset) = true := by
    intro start member
    simpa using beyond start member
  rw [countUpTo_eq_countP offset follows.ascending, split, List.countP_append,
    List.countP_eq_length.mpr allBelow, List.countP_eq_zero.mpr noneBelow,
    List.length_drop, Nat.add_zero]

/-- A counter tells the places of the text it has seen, unless their lines were
forgotten. -/
theorem location_eq_ite
    (follows : counter.Follows text kept)
    (offset : Nat) :
    counter.location offset =
      if counter.dropped < (lineStarts text offset).length then
        some (placeOf text offset)
      else
        none := by
  have counted := follows.countUpTo_starts offset
  unfold location
  dsimp only
  by_cases inside : counter.dropped < (lineStarts text offset).length
  · obtain ⟨later, split, -⟩ := follows.exists_starts_append offset
    obtain ⟨index, isLength⟩ := Nat.exists_eq_add_of_lt inside
    rw [isLength, Nat.add_assoc, Nat.add_sub_cancel_left] at counted
    have latest : counter.starts.reverse[index]? =
        some ((lineStarts text offset).getLastD 0) := by
      rw [split, List.getElem?_append_left (by rw [List.length_drop]; omega),
        List.getElem?_drop, List.getLastD_eq_getLast?,
        List.getLast?_eq_getElem?, isLength, Nat.add_sub_cancel,
        List.getElem?_eq_getElem (by omega), Option.getD_some]
    rw [if_pos inside, counted]
    dsimp only
    rw [latest, Option.map_some, placeOf, isLength]
  · rw [if_neg inside, counted, Nat.sub_eq_zero_of_le (Nat.not_lt.mp inside)]

theorem location_eq
    (follows : counter.Follows text kept)
    (after : kept ≤ offset) :
    counter.location offset = some (placeOf text offset) := by
  rw [follows.location_eq_ite, if_pos (follows.dropped_lt after)]

/-- The lines before that of an offset are forgotten. -/
theorem dropped_discardBefore
    (follows : counter.Follows text kept)
    (offset : Nat) :
    (counter.discardBefore offset).dropped =
      max counter.dropped ((lineStarts text offset).length - 1) := by
  show counter.dropped + (countUpTo offset counter.starts.reverse - 1) = _
  rw [follows.countUpTo_starts]
  omega

/-- Forgetting the lines before an offset keeps those from there on. -/
theorem discardBefore
    (follows : counter.Follows text kept)
    (offset : Nat) :
    (counter.discardBefore offset).Follows text (max kept offset) := by
  have fewer : countUpTo offset counter.starts.reverse - 1 ≤
      counter.earlier.length := by
    obtain ⟨later, split, -⟩ := follows.exists_starts_append offset
    have lengths := congrArg List.length split
    rw [List.length_append, List.length_drop, reverse_starts,
      List.length_append, List.length_reverse, List.length_singleton] at lengths
    rw [follows.countUpTo_starts]
    omega
  refine ⟨?_, ?_, follows.afterReturn⟩
  · unfold LineCounter.discardBefore
    generalize countUpTo offset counter.starts.reverse - 1 = forgotten at fewer
    rw [reverse_starts, ← List.drop_drop, ← follows.starts, reverse_starts,
      List.drop_append_of_le_length (by simpa using fewer), List.drop_reverse]
  · have nonempty := List.length_pos_iff.mpr (lineStarts_ne_nil text offset)
    have before := length_lineStarts_mono text (Nat.le_max_left kept offset)
    have within := length_lineStarts_mono text (Nat.le_max_right kept offset)
    have keeps := follows.keeps
    rw [follows.dropped_discardBefore]
    omega

/-- A counter is shown the next unit. -/
theorem observeUnit
    (follows : counter.Follows text kept)
    {unit : CodeUnit}
    (keeps : counter.dropped < (lineStarts (text ++ [unit]) stop).length) :
    (counter.observeUnit text.length unit).Follows (text ++ [unit]) stop := by
  have inside := follows.toEnd.keeps
  have isLength : (text ++ [unit]).length = text.length + 1 :=
    List.length_append
  have returned : counter.afterReturn = some text.length ↔
      text.getLast? = some carriageReturn := by
    simp [follows.afterReturn]
  have unreturned (other : unit ≠ carriageReturn) :
      none = if (text ++ [unit]).getLast? = some carriageReturn then
        some (text ++ [unit]).length else none := by
    simp [other]
  unfold LineCounter.observeUnit
  split
  · next isFeed =>
      obtain ⟨rfl, atReturn⟩ := isFeed
      have moved := lineStarts_concat_lineFeed (returned.mp atReturn)
      have fewer : counter.dropped ≤
          (lineStarts (text ++ [lineFeed]) text.length).length := by
        rw [moved, List.length_append, List.length_singleton] at inside
        omega
      have before : counter.earlier.reverse =
          (lineStarts (text ++ [lineFeed]) text.length).drop
            counter.dropped := by
        have both := follows.starts
        rw [reverse_starts, moved, List.drop_append_of_le_length fewer] at both
        exact List.append_inj_left' both rfl
      refine ⟨?_, keeps, unreturned (by decide)⟩
      rw [reverse_starts, isLength, lineStarts_succ, endsLine_concat,
        if_pos (by decide), List.drop_append_of_le_length fewer, ← before]
  · next notFeed =>
      have sameStarts : lineStarts (text ++ [unit]) text.length =
          lineStarts text text.length :=
        lineStarts_concat fun ⟨atReturn, isFeed⟩ =>
          notFeed ⟨isFeed, returned.mpr atReturn⟩
      have fewer := Nat.le_of_lt inside
      split
      · next breaks =>
          refine ⟨?_, keeps, ?_⟩
          · rw [isLength, lineStarts_succ, endsLine_concat, if_pos breaks,
              sameStarts, List.drop_append_of_le_length fewer, ← follows.starts]
            exact List.reverse_cons
          · simp
      · next unbroken =>
          have other : unit ≠ carriageReturn := by
            rintro rfl
            exact unbroken (by decide)
          refine ⟨?_, keeps, unreturned other⟩
          rw [isLength, lineStarts_succ, endsLine_concat, if_neg unbroken,
            sameStarts, List.append_nil, ← follows.starts]
          rfl

/-- A counter is shown the units that come next. -/
theorem observe
    (follows : counter.Follows text kept)
    (early : kept = 0 ∨ kept < text.length)
    (units : List CodeUnit) :
    (counter.observe text.length units).Follows (text ++ units) kept := by
  induction units generalizing text counter with
  | nil => rwa [List.append_nil]
  | cons unit rest inductionHypothesis =>
      have sameKept :
          lineStarts (text ++ [unit]) kept = lineStarts text kept := by
        rcases early with rfl | inside
        · rfl
        · refine lineStarts_congr fun index isEarly => ?_
          exact List.getElem?_append_left (by omega)
      have further := inductionHypothesis
        (follows.observeUnit (sameKept ▸ follows.keeps))
        (by rw [List.length_append]; omega)
      rwa [List.length_append, List.append_assoc] at further

/-- A new counter has seen nothing. -/
theorem start : LineCounter.start.Follows [] 0 :=
  ⟨rfl, Nat.zero_lt_one, rfl⟩

end Follows

end LineCounter

end Stream
end ParserGenerator
