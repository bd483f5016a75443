import Mathlib.Algebra.Group.Nat.Defs
import ParserGenerator.Proofs.Stream.Delivery

/-!
# Windows in place

A window as it stands in memory: a row of units, of which those before a mark
are filled in and those before an earlier mark are consumed. Making room copies
the pending units to the front of the row, makes the row longer, does both or
neither. Whatever calls are made, the row shows the window that the same calls
make of a window, and the window holds the units that arrived and are not
consumed.
-/

namespace ParserGenerator
namespace Stream

/-! ## The row -/

/-- A row of units with a window on them. -/
structure Storage where
  /-- The units, filled in or not. -/
  units : List CodeUnit
  /-- The number of units filled in. -/
  filled : Nat
  /-- The number of units consumed. -/
  consumed : Nat
  /-- The offset of the front of the row in the stream. -/
  base : Nat
  /-- Whether the stream has ended. -/
  atEnd : Bool
  /-- How often pending units were moved to the front. -/
  shifts : Nat

namespace Storage

/-- A row without units filled in; it has room for at least one. -/
def ofCapacity (capacity : Nat) : Storage :=
  ⟨List.replicate (max capacity 1) 0, 0, 0, 0, false, 0⟩

/-- The length of the row. -/
def capacity (storage : Storage) : Nat := storage.units.length

/-- The units that are filled in and not consumed. -/
def pending (storage : Storage) : List CodeUnit :=
  (storage.units.take storage.filled).drop storage.consumed

/-- The units that are not filled in. -/
def tail (storage : Storage) : List CodeUnit :=
  storage.units.drop storage.filled

/-- Consume pending units. -/
def consume (storage : Storage) (count : Nat) : Storage :=
  { storage with consumed := storage.consumed + count }

/-- Copy the pending units over the front of the row. -/
def shift (storage : Storage) : Storage :=
  if storage.consumed = 0 then
    storage
  else
    let kept := storage.filled - storage.consumed
    { storage with
      units := storage.pending ++ storage.units.drop kept
      filled := kept
      consumed := 0
      base := storage.base + storage.consumed
      shifts := storage.shifts + 1 }

/-- Double the row if the units filled in are more than half of it. -/
def grow (storage : Storage) : Storage :=
  if storage.capacity < storage.filled * 2 then
    { storage with
      units := storage.units ++ List.replicate storage.capacity 0 }
  else
    storage

/-- Make room for more units. -/
def prepare (storage : Storage) : Storage :=
  if storage.filled = storage.capacity then storage.shift.grow else storage

/-- Put units over the front of the tail. -/
def write (storage : Storage) (piece : List CodeUnit) : Storage :=
  { storage with
    units := storage.units.take storage.filled ++
      (piece ++ storage.tail.drop piece.length) }

/-- Take units of the tail as filled in; none at all ends the stream. -/
def commit (storage : Storage) (count : Nat) : Storage :=
  if count = 0 then
    { storage with atEnd := true }
  else
    { storage with filled := storage.filled + count }

/-- The marks are in order. -/
structure Sound (storage : Storage) : Prop where
  consumed_le : storage.consumed ≤ storage.filled
  filled_le : storage.filled ≤ storage.capacity

/-- The window that the row shows. -/
def window (storage : Storage) : Window where
  capacity := storage.capacity
  consumed := storage.consumed
  pending := storage.pending
  base := storage.base
  atEnd := storage.atEnd
  shifts := storage.shifts

variable {storage : Storage} {count : Nat} {piece : List CodeUnit}

@[simp] theorem capacity_window (storage : Storage) :
    storage.window.capacity = storage.capacity := rfl

@[simp] theorem consumed_window (storage : Storage) :
    storage.window.consumed = storage.consumed := rfl

namespace Sound

theorem length_pending (sound : storage.Sound) :
    storage.pending.length = storage.filled - storage.consumed := by
  rw [pending, List.length_drop, List.length_take_of_le sound.filled_le]

theorem occupied_window (sound : storage.Sound) :
    storage.window.occupied = storage.filled := by
  show storage.consumed + storage.pending.length = storage.filled
  rw [sound.length_pending]
  exact Nat.add_sub_of_le sound.consumed_le

theorem room_window (sound : storage.Sound) :
    storage.window.room = storage.tail.length := by
  rw [Window.room, sound.occupied_window, tail, List.length_drop]
  rfl

end Sound

/-! ## The calls on the row and on the window -/

theorem sound_ofCapacity (capacity : Nat) : (ofCapacity capacity).Sound :=
  ⟨Nat.le_refl 0, Nat.zero_le _⟩

theorem window_ofCapacity (capacity : Nat) :
    (ofCapacity capacity).window = Window.ofCapacity capacity := by
  simp [window, ofCapacity, Storage.capacity, pending, Window.ofCapacity]

theorem Sound.consume
    (sound : storage.Sound)
    (available : count ≤ storage.pending.length) :
    (storage.consume count).Sound := by
  rw [sound.length_pending] at available
  have inside := sound.consumed_le
  refine ⟨?_, sound.filled_le⟩
  show storage.consumed + count ≤ storage.filled
  omega

theorem window_consume (storage : Storage) (count : Nat) :
    (storage.consume count).window = storage.window.consume count := by
  simp [window, consume, capacity, pending, Window.consume]

/-- Copying the pending units to the front keeps the length of the row. -/
theorem capacity_shift (sound : storage.Sound) :
    storage.shift.capacity = storage.capacity := by
  unfold shift
  split
  · rfl
  · show (storage.pending ++ storage.units.drop _).length = storage.units.length
    have inside : storage.filled ≤ storage.units.length := sound.filled_le
    rw [List.length_append, sound.length_pending, List.length_drop]
    omega

theorem Sound.shift (sound : storage.Sound) : storage.shift.Sound := by
  have sameLength := capacity_shift sound
  refine ⟨?_, ?_⟩
  · unfold Storage.shift
    split
    · exact sound.consumed_le
    · exact Nat.zero_le _
  · rw [sameLength]
    refine Nat.le_trans ?_ sound.filled_le
    unfold Storage.shift
    split
    · exact Nat.le_refl _
    · exact Nat.sub_le _ _

/-- The pending units at the front of the row are those that were copied. -/
theorem pending_shift (sound : storage.Sound) :
    storage.shift.pending = storage.pending := by
  unfold shift
  split
  · rfl
  · show ((storage.pending ++ storage.units.drop _).take _).drop 0 =
      storage.pending
    rw [List.drop_zero, List.take_left' sound.length_pending]

theorem window_shift (sound : storage.Sound) :
    storage.shift.window = storage.window.shift := by
  unfold Window.shift
  rw [consumed_window]
  split
  · next nothing => rw [shift, if_pos nothing]
  · next something =>
      have moved : storage.shift.window = ⟨storage.shift.capacity, 0,
          storage.shift.pending, storage.base + storage.consumed,
          storage.atEnd, storage.shifts + 1⟩ := by
        unfold shift
        rw [if_neg something]
        rfl
      rw [moved, capacity_shift sound, pending_shift sound]
      rfl

theorem Sound.grow (sound : storage.Sound) : storage.grow.Sound := by
  unfold Storage.grow
  split
  · refine ⟨sound.consumed_le, ?_⟩
    show storage.filled ≤ (storage.units ++ List.replicate _ 0).length
    rw [List.length_append]
    exact Nat.le_add_right_of_le sound.filled_le
  · exact sound

theorem window_grow (sound : storage.Sound) :
    storage.grow.window = storage.window.grow := by
  unfold grow Window.grow
  rw [sound.occupied_window, capacity_window]
  split
  · have inside : storage.filled ≤ storage.units.length := sound.filled_le
    simp only [window, capacity, pending, List.length_append,
      List.length_replicate, List.take_append_of_le_length inside, Nat.mul_two]
  · rfl

theorem Sound.prepare (sound : storage.Sound) : storage.prepare.Sound := by
  unfold Storage.prepare
  split
  · exact sound.shift.grow
  · exact sound

theorem window_prepare (sound : storage.Sound) :
    storage.prepare.window = storage.window.prepare := by
  unfold prepare Window.prepare
  rw [sound.occupied_window, capacity_window]
  split
  · rw [window_grow sound.shift, window_shift sound]
  · rfl

theorem take_filled_write (sound : storage.Sound) (piece : List CodeUnit) :
    (storage.write piece).units.take storage.filled =
      storage.units.take storage.filled :=
  List.take_left' (List.length_take_of_le sound.filled_le)

/-- What is put over the tail stands at its front. -/
theorem tail_write (sound : storage.Sound) (piece : List CodeUnit) :
    (storage.write piece).tail = piece ++ storage.tail.drop piece.length :=
  List.drop_left' (List.length_take_of_le sound.filled_le)

theorem capacity_write
    (sound : storage.Sound)
    (fits : piece.length ≤ storage.tail.length) :
    (storage.write piece).capacity = storage.capacity := by
  have inside : storage.filled ≤ storage.units.length := sound.filled_le
  show (storage.units.take _ ++ (piece ++ storage.tail.drop _)).length =
    storage.units.length
  rw [tail, List.length_drop] at fits
  rw [List.length_append, List.length_append, List.length_take_of_le inside,
    List.length_drop, tail, List.length_drop]
  omega

theorem Sound.write
    (sound : storage.Sound)
    (fits : piece.length ≤ storage.tail.length) :
    (storage.write piece).Sound := by
  refine ⟨sound.consumed_le, ?_⟩
  rw [capacity_write sound fits]
  exact sound.filled_le

theorem window_write
    (sound : storage.Sound)
    (fits : piece.length ≤ storage.tail.length) :
    (storage.write piece).window = storage.window := by
  unfold window
  rw [capacity_write sound fits, pending, pending]
  show Window.mk _ _ (((storage.write piece).units.take storage.filled).drop _)
    _ _ _ = _
  rw [take_filled_write sound]
  rfl

theorem Sound.commit
    (sound : storage.Sound)
    (fits : count ≤ storage.tail.length) :
    (storage.commit count).Sound := by
  have inside : storage.filled ≤ storage.units.length := sound.filled_le
  rw [tail, List.length_drop] at fits
  unfold Storage.commit
  split
  · exact ⟨sound.consumed_le, sound.filled_le⟩
  · refine ⟨Nat.le_add_right_of_le sound.consumed_le, ?_⟩
    show storage.filled + count ≤ storage.units.length
    omega

theorem window_commit
    (sound : storage.Sound)
    (fits : count ≤ storage.tail.length) :
    (storage.commit count).window =
      storage.window.accept (storage.tail.take count) := by
  have length : (storage.tail.take count).length = count :=
    List.length_take_of_le fits
  unfold commit Window.accept
  split
  · next none =>
      subst none
      rfl
  · next some =>
      have notEmpty : ¬ (storage.tail.take count).isEmpty = true := by
        rw [List.isEmpty_iff_length_eq_zero, length]
        exact some
      have taken : storage.units.take (storage.filled + count) =
          storage.units.take storage.filled ++ storage.tail.take count :=
        List.take_add
      have reaches : storage.consumed ≤
          (storage.units.take storage.filled).length := by
        rw [List.length_take_of_le sound.filled_le]
        exact sound.consumed_le
      rw [if_neg notEmpty]
      show Window.mk _ _ ((storage.units.take _).drop _) _ _ _ =
        Window.mk _ _ (storage.pending ++ _) _ _ _
      rw [taken, List.drop_append_of_le_length reaches]
      rfl

end Storage

/-! ## What a call does to a window -/

namespace Window

theorem pending_accept (window : Window) (units : List CodeUnit) :
    (window.accept units).pending = window.pending ++ units := by
  unfold accept
  split
  · next nothing => rw [List.isEmpty_iff.mp nothing, List.append_nil]
  · rfl

theorem capacity_accept (window : Window) (units : List CodeUnit) :
    (window.accept units).capacity = window.capacity := by
  unfold accept
  split <;> rfl

theorem occupied_shift (window : Window) :
    window.shift.occupied = window.pending.length := by
  rw [occupied, consumed_shift, pending_shift, Nat.zero_add]

/-- Making room doubles a full window if the pending units alone fill more than
half of it, and else leaves it as long as it is. -/
theorem capacity_prepare (window : Window) :
    window.prepare.capacity =
      if window.occupied = window.capacity ∧
          window.capacity < 2 * window.pending.length then
        2 * window.capacity
      else
        window.capacity := by
  unfold prepare
  split
  · next full =>
      unfold grow
      rw [occupied_shift, capacity_shift, Nat.mul_comm]
      split
      · next tight => rw [if_pos ⟨full, tight⟩, Nat.mul_comm]
      · next loose =>
          rw [if_neg fun both => loose both.2, capacity_shift]
  · next notFull => rw [if_neg fun both => notFull both.1]

end Window

/-- A call on a window. -/
inductive Call
  /-- Consume some pending units. -/
  | consume (count : Nat)
  /-- Make room. -/
  | prepare
  /-- Put units over the front of the tail. -/
  | write (piece : List CodeUnit)
  /-- Take some units of the tail as filled in. -/
  | commit (count : Nat)
  deriving DecidableEq

namespace Call

/-- No more is consumed than is pending, and no more is put or taken than there
is room for. -/
def Allowed (window : Window) : Call → Prop
  | consume count => count ≤ window.pending.length
  | prepare => True
  | write piece => piece.length ≤ window.room
  | commit count => count ≤ window.room

instance (window : Window) (call : Call) : Decidable (call.Allowed window) :=
  match call with
  | consume count =>
      inferInstanceAs (Decidable (count ≤ window.pending.length))
  | prepare => .isTrue trivial
  | write piece => inferInstanceAs (Decidable (piece.length ≤ window.room))
  | commit count => inferInstanceAs (Decidable (count ≤ window.room))

/-- The number of units that the call consumes. -/
def consumes : Call → Nat
  | consume count => count
  | prepare => 0
  | write _ => 0
  | commit _ => 0

/-- The units that arrive with the call. -/
def arriving (storage : Storage) : Call → List CodeUnit
  | consume _ => []
  | prepare => []
  | write _ => []
  | commit count => storage.tail.take count

/-- The call on a row. -/
def onStorage (storage : Storage) : Call → Storage
  | consume count => storage.consume count
  | prepare => storage.prepare
  | write piece => storage.write piece
  | commit count => storage.commit count

/-- The call on a window, with the units that arrive. -/
def onWindow (window : Window) (arriving : List CodeUnit) : Call → Window
  | consume count => window.consume count
  | prepare => window.prepare
  | write _ => window
  | commit _ => window.accept arriving

variable {window : Window} {storage : Storage} {arriving : List CodeUnit}

/-- Only making room changes the length of a window. -/
theorem capacity_onWindow (call : Call) :
    (call.onWindow window arriving).capacity =
      if call = .prepare ∧ window.occupied = window.capacity ∧
          window.capacity < 2 * window.pending.length then
        2 * window.capacity
      else
        window.capacity := by
  cases call with
  | consume count => simp [onWindow, Window.consume]
  | prepare => simpa [onWindow] using window.capacity_prepare
  | write piece => simp [onWindow]
  | commit count => simp [onWindow, Window.capacity_accept]

/-- A call does to the row what it does to the window. -/
theorem window_onStorage
    (sound : storage.Sound)
    (call : Call)
    (allowed : call.Allowed storage.window) :
    (call.onStorage storage).Sound ∧ (call.onStorage storage).window =
      call.onWindow storage.window (call.arriving storage) := by
  cases call with
  | consume count =>
      exact ⟨sound.consume allowed, storage.window_consume count⟩
  | prepare => exact ⟨sound.prepare, Storage.window_prepare sound⟩
  | write piece =>
      rw [Allowed, sound.room_window] at allowed
      exact ⟨sound.write allowed, Storage.window_write sound allowed⟩
  | commit count =>
      rw [Allowed, sound.room_window] at allowed
      exact ⟨sound.commit allowed, Storage.window_commit sound allowed⟩

end Call

/-! ## What arrived and is not consumed -/

namespace Window

variable {window : Window} {arrived : List CodeUnit} {total : Nat}

/-- A window holds the units that arrived from the first one on that is not
consumed. -/
structure Holds (window : Window) (arrived : List CodeUnit) (total : Nat) :
    Prop where
  sound : window.Sound
  position : window.position = total
  within : total ≤ arrived.length
  pending : window.pending = arrived.drop total

theorem holds_ofCapacity (capacity : Nat) :
    (ofCapacity capacity).Holds [] 0 where
  sound := sound_ofCapacity capacity
  position := rfl
  within := Nat.le_refl 0
  pending := rfl

namespace Holds

theorem consume
    (holds : window.Holds arrived total)
    {count : Nat}
    (available : count ≤ window.pending.length) :
    (window.consume count).Holds arrived (total + count) where
  sound := holds.sound.consume available
  position := by rw [position_consume, holds.position]
  within := by
    have inside := holds.within
    rw [holds.pending, List.length_drop] at available
    omega
  pending := by
    rw [Window.consume, holds.pending, List.drop_drop]

theorem prepare (holds : window.Holds arrived total) :
    window.prepare.Holds arrived total where
  sound := holds.sound.prepare
  position := by rw [position_prepare, holds.position]
  within := holds.within
  pending := by rw [pending_prepare, holds.pending]

theorem accept
    (holds : window.Holds arrived total)
    {units : List CodeUnit}
    (fits : units.length ≤ window.room) :
    (window.accept units).Holds (arrived ++ units) total where
  sound := holds.sound.accept fits
  position := by rw [position_accept, holds.position]
  within := by
    rw [List.length_append]
    exact Nat.le_add_right_of_le holds.within
  pending := by
    rw [pending_accept, holds.pending,
      List.drop_append_of_le_length holds.within]

/-- What a call consumes and what arrives with it is all that changes. -/
theorem onWindow
    {storage : Storage}
    (holds : window.Holds arrived total)
    (call : Call)
    (allowed : call.Allowed window) :
    (call.onWindow window (call.arriving storage)).Holds
      (arrived ++ call.arriving storage) (total + call.consumes) := by
  cases call with
  | consume count =>
      rw [Call.arriving, List.append_nil]
      exact holds.consume allowed
  | prepare =>
      rw [Call.arriving, List.append_nil]
      exact holds.prepare
  | write piece =>
      rw [Call.arriving, List.append_nil]
      exact holds
  | commit count =>
      refine holds.accept (Nat.le_trans ?_ allowed)
      exact List.length_take_le count storage.tail

end Holds
end Window

/-! ## Sequences of calls -/

/-- A row and a window on which the same calls are made. -/
structure Session where
  /-- The row. -/
  storage : Storage
  /-- The window. -/
  window : Window
  /-- The units that arrived. -/
  arrived : List CodeUnit
  /-- The number of units consumed. -/
  total : Nat

namespace Session

/-- Before the first call. -/
def start (capacity : Nat) : Session :=
  ⟨.ofCapacity capacity, .ofCapacity capacity, [], 0⟩

/-- Make a call. -/
def call (session : Session) (call : Call) : Session where
  storage := call.onStorage session.storage
  window := call.onWindow session.window (call.arriving session.storage)
  arrived := session.arrived ++ call.arriving session.storage
  total := session.total + call.consumes

/-- Make calls one after the other. -/
def run (session : Session) (calls : List Call) : Session :=
  calls.foldl call session

/-- Every call is allowed when it is made. -/
def Allows (session : Session) : List Call → Prop
  | [] => True
  | call :: rest => call.Allowed session.window ∧ (session.call call).Allows rest

instance decidableAllows (session : Session) (calls : List Call) :
    Decidable (session.Allows calls) :=
  match calls with
  | [] => .isTrue trivial
  | call :: rest =>
      have := decidableAllows (session.call call) rest
      inferInstanceAs (Decidable (call.Allowed session.window ∧ _))

/-- The row shows the window, which holds what it should and is of its first
length, doubled some number of times. -/
structure Keeps (session : Session) (capacity : Nat) : Prop where
  sound : session.storage.Sound
  shows : session.storage.window = session.window
  holds : session.window.Holds session.arrived session.total
  doubled : ∃ doublings,
    session.window.capacity = max capacity 1 * 2 ^ doublings

variable {session : Session} {capacity : Nat}

theorem keeps_start (capacity : Nat) : (start capacity).Keeps capacity where
  sound := Storage.sound_ofCapacity capacity
  shows := Storage.window_ofCapacity capacity
  holds := Window.holds_ofCapacity capacity
  doubled := ⟨0, (Nat.mul_one _).symm⟩

theorem Keeps.call
    (keeps : session.Keeps capacity)
    (call : Call)
    (allowed : call.Allowed session.window) :
    (session.call call).Keeps capacity := by
  have shows := keeps.shows
  have onStorage := call.window_onStorage keeps.sound (shows ▸ allowed)
  refine ⟨onStorage.1, ?_, keeps.holds.onWindow call allowed, ?_⟩
  · rw [Session.call, onStorage.2, shows]
  · obtain ⟨doublings, isCapacity⟩ := keeps.doubled
    rw [Session.call, call.capacity_onWindow, isCapacity]
    split
    · exact ⟨doublings + 1, by rw [pow_succ]; ac_rfl⟩
    · exact ⟨doublings, rfl⟩

theorem Keeps.run
    (keeps : session.Keeps capacity)
    {calls : List Call}
    (allowed : session.Allows calls) :
    (session.run calls).Keeps capacity := by
  induction calls generalizing session with
  | nil => exact keeps
  | cons call rest inductionHypothesis =>
      exact inductionHypothesis (keeps.call call allowed.1) allowed.2

/-- Whatever calls are made, the row shows the window and its marks are in
order; after making room its tail is not empty, and what is put there arrives.
The window stands at the number of units consumed and holds the units that
arrived from there on. Rows only grow, by making room, and to twice their
length, and exactly when the pending units fill more than half of a full
row. -/
theorem window_of_calls
    (capacity : Nat)
    (calls : List Call)
    (allowed : (start capacity).Allows calls) :
    let session := (start capacity).run calls
    let storage := session.storage
    storage.window = session.window ∧
      (storage.consumed ≤ storage.filled ∧ storage.filled ≤ storage.capacity) ∧
      (storage.prepare.tail ≠ [] ∧
        ∀ (piece : List CodeUnit) (count : Nat), count ≤ piece.length →
          (Call.commit count).arriving (storage.write piece) =
            piece.take count) ∧
      (session.window.position = session.total ∧
        session.total ≤ session.arrived.length ∧
        session.window.pending = session.arrived.drop session.total) ∧
      (∃ doublings, storage.capacity = max capacity 1 * 2 ^ doublings) ∧
      ∀ call : Call, call.Allowed session.window →
        (call.onStorage storage).capacity =
          if call = .prepare ∧ storage.filled = storage.capacity ∧
              storage.capacity < 2 * storage.pending.length then
            2 * storage.capacity
          else
            storage.capacity := by
  intro session storage
  have keeps : session.Keeps capacity := (keeps_start capacity).run allowed
  have sound := keeps.sound
  have holds := keeps.holds
  have shows : storage.window = session.window := keeps.shows
  refine ⟨shows, ⟨sound.consumed_le, sound.filled_le⟩,
    ⟨List.ne_nil_of_length_pos ?_, ?_⟩,
    ⟨holds.position, holds.within, holds.pending⟩, ?_, ?_⟩
  · rw [← sound.prepare.room_window, Storage.window_prepare sound, shows]
    exact holds.sound.room_prepare
  · intro piece count inside
    rw [Call.arriving, Storage.tail_write sound,
      List.take_append_of_le_length inside]
  · rw [← storage.capacity_window, shows]
    exact keeps.doubled
  · intro call callAllowed
    rw [← Storage.capacity_window,
      (call.window_onStorage sound (shows ▸ callAllowed)).2,
      call.capacity_onWindow, sound.occupied_window]
    rfl

/-- A window of one unit is doubled when it is full; the next time it is full,
one unit is consumed, and the other one is moved to the front. -/
def movingCalls : List Call :=
  [.prepare, .write [97], .commit 1, .prepare, .write [98], .commit 1,
    .consume 1, .prepare, .write [99], .commit 1]

theorem window_of_calls_moving :
    (start 0).Allows movingCalls ∧
      ((start 0).run movingCalls).window.pending = [98, 99] ∧
      ((start 0).run movingCalls).window.position = 1 ∧
      (Call.prepare.onStorage ((start 0).run movingCalls).storage).capacity =
        4 := by
  have allowed : (start 0).Allows movingCalls := by decide
  obtain ⟨-, -, -, ⟨position, -, pending⟩, -, grows⟩ :=
    window_of_calls 0 movingCalls allowed
  refine ⟨allowed, pending.trans (by decide), position.trans (by decide), ?_⟩
  exact (grows .prepare trivial).trans (by decide)

end Session
end Stream
end ParserGenerator
