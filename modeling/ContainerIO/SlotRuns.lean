import ContainerIO.InputSlots

/-!
# Input slots under every schedule

Tasks call `acquire`, `release` and `set_value` on one `InputSlots` in any
order. `close` sets the flag; its loop is a sequence of `acquire` calls made by
the closing task. Besides the semaphore the state records who holds a slot
(the granted, unreleased acquisitions, with repetition) and which task is
suspended on the waiter future.
-/

namespace ContainerIO

/-- One call on the semaphore. -/
inductive SlotEvent (Task : Type) where
  | acquire (task : Task)
  | release (task : Task)
  | setValue (value : Int)
  | close
  deriving DecidableEq, Repr

structure SlotSystem (Task : Type) where
  slots : InputSlots
  holders : List Task
  parked : Option Task
  deriving DecidableEq, Repr

namespace SlotSystem

variable {Task : Type} [DecidableEq Task]

def init (value : Int) : SlotSystem Task := ⟨InputSlots.init value, [], none⟩

/-- The slot handed to the parked task when `_wake_waiter` grants one. -/
def grant (woken : Bool) (parked : Option Task) (holders : List Task) : List Task :=
  match woken, parked with
  | true, some task => task :: holders
  | _, _ => holders

/-- The state after a method that ends in `_wake_waiter`. -/
def wake (s : SlotSystem Task) (result : Bool × InputSlots) (holders : List Task) :
    SlotSystem Task :=
  ⟨result.2, grant result.1 s.parked holders, if result.1 then none else s.parked⟩

def step (s : SlotSystem Task) : SlotEvent Task → SlotSystem Task
  | .acquire task =>
      match s.slots.acquire with
      | (.granted, slots) => ⟨slots, task :: s.holders, s.parked⟩
      | (.parked, slots) => ⟨slots, s.holders, some task⟩
      | (.raised _, _) => s
  | .release task => s.wake s.slots.release (s.holders.erase task)
  | .setValue value => s.wake (s.slots.setValue value) s.holders
  | .close => { s with slots := s.slots.closeStart.2 }

/-- The task whose acquisition the step grants, if any. -/
def granted (s : SlotSystem Task) : SlotEvent Task → Option Task
  | .acquire task => if s.slots.acquire.1 = .granted then some task else none
  | .release _ => if s.slots.release.1 then s.parked else none
  | .setValue value => if (s.slots.setValue value).1 then s.parked else none
  | .close => none

/-- Calls the program can make: a parked task is suspended, and only a holder
releases. -/
def Admissible (s : SlotSystem Task) : SlotEvent Task → Prop
  | .acquire task => s.parked ≠ some task
  | .release task => task ∈ s.holders
  | _ => True

instance (s : SlotSystem Task) (e : SlotEvent Task) : Decidable (s.Admissible e) :=
  match e with
  | .acquire task => inferInstanceAs (Decidable (s.parked ≠ some task))
  | .release task => inferInstanceAs (Decidable (task ∈ s.holders))
  | .setValue _ => instDecidableTrue
  | .close => instDecidableTrue

inductive Reachable (value : Int) : SlotSystem Task → Prop
  | init : Reachable value (init value)
  | step {s e} : Reachable value s → s.Admissible e → Reachable value (s.step e)

structure Invariant (s : SlotSystem Task) : Prop where
  active_eq : s.slots.active = s.holders.length
  waiter_eq : s.slots.waiter = s.parked.isSome
  parkedFull : s.slots.ParkedFull

omit [DecidableEq Task] in
theorem init_invariant (value : Int) : (init value : SlotSystem Task).Invariant :=
  ⟨rfl, rfl, by simp [init, InputSlots.init, InputSlots.ParkedFull]⟩

omit [DecidableEq Task] in
/-- Every method ending in `_wake_waiter` keeps the invariant, given the
counts agree on the state it wakes from. -/
theorem wake_invariant {s : SlotSystem Task} {q : InputSlots} {holders : List Task}
    (waiter : q.waiter = s.parked.isSome) (count : q.active = holders.length) :
    (s.wake q.wakeWaiter holders).Invariant := by
  refine ⟨?_, ?_, InputSlots.wakeWaiter_parkedFull q⟩
  all_goals rcases InputSlots.wakeWaiter_cases q with ⟨-, woken, h⟩ | ⟨-, h⟩
  all_goals simp only [wake, h, grant, if_true, if_false]
  · obtain ⟨task, parked⟩ := Option.isSome_iff_exists.mp (waiter ▸ woken)
    simp [parked, count]
  · cases s.parked <;> simp [count]
  · rfl
  · exact waiter

theorem step_invariant {s : SlotSystem Task} {e : SlotEvent Task}
    (inv : s.Invariant) (admissible : s.Admissible e) : (s.step e).Invariant := by
  cases e with
  | acquire task =>
      rcases InputSlots.acquire_cases s.slots with ⟨below, h⟩ | ⟨full, idle, h⟩ | ⟨-, -, h⟩
      · have idle : s.slots.waiter = false := by
          by_contra busy
          exact absurd (inv.parkedFull (by simpa using busy)) (by omega)
        refine ⟨?_, ?_, ?_⟩ <;>
          simp [step, h, inv.active_eq, inv.waiter_eq.symm, idle, InputSlots.ParkedFull]
      · have none : s.parked = none := by simpa [idle] using inv.waiter_eq.symm
        refine ⟨?_, ?_, ?_⟩ <;> simp [step, h, inv.active_eq, none, InputSlots.ParkedFull]
        simpa [inv.active_eq] using full
      · simp only [step, h]
        exact inv
  | release task =>
      have count : (s.holders.erase task).length = s.holders.length - 1 :=
        List.length_erase_of_mem admissible
      have pos : 0 < s.holders.length := List.length_pos_of_mem admissible
      exact wake_invariant inv.waiter_eq (by simp [inv.active_eq, count]; omega)
  | setValue value =>
      show (s.wake (s.slots.setValue value) s.holders).Invariant
      unfold InputSlots.setValue
      split
      · simpa [wake, grant] using inv
      · exact wake_invariant inv.waiter_eq inv.active_eq
  | close => exact ⟨inv.active_eq, inv.waiter_eq, inv.parkedFull⟩

theorem Reachable.invariant {value : Int} {s : SlotSystem Task} (reach : Reachable value s) :
    s.Invariant := by
  induction reach with
  | init => exact init_invariant value
  | step _ admissible inductionHypothesis => exact step_invariant inductionHypothesis admissible

/-- No step raises `active` above `value`: it either does not raise it or
leaves it within `value`. -/
theorem step_active_le (s : SlotSystem Task) (e : SlotEvent Task) :
    (s.step e).slots.active ≤ s.slots.active ∨
      (s.step e).slots.active ≤ (s.step e).slots.value := by
  cases e with
  | acquire task =>
      rcases InputSlots.acquire_cases s.slots with ⟨below, h⟩ | ⟨-, -, h⟩ | ⟨-, -, h⟩ <;>
        simp only [step, h] <;> omega
  | release task =>
      have := InputSlots.wakeWaiter_active_le { s.slots with active := s.slots.active - 1 }
      simp only [step, wake, InputSlots.release] at this ⊢
      omega
  | setValue value =>
      simp only [step, wake, InputSlots.setValue]
      split
      · exact .inl (Int.le_refl _)
      · exact InputSlots.wakeWaiter_active_le _
  | close => exact .inl (Int.le_refl _)

/-- A slot is granted only where `active` is below `value` at that moment:
after the step's own release or resize, before the grant's increment. -/
theorem granted_active_le {s : SlotSystem Task} {e : SlotEvent Task} (h : s.granted e ≠ none) :
    (s.step e).slots.active ≤ (s.step e).slots.value := by
  cases e with
  | acquire task =>
      rcases InputSlots.acquire_cases s.slots with ⟨below, e⟩ | ⟨-, -, e⟩ | ⟨-, -, e⟩ <;>
        simp [granted, step, e] at h ⊢
      omega
  | release task =>
      simp only [granted, ite_ne_right_iff] at h
      exact InputSlots.wakeWaiter_woken_le h.1
  | setValue value =>
      simp only [granted, ite_ne_right_iff, InputSlots.setValue] at h
      simp only [step, wake, InputSlots.setValue]
      split at h
      · simp at h
      · simp only [if_neg ‹_›]
        exact InputSlots.wakeWaiter_woken_le h.1
  | close => simp [granted] at h

theorem setValue_active_le (s : SlotSystem Task) (value : Int) :
    (s.step (.setValue value)).slots.active ≤ max s.slots.active value := by
  have := step_active_le s (.setValue value)
  simp only [step, wake, InputSlots.setValue] at this ⊢
  split_ifs at this ⊢ <;> simp only [InputSlots.wakeWaiter_value] at this ⊢ <;> omega

/-- What every reachable state satisfies, and what every step from it keeps:
the waiter flag is set exactly while a task is parked, and then every slot is
taken. -/
structure Safe (s : SlotSystem Task) : Prop where
  active_eq : s.slots.active = s.holders.length
  active_nonneg : 0 ≤ s.slots.active
  waiter_eq : s.slots.waiter = s.parked.isSome
  parkedFull : s.slots.ParkedFull
  step_active_le : ∀ e, (s.step e).slots.active ≤ s.slots.active ∨
    (s.step e).slots.active ≤ (s.step e).slots.value
  granted_active_le : ∀ e, s.granted e ≠ none → (s.step e).slots.active ≤ (s.step e).slots.value
  setValue_active_le : ∀ n, (s.step (.setValue n)).slots.active ≤ max s.slots.active n

theorem reachable_safe {value : Int} {s : SlotSystem Task} (reach : Reachable value s) :
    s.Safe := by
  have inv := reach.invariant
  exact ⟨inv.active_eq, by rw [inv.active_eq]; omega, inv.waiter_eq, inv.parkedFull, step_active_le s,
    fun _ => granted_active_le, setValue_active_le s⟩

/-- Two holders of `InputSlots(2)`, then a downsize to one slot. -/
theorem downsized_safe :
    Reachable 2 (((init 2 : SlotSystem Nat).step (.acquire 0)).step (.acquire 1)
      |>.step (.setValue 1)) ∧
    (((init 2 : SlotSystem Nat).step (.acquire 0)).step (.acquire 1)
      |>.step (.setValue 1)).Safe :=
  have reach : Reachable 2 (((init 2 : SlotSystem Nat).step (.acquire 0)).step (.acquire 1)
      |>.step (.setValue 1)) :=
    .step (.step (.step .init (by decide)) (by decide)) (by decide)
  ⟨reach, reachable_safe reach⟩

end SlotSystem

end ContainerIO
