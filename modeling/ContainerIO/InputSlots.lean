import Mathlib.Data.List.Basic

/-!
# Input slots

`InputSlots` of `_runtime/container_io_manager.py`: a counting semaphore whose
limit `value` can be changed at any time and which admits one parked waiter.
Each method is written as the state change it makes before its first
suspension point; the boolean returned by `wakeWaiter`, `release` and
`setValue` says whether the parked waiter was granted a slot.
-/

namespace ContainerIO

/-- The fields of `InputSlots`. `waiter` is `true` while a future is parked. -/
structure InputSlots where
  active : Int
  value : Int
  waiter : Bool
  closed : Bool
  deriving DecidableEq, Repr

/-- What a call of `acquire` does before it returns or suspends. -/
inductive Acquire where
  | granted
  | parked
  | raised (message : String)
  deriving DecidableEq, Repr

namespace InputSlots

/-- `InputSlots.__init__`. -/
def init (value : Int) : InputSlots := ⟨0, value, false, false⟩

/-- The text of the `RuntimeError` raised by a second concurrent waiter. -/
def concurrentWaitersMessage : String := "Concurrent waiters are not supported."

def acquire (s : InputSlots) : Acquire × InputSlots :=
  if s.active < s.value then (.granted, { s with active := s.active + 1 })
  else if s.waiter = false then (.parked, { s with waiter := true })
  else (.raised concurrentWaitersMessage, s)

/-- `_wake_waiter`. A waiter whose future was cancelled during interpreter
shutdown is treated like any other: the state change is the same. -/
def wakeWaiter (s : InputSlots) : Bool × InputSlots :=
  if s.active < s.value ∧ s.waiter = true then
    (true, { s with waiter := false, active := s.active + 1 })
  else (false, s)

def release (s : InputSlots) : Bool × InputSlots :=
  wakeWaiter { s with active := s.active - 1 }

def setValue (s : InputSlots) (value : Int) : Bool × InputSlots :=
  if s.closed then (false, s) else wakeWaiter { s with value := value }

/-- The synchronous start of `close`: the flag, and how many times the loop
`for _ in range(self.value)` will call `acquire`. -/
def closeStart (s : InputSlots) : Nat × InputSlots :=
  (s.value.toNat, { s with closed := true })

/-- No parked waiter while a slot is free: the state `_wake_waiter` restores. -/
def ParkedFull (s : InputSlots) : Prop := s.waiter = true → s.value ≤ s.active

instance (s : InputSlots) : Decidable s.ParkedFull :=
  inferInstanceAs (Decidable (s.waiter = true → s.value ≤ s.active))

variable {s : InputSlots}

theorem acquire_cases (s : InputSlots) :
    (s.active < s.value ∧ s.acquire = (.granted, { s with active := s.active + 1 })) ∨
    (s.value ≤ s.active ∧ s.waiter = false ∧ s.acquire = (.parked, { s with waiter := true })) ∨
    (s.value ≤ s.active ∧ s.waiter = true ∧
      s.acquire = (.raised concurrentWaitersMessage, s)) := by
  unfold acquire
  by_cases below : s.active < s.value
  · simp [below]
  · cases waiter : s.waiter <;> simp [below, waiter] <;> omega

theorem wakeWaiter_cases (s : InputSlots) :
    (s.active < s.value ∧ s.waiter = true ∧
      s.wakeWaiter = (true, { s with waiter := false, active := s.active + 1 })) ∨
    ((s.value ≤ s.active ∨ s.waiter = false) ∧ s.wakeWaiter = (false, s)) := by
  unfold wakeWaiter
  by_cases below : s.active < s.value
  · cases waiter : s.waiter <;> simp [below, waiter]
  · simp [below]; omega

@[simp] theorem wakeWaiter_value (s : InputSlots) : s.wakeWaiter.2.value = s.value := by
  rcases wakeWaiter_cases s with ⟨-, -, h⟩ | ⟨-, h⟩ <;> simp [h]

@[simp] theorem wakeWaiter_closed (s : InputSlots) : s.wakeWaiter.2.closed = s.closed := by
  rcases wakeWaiter_cases s with ⟨-, -, h⟩ | ⟨-, h⟩ <;> simp [h]

@[simp] theorem acquire_closed (s : InputSlots) : s.acquire.2.closed = s.closed := by
  rcases acquire_cases s with ⟨-, h⟩ | ⟨-, -, h⟩ | ⟨-, -, h⟩ <;> simp [h]

@[simp] theorem release_closed (s : InputSlots) : s.release.2.closed = s.closed := by
  simp [release]

@[simp] theorem setValue_closed (s : InputSlots) (value : Int) :
    (s.setValue value).2.closed = s.closed := by
  unfold setValue
  split <;> simp

theorem wakeWaiter_active (s : InputSlots) :
    s.wakeWaiter.2.active = if s.wakeWaiter.1 then s.active + 1 else s.active := by
  rcases wakeWaiter_cases s with ⟨-, -, h⟩ | ⟨-, h⟩ <;> simp [h]

theorem wakeWaiter_waiter (s : InputSlots) :
    s.wakeWaiter.2.waiter = (s.waiter && !s.wakeWaiter.1) := by
  rcases wakeWaiter_cases s with ⟨-, w, h⟩ | ⟨-, h⟩ <;> simp [h, *]

theorem wakeWaiter_woken (h : s.wakeWaiter.1 = true) : s.active < s.value ∧ s.waiter = true := by
  rcases wakeWaiter_cases s with ⟨below, w, -⟩ | ⟨-, e⟩
  · exact ⟨below, w⟩
  · simp [e] at h

/-- After `_wake_waiter` a parked waiter implies that no slot is free,
whatever the state before. -/
theorem wakeWaiter_parkedFull (s : InputSlots) : s.wakeWaiter.2.ParkedFull := by
  rcases wakeWaiter_cases s with ⟨-, -, h⟩ | ⟨full, h⟩ <;> simp only [ParkedFull, h]
  · simp
  · rcases full with full | idle
    · exact fun _ => full
    · simp [idle]

/-- `_wake_waiter` raises `active` only to a level `value` allows. -/
theorem wakeWaiter_active_le (s : InputSlots) :
    s.wakeWaiter.2.active ≤ s.active ∨ s.wakeWaiter.2.active ≤ s.wakeWaiter.2.value := by
  rcases wakeWaiter_cases s with ⟨below, -, h⟩ | ⟨-, h⟩ <;> simp only [h] <;> omega

theorem wakeWaiter_woken_le (h : s.wakeWaiter.1 = true) :
    s.wakeWaiter.2.active ≤ s.wakeWaiter.2.value := by
  rcases wakeWaiter_cases s with ⟨below, -, e⟩ | ⟨-, e⟩ <;> simp only [e] at h ⊢
  · omega
  · simp at h

end InputSlots

end ContainerIO
