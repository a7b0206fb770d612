import ContainerIO.Basic

/-!
# Exit codes of container processes

`_ContainerProcess` keeps the exit code of an exec'd process in `_returncode`
once `poll` or `wait` has learnt it, and its `returncode` property raises
`InvalidError` before. `poll` sends one `ContainerExecWait` request with
`timeout=0`; `wait` repeats requests with `timeout=10` inside
`asyncio.wait_for`, whose timeout at the exec deadline makes the code `-1`.
Calls of the two coroutines may overlap at their awaits, so the state holds,
beside the object's two fields, every call in flight and the clock of
`time.monotonic()`.

Times are ticks of that clock. The code only compares them (`deadline - now <= 0`
is `deadline <= now`), so any numbering that keeps their order and keeps `0.0`
at `0` describes the same runs.
-/

namespace ContainerIO

structure ContainerExecWaitResponse where
  completed : Bool
  exitCode : Int
  deriving DecidableEq, Repr

/-- Where a call of `poll` or `wait` awaits a `ContainerExecWait` reply. -/
inductive ProcessCall where
  | polling
  /-- Inside `asyncio.wait_for(self._wait_for_completion(), timeout)`: the
  timeout fires at `timer`, and never when `timeout` is `None`. -/
  | waiting (timer : Option Nat)
  deriving DecidableEq, Repr

/-- A `_ContainerProcess` with the calls of its coroutines in flight, each under
its number, and the clock. -/
structure ContainerProcess where
  execDeadline : Option Nat
  returncode : Option Int
  calls : List (Nat × ProcessCall)
  nextCall : Nat
  now : Nat

inductive ProcessEvent where
  /-- A task calls `poll()`. -/
  | poll
  /-- A task calls `wait()`. -/
  | wait
  /-- The reply to the pending request of the call numbered `call` arrives. -/
  | reply (call : Nat) (response : ContainerExecWaitResponse)
  /-- `retry_transient_errors` gives up on that request and raises. -/
  | fail (call : Nat)
  /-- The timeout of `asyncio.wait_for` fires for the call. -/
  | timeout (call : Nat)
  | elapse (duration : Nat)
  /-- A task reads the `returncode` property. -/
  | readReturncode
  deriving DecidableEq, Repr

inductive ProcessOutcome where
  /-- A `ContainerExecWaitRequest` is sent for the call, with this `timeout` field. -/
  | requested (call : Nat) (timeout : Nat)
  | replied (call : Nat) (response : ContainerExecWaitResponse)
  /-- `poll` returns the exit code, or `None` while the process runs. -/
  | polled (call : Nat) (code : Option Int)
  | waited (call : Nat) (code : Int)
  /-- The call raises the error of its request. -/
  | raised (call : Nat)
  /-- A read of `returncode`: the code, none where it raises `InvalidError`. -/
  | read (code : Option Int)
  deriving DecidableEq, Repr

def ProcessOutcome.code : ProcessOutcome → Option Int
  | .polled _ code | .read code => code
  | .waited _ code => some code
  | .requested .. | .replied .. | .raised _ => none

namespace ProcessOutcome

variable (call : Nat)

@[simp] theorem code_requested (timeout : Nat) : (requested call timeout).code = none := rfl
@[simp] theorem code_replied (response : ContainerExecWaitResponse) : (replied call response).code = none :=
  rfl
@[simp] theorem code_polled (code : Option Int) : (polled call code).code = code := rfl
@[simp] theorem code_waited (code : Int) : (waited call code).code = some code := rfl
@[simp] theorem code_raised : (raised call).code = none := rfl
@[simp] theorem code_read (code : Option Int) : (read code).code = code := rfl

end ProcessOutcome

namespace ContainerProcess

def create (execDeadline : Option Nat) (now : Nat) : ContainerProcess :=
  ⟨execDeadline, none, [], 0, now⟩

def returncodeMessage : String :=
  "You must call wait() before accessing the returncode. " ++
    "To poll for the status of a running process, use poll() instead."

def getReturncode (p : ContainerProcess) : Except PyError Int :=
  match p.returncode with
  | none => .error (.invalidError returncodeMessage)
  | some code => .ok code

@[simp] theorem getReturncode_toOption (p : ContainerProcess) : p.getReturncode.toOption = p.returncode := by
  unfold getReturncode
  split <;> simp_all [Except.toOption]

/-- `self._exec_deadline` where it tests true: `None` and `0.0` test false. -/
def deadline (p : ContainerProcess) : Option Nat := p.execDeadline.filter (· != 0)

/-- `self._exec_deadline and time.monotonic() >= self._exec_deadline` in `poll`,
and `timeout <= 0` for `timeout = self._exec_deadline - time.monotonic()` in `wait`. -/
def pastDeadline (p : ContainerProcess) : Bool :=
  match p.deadline with
  | some deadline => decide (deadline ≤ p.now)
  | none => false

def finish (p : ContainerProcess) (call : Nat) : ContainerProcess :=
  { p with calls := p.calls.filter (·.1 != call) }

/-- `poll()` and `wait()` up to their first await: a known code is returned at
once, and past the deadline `-1` is stored and returned; otherwise the call
sends its first request and awaits the reply as `pending`. -/
def start (p : ContainerProcess) (returned : Nat → Int → ProcessOutcome) (pending : ProcessCall)
    (timeout : Nat) : ContainerProcess × List ProcessOutcome :=
  let call := p.nextCall
  let p := { p with nextCall := call + 1 }
  match p.returncode with
  | some code => (p, [returned call code])
  | none =>
      if p.pastDeadline then ({ p with returncode := some (-1) }, [returned call (-1)])
      else ({ p with calls := p.calls ++ [(call, pending)] }, [.requested call timeout])

def poll (p : ContainerProcess) : ContainerProcess × List ProcessOutcome :=
  p.start (fun call code => .polled call (some code)) .polling 0

/-- `wait()`: `asyncio.wait_for` times out `timeout` after now, at the deadline. -/
def wait (p : ContainerProcess) : ContainerProcess × List ProcessOutcome :=
  p.start .waited (.waiting p.deadline) 10

/-- A reply arrives. `poll` stores and returns a completed exit code, or returns
`None`. The loop of `_wait_for_completion` returns a completed exit code, which
`wait` stores and returns, and otherwise sends its next request. -/
def reply (p : ContainerProcess) (call : Nat) (response : ContainerExecWaitResponse) :
    Option (ContainerProcess × List ProcessOutcome) :=
  match p.calls.lookup call with
  | none => none
  | some .polling =>
      if response.completed then
        some ({ p.finish call with returncode := some response.exitCode },
          [.replied call response, .polled call (some response.exitCode)])
      else some (p.finish call, [.replied call response, .polled call none])
  | some (.waiting _) =>
      if response.completed then
        some ({ p.finish call with returncode := some response.exitCode },
          [.replied call response, .waited call response.exitCode])
      else some (p, [.replied call response, .requested call 10])

/-- The timeout of `asyncio.wait_for` fires, never before its timer; `wait`
catches the `TimeoutError` and stores and returns `-1`. -/
def timeout (p : ContainerProcess) (call : Nat) : Option (ContainerProcess × List ProcessOutcome) :=
  match p.calls.lookup call with
  | some (.waiting (some timer)) =>
      if timer ≤ p.now then some ({ p.finish call with returncode := some (-1) }, [.waited call (-1)])
      else none
  | _ => none

/-- The error of a request leaves its call: `wait` catches only timeouts. -/
def fail (p : ContainerProcess) (call : Nat) : Option (ContainerProcess × List ProcessOutcome) :=
  (p.calls.lookup call).map fun _ => (p.finish call, [.raised call])

def step (p : ContainerProcess) : ProcessEvent → Option (ContainerProcess × List ProcessOutcome)
  | .poll => some p.poll
  | .wait => some p.wait
  | .reply call response => p.reply call response
  | .fail call => p.fail call
  | .timeout call => p.timeout call
  | .elapse duration => some ({ p with now := p.now + duration }, [])
  | .readReturncode => some (p, [.read p.getReturncode.toOption])

/-- Calls that never overlap: `poll` and `wait` start only while no call is in flight. -/
def Sequential (p : ContainerProcess) : ProcessEvent → Prop
  | .poll | .wait => p.calls = []
  | _ => True

instance (p : ContainerProcess) (e : ProcessEvent) : Decidable (p.Sequential e) :=
  match e with
  | .poll | .wait => inferInstanceAs (Decidable (p.calls = []))
  | .reply .. | .fail _ | .timeout _ | .elapse _ | .readReturncode => instDecidableTrue

def Interleaved (_ : ContainerProcess) (_ : ProcessEvent) : Prop := True

instance (p : ContainerProcess) (e : ProcessEvent) : Decidable (p.Interleaved e) := instDecidableTrue

def run (allowed : ContainerProcess → ProcessEvent → Prop) [∀ p e, Decidable (allowed p e)]
    (p : ContainerProcess) : List ProcessEvent → Option (ContainerProcess × List ProcessOutcome)
  | [] => some (p, [])
  | e :: rest =>
      if allowed p e then
        (p.step e).bind fun next =>
          (run allowed next.1 rest).map fun later => (later.1, next.2 ++ later.2)
      else none

end ContainerProcess

inductive ProcessRun (allowed : ContainerProcess → ProcessEvent → Prop) (p₀ : ContainerProcess) :
    ContainerProcess → List ProcessOutcome → Prop
  | here : ProcessRun allowed p₀ p₀ []
  | step {p p' : ContainerProcess} {history new : List ProcessOutcome} {e : ProcessEvent} :
      ProcessRun allowed p₀ p history → allowed p e → p.step e = some (p', new) →
      ProcessRun allowed p₀ p' (history ++ new)

namespace ProcessRun

variable {allowed : ContainerProcess → ProcessEvent → Prop} [∀ p e, Decidable (allowed p e)]
  {p₀ : ContainerProcess}

theorem run {p : ContainerProcess} {history : List ProcessOutcome}
    (ran : ProcessRun allowed p₀ p history) :
    ∀ {events : List ProcessEvent} {p' : ContainerProcess} {later : List ProcessOutcome},
      p.run allowed events = some (p', later) → ProcessRun allowed p₀ p' (history ++ later)
  | [], _, _, finished => by
      cases finished
      simpa using ran
  | e :: rest, _, _, finished => by
      simp only [ContainerProcess.run] at finished
      split_ifs at finished with permitted
      obtain ⟨⟨next, new⟩, stepped, continued⟩ := Option.bind_eq_some.mp finished
      obtain ⟨⟨final, later⟩, ranRest, same⟩ := Option.map_eq_some'.mp continued
      cases same
      simpa only [List.append_assoc] using (ran.step permitted stepped).run ranRest

theorem of_run (events : List ProcessEvent) {history : List ProcessOutcome}
    (ran : (p₀.run allowed events).map Prod.snd = some history) :
    ∃ p, ProcessRun allowed p₀ p history := by
  obtain ⟨⟨p, later⟩, found, rfl⟩ := Option.map_eq_some'.mp ran
  exact ⟨p, by simpa using ProcessRun.here.run found⟩

end ProcessRun

namespace ContainerProcess

variable {p p' : ContainerProcess} {history new : List ProcessOutcome}

theorem pastDeadline_mono (same : p'.execDeadline = p.execDeadline) (later : p.now ≤ p'.now)
    (past : p.pastDeadline = true) : p'.pastDeadline = true := by
  unfold pastDeadline deadline at *
  rw [same]
  split at past
  · simp only [decide_eq_true_eq] at past ⊢
    omega
  · cases past

/-- What every interleaving keeps: each code the object holds or a call has
returned came from a completed reply or is the `-1` of a passed deadline, a code
once returned stays stored, and a call inside `asyncio.wait_for` times out at
the deadline. -/
structure Sound (p : ContainerProcess) (history : List ProcessOutcome) : Prop where
  origin : ∀ code, (p.returncode = some code ∨ ∃ o ∈ history, o.code = some code) →
    (∃ call, .replied call ⟨true, code⟩ ∈ history) ∨ (code = -1 ∧ p.pastDeadline = true)
  kept : (∃ o ∈ history, o.code ≠ none) → p.returncode ≠ none
  timers : ∀ call timer, (call, ProcessCall.waiting timer) ∈ p.calls → timer = p.deadline

theorem create_sound (execDeadline : Option Nat) (now : Nat) : (create execDeadline now).Sound [] where
  origin code held := by simp [create] at held
  kept := by simp
  timers call timer member := by simp [create] at member

/-- A step keeps `Sound` when each code it introduces is reported, stored before
or a passed deadline's `-1`, and a new call in `asyncio.wait_for` times out at
the deadline. -/
theorem Sound.extend (sound : p.Sound history) (same : p'.execDeadline = p.execDeadline)
    (later : p.now ≤ p'.now)
    (origin : ∀ code, (p'.returncode = some code ∨ ∃ o ∈ new, o.code = some code) →
      p.returncode = some code ∨ (∃ call, .replied call ⟨true, code⟩ ∈ new) ∨
        (code = -1 ∧ p'.pastDeadline = true))
    (kept : p.returncode ≠ none ∨ (∃ o ∈ new, o.code ≠ none) → p'.returncode ≠ none)
    (timers : ∀ call timer, (call, ProcessCall.waiting timer) ∈ p'.calls →
      (call, ProcessCall.waiting timer) ∈ p.calls ∨ timer = p.deadline) :
    p'.Sound (history ++ new) := by
  have deadline : p'.deadline = p.deadline := by simp only [ContainerProcess.deadline, same]
  have old : ∀ code, (p.returncode = some code ∨ ∃ o ∈ history, o.code = some code) →
      (∃ call, ProcessOutcome.replied call ⟨true, code⟩ ∈ history ++ new) ∨
        (code = -1 ∧ p'.pastDeadline = true) := fun code held =>
    (sound.origin code held).imp (fun ⟨call, member⟩ => ⟨call, List.mem_append_left _ member⟩)
      fun ⟨minusOne, past⟩ => ⟨minusOne, pastDeadline_mono same later past⟩
  refine ⟨fun code held => ?_, fun returned => ?_, fun call timer member => ?_⟩
  · simp only [List.mem_append, or_and_right, exists_or] at held
    obtain inHistory | fresh : (∃ o ∈ history, o.code = some code) ∨
        p'.returncode = some code ∨ ∃ o ∈ new, o.code = some code := by
      rcases held with stored | inHistory | inNew
      exacts [.inr (.inl stored), .inl inHistory, .inr (.inr inNew)]
    · exact old code (.inr inHistory)
    · rcases origin code fresh with before | reported | timedOut
      · exact old code (.inl before)
      · exact .inl (reported.imp fun _ member => List.mem_append_right _ member)
      · exact .inr timedOut
  · simp only [List.mem_append, or_and_right, exists_or] at returned
    exact kept (returned.imp sound.kept id)
  · rw [deadline]
    exact (timers call timer member).elim (sound.timers call timer) id

theorem Sound.quiet (sound : p.Sound history) (same : p'.execDeadline = p.execDeadline)
    (later : p.now ≤ p'.now) (stored : p'.returncode = p.returncode)
    (silent : ∀ o ∈ new, o.code = none) (calls : ∀ entry ∈ p'.calls, entry ∈ p.calls) :
    p'.Sound (history ++ new) := by
  refine sound.extend same later (fun code held => .inl ?_) (fun known => ?_) fun _ _ member =>
    .inl (calls _ member)
  · rcases held with known | ⟨o, member, found⟩
    · exact stored ▸ known
    · exact absurd found (by simp [silent o member])
  · rcases known with known | ⟨o, member, found⟩
    · exact stored ▸ known
    · exact absurd (silent o member) found

theorem start_cases (returned : Nat → Int → ProcessOutcome) (pending : ProcessCall) (timeout : Nat) :
    (∃ code, p.returncode = some code ∧
      p.start returned pending timeout = ({ p with nextCall := p.nextCall + 1 }, [returned p.nextCall code])) ∨
    (p.returncode = none ∧ p.pastDeadline = true ∧
      p.start returned pending timeout =
        ({ p with nextCall := p.nextCall + 1, returncode := some (-1) }, [returned p.nextCall (-1)])) ∨
    (p.returncode = none ∧ p.pastDeadline = false ∧
      p.start returned pending timeout =
        ({ p with nextCall := p.nextCall + 1, calls := p.calls ++ [(p.nextCall, pending)] },
          [.requested p.nextCall timeout])) := by
  have same : { p with nextCall := p.nextCall + 1 }.pastDeadline = p.pastDeadline := rfl
  unfold start
  dsimp only
  split
  · exact .inl ⟨_, ‹_›, rfl⟩
  · cases past : p.pastDeadline <;> simp only [same, past] <;> simp [‹p.returncode = none›]

/-- What a reply does: it ends a `poll` and, when completed, a `wait`, storing a
completed exit code; otherwise `wait` requests again. -/
theorem reply_cases {call : Nat} {response : ContainerExecWaitResponse}
    (replied : p.reply call response = some (p', new)) :
    ∃ pending, (call, pending) ∈ p.calls ∧
      ((response.completed = true ∧ p' = { p.finish call with returncode := some response.exitCode } ∧
          ∃ returned, new = [.replied call response, returned] ∧
            (returned = .polled call (some response.exitCode) ∨ returned = .waited call response.exitCode)) ∨
        (response.completed = false ∧ pending = .polling ∧ p' = p.finish call ∧
          new = [.replied call response, .polled call none]) ∨
        (response.completed = false ∧ p' = p ∧ new = [.replied call response, .requested call 10])) := by
  unfold reply at replied
  split at replied
  · cases replied
  · rename_i found
    refine ⟨_, mem_of_lookup found, ?_⟩
    cases completed : response.completed <;> simp only [completed] at replied <;> cases replied
    · exact .inr (.inl ⟨rfl, rfl, rfl, rfl⟩)
    · exact .inl ⟨rfl, rfl, _, rfl, .inl rfl⟩
  · rename_i found
    refine ⟨_, mem_of_lookup found, ?_⟩
    cases completed : response.completed <;> simp only [completed] at replied <;> cases replied
    · exact .inr (.inr ⟨rfl, rfl, rfl⟩)
    · exact .inl ⟨rfl, rfl, _, rfl, .inr rfl⟩

theorem timeout_cases {call : Nat} (timedOut : p.timeout call = some (p', new)) :
    ∃ timer, (call, .waiting (some timer)) ∈ p.calls ∧ timer ≤ p.now ∧
      p' = { p.finish call with returncode := some (-1) } ∧ new = [.waited call (-1)] := by
  unfold timeout at timedOut
  split at timedOut
  · rename_i timer found
    split_ifs at timedOut with due
    cases timedOut
    exact ⟨timer, mem_of_lookup found, due, rfl, rfl⟩
  · cases timedOut

theorem fail_cases {call : Nat} (failed : p.fail call = some (p', new)) :
    ∃ pending, (call, pending) ∈ p.calls ∧ p' = p.finish call ∧ new = [.raised call] := by
  obtain ⟨pending, found, same⟩ := Option.map_eq_some'.mp failed
  cases same
  exact ⟨pending, mem_of_lookup found, rfl, rfl⟩

theorem Sound.start (sound : p.Sound history) (returned : Nat → Int → ProcessOutcome)
    (pending : ProcessCall) (timeout : Nat) (codeOf : ∀ call code, (returned call code).code = some code)
    (timerAt : ∀ timer, pending = .waiting timer → timer = p.deadline) :
    (p.start returned pending timeout).1.Sound (history ++ (p.start returned pending timeout).2) := by
  rcases start_cases (p := p) returned pending timeout with
    ⟨code, stored, started⟩ | ⟨unknown, past, started⟩ | ⟨unknown, -, started⟩ <;> rw [started]
  · refine sound.extend rfl le_rfl (fun code' held => .inl ?_) (fun _ => by simp [stored])
      fun _ _ => .inl
    simp only [List.mem_singleton, exists_eq_left, codeOf, Option.some.injEq] at held
    rcases held with same | rfl
    · exact same
    · exact stored
  · refine sound.extend rfl le_rfl (fun code held => .inr (.inr ⟨?_, past⟩)) (fun _ => by simp)
      fun _ _ => .inl
    simp only [List.mem_singleton, exists_eq_left, codeOf, Option.some.injEq] at held
    exact held.elim Eq.symm Eq.symm
  · refine sound.extend rfl le_rfl (fun code held => ?_) (fun known => ?_) fun call timer member => ?_
    · simp [unknown] at held
    · simp [unknown] at known
    · simp only [List.mem_append, List.mem_singleton, Prod.mk.injEq] at member
      exact member.imp id fun ⟨_, same⟩ => timerAt timer same.symm

theorem finish_calls_subset (call : Nat) {entry : Nat × ProcessCall} (member : entry ∈ (p.finish call).calls) :
    entry ∈ p.calls :=
  (List.mem_filter.mp member).1

theorem Sound.step (sound : p.Sound history) {e : ProcessEvent} (stepped : p.step e = some (p', new)) :
    p'.Sound (history ++ new) := by
  cases e with
  | poll =>
      have started : p.start (fun call code => .polled call (some code)) .polling 0 = (p', new) :=
        Option.some.inj stepped
      simpa only [started] using sound.start (fun call code => .polled call (some code)) .polling 0
        (by simp) (by simp)
  | wait =>
      have started : p.start .waited (.waiting p.deadline) 10 = (p', new) := Option.some.inj stepped
      simpa only [started] using sound.start .waited (.waiting p.deadline) 10 (by simp) (by simp)
  | reply call response =>
      obtain ⟨pending, -, completed | unfinished | again⟩ := reply_cases stepped
      · obtain ⟨done, rfl, returned, rfl, shape⟩ := completed
        have code : returned.code = some response.exitCode := by rcases shape with rfl | rfl <;> rfl
        have reported : ProcessOutcome.replied call ⟨true, response.exitCode⟩ ∈
            [.replied call response, returned] := by
          cases response
          simp_all
        refine sound.extend rfl le_rfl (fun code' held => .inr (.inl ⟨call, ?_⟩)) (fun _ => by simp)
          fun _ _ member => .inl (finish_calls_subset call member)
        rcases held with stored | ⟨o, member, found⟩
        · cases Option.some.inj stored
          exact reported
        · simp only [List.mem_cons, List.mem_singleton, List.not_mem_nil, or_false] at member
          rcases member with rfl | rfl
          · cases found
          · cases code.symm.trans found
            exact reported
      · obtain ⟨-, -, rfl, rfl⟩ := unfinished
        exact sound.quiet rfl le_rfl rfl (by simp) fun _ => finish_calls_subset call
      · obtain ⟨-, rfl, rfl⟩ := again
        exact sound.quiet rfl le_rfl rfl (by simp) fun _ => id
  | fail call =>
      obtain ⟨-, -, rfl, rfl⟩ := fail_cases stepped
      exact sound.quiet rfl le_rfl rfl (by simp) fun _ => finish_calls_subset call
  | timeout call =>
      obtain ⟨timer, member, due, rfl, rfl⟩ := timeout_cases stepped
      have past : p.pastDeadline = true := by
        rw [pastDeadline, ← sound.timers call (some timer) member]
        simpa using due
      refine sound.extend rfl le_rfl (fun code held => .inr (.inr ⟨?_, past⟩)) (fun _ => by simp)
        fun _ _ member => .inl (finish_calls_subset call member)
      simp only [List.mem_singleton, exists_eq_left, ProcessOutcome.code, Option.some.injEq] at held
      exact held.elim Eq.symm Eq.symm
  | elapse duration =>
      cases stepped
      exact sound.quiet rfl (Nat.le_add_right _ _) rfl (by simp) fun _ => id
  | readReturncode =>
      cases stepped
      exact sound.extend rfl le_rfl (fun code held => .inl (by simpa using held))
        (fun known => by simpa using known) fun _ _ => .inl

theorem pastDeadline_iff : p.pastDeadline = true ↔
    ∃ deadline, p.execDeadline = some deadline ∧ deadline ≠ 0 ∧ deadline ≤ p.now := by
  unfold pastDeadline deadline
  rcases p.execDeadline with _ | deadline
  · simp
  · by_cases zero : deadline = 0 <;> simp [Option.filter, zero]

theorem start_execDeadline (returned : Nat → Int → ProcessOutcome) (pending : ProcessCall) (timeout : Nat) :
    (p.start returned pending timeout).1.execDeadline = p.execDeadline := by
  rcases start_cases (p := p) returned pending timeout with ⟨_, _, started⟩ | ⟨_, _, started⟩ |
    ⟨_, _, started⟩ <;> rw [started]

theorem step_execDeadline {e : ProcessEvent} (stepped : p.step e = some (p', new)) :
    p'.execDeadline = p.execDeadline := by
  cases e with
  | poll =>
      rw [← show p.poll.1 = p' from congrArg Prod.fst (Option.some.inj stepped)]
      exact start_execDeadline ..
  | wait =>
      rw [← show p.wait.1 = p' from congrArg Prod.fst (Option.some.inj stepped)]
      exact start_execDeadline ..
  | reply call response =>
      obtain ⟨_, _, ⟨_, rfl, _⟩ | ⟨_, _, rfl, _⟩ | ⟨_, rfl, _⟩⟩ := reply_cases stepped <;> rfl
  | fail call =>
      obtain ⟨_, _, rfl, _⟩ := fail_cases stepped
      rfl
  | timeout call =>
      obtain ⟨_, _, _, rfl, _⟩ := timeout_cases stepped
      rfl
  | elapse duration | readReturncode => cases stepped; rfl

/-- What a step does to the stored code: it stores the last code it hands to a
caller, and keeps the stored one when it hands none. -/
theorem step_returncode {e : ProcessEvent} (stepped : p.step e = some (p', new)) :
    p'.returncode = (new.filterMap ProcessOutcome.code).getLast?.or p.returncode := by
  have start (returned : Nat → Int → ProcessOutcome) (pending : ProcessCall) (timeout : Nat)
      (codeOf : ∀ call code, (returned call code).code = some code) :
      (p.start returned pending timeout).1.returncode =
        ((p.start returned pending timeout).2.filterMap ProcessOutcome.code).getLast?.or
          p.returncode := by
    rcases start_cases (p := p) returned pending timeout with
      ⟨code, stored, started⟩ | ⟨-, -, started⟩ | ⟨-, -, started⟩ <;> rw [started]
    · simp [codeOf, stored]
    all_goals simp [codeOf]
  cases e with
  | poll =>
      obtain ⟨rfl, rfl⟩ := Prod.ext_iff.mp (Option.some.inj stepped).symm
      exact start _ _ _ (by simp)
  | wait =>
      obtain ⟨rfl, rfl⟩ := Prod.ext_iff.mp (Option.some.inj stepped).symm
      exact start _ _ _ (by simp)
  | reply call response =>
      obtain ⟨_, _, ⟨-, rfl, returned, rfl, shape⟩ | ⟨-, -, rfl, rfl⟩ | ⟨-, rfl, rfl⟩⟩ :=
        reply_cases stepped
      · rcases shape with rfl | rfl <;> simp
      · simp [finish]
      · simp
  | fail call =>
      obtain ⟨_, _, rfl, rfl⟩ := fail_cases stepped
      simp [finish]
  | timeout call =>
      obtain ⟨_, _, _, rfl, rfl⟩ := timeout_cases stepped
      simp
  | elapse duration =>
      cases stepped
      simp
  | readReturncode =>
      cases stepped
      cases stored : p.returncode <;> simp [stored]

/-- Each read of `returncode` raises exactly when no call has returned a code before it. -/
def ReadsBeforeCode (history : List ProcessOutcome) : Prop :=
  ∀ before after result, history = before ++ .read result :: after →
    (result = none ↔ ∀ o ∈ before, o.code = none)

theorem ReadsBeforeCode.append (old : ReadsBeforeCode history)
    (fresh : (∀ result, .read result ∉ new) ∨
      ∃ result, new = [.read result] ∧ (result = none ↔ ∀ o ∈ history, o.code = none)) :
    ReadsBeforeCode (history ++ new) := by
  intro before after result split
  rcases List.append_eq_append_iff.mp split with ⟨middle, rfl, rest⟩ | ⟨middle, rfl, rest⟩
  · rcases fresh with absent | ⟨read, rfl, agree⟩
    · exact absurd (rest ▸ List.mem_append_right _ (List.mem_cons_self _ _)) (absent result)
    · cases middle with
      | nil =>
          simp only [List.nil_append, List.cons.injEq, ProcessOutcome.read.injEq] at rest
          simpa [← rest.1] using agree
      | cons _ _ => simp at rest
  · cases middle with
    | nil =>
        rcases fresh with absent | ⟨read, rfl, agree⟩
        · rw [List.nil_append] at rest
          exact (absent result (rest ▸ List.mem_cons_self _ _)).elim
        · simp only [List.nil_append, List.cons.injEq, ProcessOutcome.read.injEq] at rest
          simpa [← rest.1] using agree
    | cons first middle =>
        simp only [List.cons_append, List.cons.injEq] at rest
        obtain ⟨rfl, rfl⟩ := rest
        exact old before middle result rfl

/-- What runs keep in which calls never overlap: a call is in flight only while
no code is stored, at most one is, every code a call returned is the stored one,
and a read of `returncode` raises exactly before the first code. -/
structure Settled (p : ContainerProcess) (history : List ProcessOutcome) : Prop where
  idle : p.returncode ≠ none → p.calls = []
  single : p.calls.length ≤ 1
  stored : ∀ o ∈ history, ∀ code, o.code = some code → p.returncode = some code
  returned : p.returncode ≠ none → ∃ o ∈ history, o.code ≠ none
  reads : ReadsBeforeCode history

theorem create_settled (execDeadline : Option Nat) (now : Nat) : (create execDeadline now).Settled [] where
  idle _ := rfl
  single := Nat.zero_le _
  stored := by simp
  returned := by simp [create]
  reads := by simp [ReadsBeforeCode]

theorem Settled.unknown_iff (settled : p.Settled history) :
    p.returncode = none ↔ ∀ o ∈ history, o.code = none := by
  constructor
  · intro unknown o member
    cases found : o.code with
    | none => rfl
    | some code => simp [settled.stored o member code found] at unknown
  · intro none
    by_contra known
    obtain ⟨o, member, found⟩ := settled.returned known
    exact found (none o member)

/-- A step keeps `Settled` when it leaves no call in flight or a single one with
no code stored, stores every code it returns, keeps a stored code, stores one
only with a call returning it, and records a read only alone, of the stored code. -/
theorem Settled.extend (settled : p.Settled history)
    (calls : p'.calls = [] ∨ p'.returncode = none ∧ p'.calls.length ≤ 1)
    (codes : ∀ o ∈ new, ∀ code, o.code = some code → p'.returncode = some code)
    (keep : p.returncode ≠ none → p'.returncode = p.returncode)
    (fresh : p'.returncode ≠ none → p.returncode ≠ none ∨ ∃ o ∈ new, o.code ≠ none)
    (reads : (∀ result, .read result ∉ new) ∨ ∃ result, new = [.read result] ∧ result = p.returncode) :
    p'.Settled (history ++ new) where
  idle known := calls.elim id fun ⟨unknown, _⟩ => absurd unknown known
  single := calls.elim (fun idle => by simp [idle]) And.right
  stored o member code found := by
    rcases List.mem_append.mp member with old | new
    · have stored := settled.stored o old code found
      rw [keep (by simp [stored]), stored]
    · exact codes o new code found
  returned known := by
    rcases fresh known with before | ⟨o, member, found⟩
    · obtain ⟨o, member, found⟩ := settled.returned before
      exact ⟨o, List.mem_append_left _ member, found⟩
    · exact ⟨o, List.mem_append_right _ member, found⟩
  reads := settled.reads.append (reads.imp id fun ⟨result, same, stored⟩ =>
    ⟨result, same, stored ▸ settled.unknown_iff⟩)

theorem finish_calls_eq_nil (single : p.calls.length ≤ 1) {call : Nat} {pending : ProcessCall}
    (member : (call, pending) ∈ p.calls) : (p.finish call).calls = [] := by
  unfold finish
  dsimp only
  match p.calls, single, member with
  | [_], _, member => simp [← List.mem_singleton.mp member]

theorem Settled.start (settled : p.Settled history) (idle : p.calls = [])
    (returned : Nat → Int → ProcessOutcome) (pending : ProcessCall) (timeout : Nat)
    (codeOf : ∀ call code, (returned call code).code = some code)
    (notRead : ∀ call code result, returned call code ≠ .read result) :
    (p.start returned pending timeout).1.Settled (history ++ (p.start returned pending timeout).2) := by
  have noRead : ∀ call code result, ProcessOutcome.read result ∉ [returned call code] :=
    fun call code result member => notRead call code result (List.mem_singleton.mp member).symm
  rcases start_cases (p := p) returned pending timeout with
    ⟨code, stored, started⟩ | ⟨unknown, past, started⟩ | ⟨unknown, -, started⟩ <;> rw [started]
  · refine settled.extend (.inl idle) (fun o member code' found => ?_) (fun _ => rfl)
      (fun known => .inl known) (.inl (noRead _ _))
    rw [List.mem_singleton.mp member, codeOf] at found
    exact found ▸ stored
  · refine settled.extend (.inl idle) (fun o member code' found => ?_) (fun known => absurd unknown known)
      (fun _ => .inr ⟨_, List.mem_singleton_self _, by simp [codeOf]⟩) (.inl (noRead _ _))
    rw [List.mem_singleton.mp member, codeOf] at found
    exact found
  · refine settled.extend (.inr ⟨unknown, by simp [idle]⟩) (fun o member code found => ?_)
      (fun known => absurd unknown known) (fun known => absurd unknown known) (.inl (by simp))
    simp [List.mem_singleton.mp member] at found

theorem Settled.step (settled : p.Settled history) {e : ProcessEvent} (allowed : p.Sequential e)
    (stepped : p.step e = some (p', new)) : p'.Settled (history ++ new) := by
  have unchanged : p.calls = [] ∨ p.returncode = none ∧ p.calls.length ≤ 1 :=
    (em (p.returncode = none)).elim (fun unknown => .inr ⟨unknown, settled.single⟩)
      fun known => .inl (settled.idle known)
  have inFlight : ∀ {call pending}, (call, pending) ∈ p.calls →
      p.returncode = none ∧ (p.finish call).calls = [] := fun member =>
    ⟨by_contra fun known => by simp [settled.idle known] at member,
      finish_calls_eq_nil settled.single member⟩
  cases e with
  | poll =>
      have started : p.start (fun call code => .polled call (some code)) .polling 0 = (p', new) :=
        Option.some.inj stepped
      simpa only [started] using settled.start allowed (fun call code => .polled call (some code))
        .polling 0 (by simp) (by simp)
  | wait =>
      have started : p.start .waited (.waiting p.deadline) 10 = (p', new) := Option.some.inj stepped
      simpa only [started] using settled.start allowed .waited (.waiting p.deadline) 10 (by simp)
        (by simp)
  | reply call response =>
      obtain ⟨pending, member, completed | unfinished | again⟩ := reply_cases stepped
      · obtain ⟨-, rfl, returned, rfl, shape⟩ := completed
        obtain ⟨unknown, finished⟩ := inFlight member
        rcases shape with rfl | rfl <;>
          exact settled.extend (.inl finished) (by simp) (fun known => absurd unknown known)
            (fun _ => .inr ⟨_, List.mem_cons_of_mem _ (List.mem_singleton_self _), by simp⟩)
            (.inl (by simp))
      · obtain ⟨-, -, rfl, rfl⟩ := unfinished
        obtain ⟨unknown, finished⟩ := inFlight member
        exact settled.extend (.inl finished) (by simp) (fun known => absurd unknown known)
          (fun known => absurd unknown known) (.inl (by simp))
      · obtain ⟨-, rfl, rfl⟩ := again
        exact settled.extend unchanged (by simp) (fun _ => rfl) .inl (.inl (by simp))
  | fail call =>
      obtain ⟨pending, member, rfl, rfl⟩ := fail_cases stepped
      obtain ⟨unknown, finished⟩ := inFlight member
      exact settled.extend (.inl finished) (by simp) (fun known => absurd unknown known)
        (fun known => absurd unknown known) (.inl (by simp))
  | timeout call =>
      obtain ⟨timer, member, -, rfl, rfl⟩ := timeout_cases stepped
      obtain ⟨unknown, finished⟩ := inFlight member
      exact settled.extend (.inl finished) (by simp) (fun known => absurd unknown known)
        (fun _ => .inr ⟨_, List.mem_singleton_self _, by simp⟩) (.inl (by simp))
  | elapse duration =>
      cases stepped
      exact settled.extend unchanged (by simp) (fun _ => rfl) .inl (.inl (by simp))
  | readReturncode =>
      cases stepped
      exact settled.extend unchanged (by simp) (fun _ => rfl) .inl (.inr ⟨_, rfl, by simp⟩)

end ContainerProcess

open ContainerProcess in
theorem ProcessRun.sound {allowed : ContainerProcess → ProcessEvent → Prop} {execDeadline : Option Nat}
    {now : Nat} {p : ContainerProcess} {history : List ProcessOutcome}
    (ran : ProcessRun allowed (create execDeadline now) p history) :
    p.Sound history ∧ p.execDeadline = execDeadline := by
  induction ran with
  | here => exact ⟨create_sound _ _, rfl⟩
  | step _ _ stepped inductionHypothesis =>
      exact ⟨inductionHypothesis.1.step stepped, (step_execDeadline stepped).trans inductionHypothesis.2⟩

/-- Over every interleaving of `poll`, `wait` and reads of `returncode`, each
code the object stores or a call returns is the exit code of a reply that
reported completion, or `-1` once a deadline that tests true has passed; and a
code, once a call has returned one, stays stored. -/
theorem codes_reported_or_timed_out {execDeadline : Option Nat} {now : Nat} {p : ContainerProcess}
    {history : List ProcessOutcome}
    (ran : ProcessRun ContainerProcess.Interleaved (.create execDeadline now) p history) :
    (∀ code, (p.returncode = some code ∨ ∃ o ∈ history, o.code = some code) →
      (∃ call, .replied call ⟨true, code⟩ ∈ history) ∨
        (code = -1 ∧ ∃ deadline, execDeadline = some deadline ∧ deadline ≠ 0 ∧ deadline ≤ p.now)) ∧
    ((∃ o ∈ history, o.code ≠ none) → p.returncode ≠ none) := by
  obtain ⟨sound, same⟩ := ran.sound
  refine ⟨fun code held => (sound.origin code held).imp id fun ⟨minusOne, past⟩ => ⟨minusOne, ?_⟩,
    sound.kept⟩
  rw [← same]
  exact ContainerProcess.pastDeadline_iff.mp past

theorem timed_out_wait_stays :
    ∃ p, ProcessRun ContainerProcess.Interleaved (.create (some 5) 0) p
        [.requested 0 10, .waited 0 (-1), .polled 1 (some (-1))] ∧
      (∀ code, (p.returncode = some code ∨
          ∃ o ∈ [ProcessOutcome.requested 0 10, .waited 0 (-1), .polled 1 (some (-1))], o.code = some code) →
        (∃ call, .replied call ⟨true, code⟩ ∈
          [ProcessOutcome.requested 0 10, .waited 0 (-1), .polled 1 (some (-1))]) ∨
          (code = -1 ∧ ∃ deadline, some 5 = some deadline ∧ deadline ≠ 0 ∧ deadline ≤ p.now)) ∧
      ((∃ o ∈ [ProcessOutcome.requested 0 10, .waited 0 (-1), .polled 1 (some (-1))], o.code ≠ none) →
        p.returncode ≠ none) := by
  obtain ⟨p, ran⟩ : ∃ p, ProcessRun ContainerProcess.Interleaved (.create (some 5) 0) p
      [.requested 0 10, .waited 0 (-1), .polled 1 (some (-1))] :=
    ProcessRun.of_run [.wait, .elapse 5, .timeout 0, .poll] (by decide)
  exact ⟨p, ran, codes_reported_or_timed_out ran⟩

open ContainerProcess in
theorem ProcessRun.settled {execDeadline : Option Nat} {now : Nat} {p : ContainerProcess}
    {history : List ProcessOutcome} (ran : ProcessRun Sequential (create execDeadline now) p history) :
    p.Settled history := by
  induction ran with
  | here => exact create_settled _ _
  | step _ allowed stepped inductionHypothesis => exact inductionHypothesis.step allowed stepped

/-- When calls of `poll` and `wait` never overlap, every code a call returns or
a read of `returncode` gives is the stored one, so they all agree; and a read
raises `InvalidError` exactly when no call has returned a code before it. -/
theorem sequential_calls_agree {execDeadline : Option Nat} {now : Nat} {p : ContainerProcess}
    {history : List ProcessOutcome}
    (ran : ProcessRun ContainerProcess.Sequential (.create execDeadline now) p history) :
    (∀ o ∈ history, ∀ code, o.code = some code → p.returncode = some code) ∧
      ∀ before after result, history = before ++ .read result :: after →
        (result = none ↔ ∀ o ∈ before, o.code = none) :=
  ⟨ran.settled.stored, ran.settled.reads⟩

theorem poll_then_wait_agree :
    ∃ p, ProcessRun ContainerProcess.Sequential (.create none 0) p
        [.read none, .requested 0 0, .replied 0 ⟨false, 0⟩, .polled 0 none, .requested 1 10,
          .replied 1 ⟨true, 3⟩, .waited 1 3, .read (some 3), .polled 2 (some 3)] ∧
      (∀ o ∈ [ProcessOutcome.read none, .requested 0 0, .replied 0 ⟨false, 0⟩, .polled 0 none,
          .requested 1 10, .replied 1 ⟨true, 3⟩, .waited 1 3, .read (some 3), .polled 2 (some 3)],
        ∀ code, o.code = some code → p.returncode = some code) ∧
      ∀ before after result, [ProcessOutcome.read none, .requested 0 0, .replied 0 ⟨false, 0⟩,
          .polled 0 none, .requested 1 10, .replied 1 ⟨true, 3⟩, .waited 1 3, .read (some 3),
          .polled 2 (some 3)] = before ++ .read result :: after →
        (result = none ↔ ∀ o ∈ before, o.code = none) := by
  obtain ⟨p, ran⟩ : ∃ p, ProcessRun ContainerProcess.Sequential (.create none 0) p
      [.read none, .requested 0 0, .replied 0 ⟨false, 0⟩, .polled 0 none, .requested 1 10,
        .replied 1 ⟨true, 3⟩, .waited 1 3, .read (some 3), .polled 2 (some 3)] :=
    ProcessRun.of_run [.readReturncode, .poll, .reply 0 ⟨false, 0⟩, .wait, .reply 1 ⟨true, 3⟩,
      .readReturncode, .poll] (by decide)
  exact ⟨p, ran, sequential_calls_agree ran⟩

/-- Over every interleaving of `poll`, `wait` and reads of `returncode`, the
stored code is the last code handed to a caller: a `poll` answered after a
`wait` that timed out overwrites the `-1` that `wait` returned. -/
theorem overlapping_poll_overwrites_timeout {execDeadline : Option Nat} {now : Nat}
    {p : ContainerProcess} {history : List ProcessOutcome}
    (ran : ProcessRun ContainerProcess.Interleaved (.create execDeadline now) p history) :
    p.returncode = (history.filterMap ProcessOutcome.code).getLast? := by
  induction ran with
  | here => rfl
  | step _ _ stepped inductionHypothesis =>
      rw [ContainerProcess.step_returncode stepped, inductionHypothesis, List.filterMap_append,
        List.getLast?_append]

/-- A `poll` sent before the deadline is answered after `wait` timed out: the
stored code is the reported exit code, not the `-1` that `wait` returned. -/
theorem poll_answered_after_timeout :
    ∃ p, ProcessRun ContainerProcess.Interleaved (.create (some 5) 0) p
        [.requested 0 0, .requested 1 10, .waited 1 (-1), .replied 0 ⟨true, 7⟩, .polled 0 (some 7)] ∧
      p.returncode = ([ProcessOutcome.requested 0 0, .requested 1 10, .waited 1 (-1),
        .replied 0 ⟨true, 7⟩, .polled 0 (some 7)].filterMap ProcessOutcome.code).getLast? := by
  obtain ⟨p, ran⟩ : ∃ p, ProcessRun ContainerProcess.Interleaved (.create (some 5) 0) p
      [.requested 0 0, .requested 1 10, .waited 1 (-1), .replied 0 ⟨true, 7⟩, .polled 0 (some 7)] :=
    ProcessRun.of_run [.poll, .wait, .elapse 5, .timeout 1, .reply 0 ⟨true, 7⟩] (by decide)
  exact ⟨p, ran, overlapping_poll_overwrites_timeout ran⟩

end ContainerIO
