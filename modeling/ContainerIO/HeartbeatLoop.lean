import Mathlib.Algebra.Order.Ring.Rat
import Mathlib.Data.List.Chain
import Mathlib.Tactic.Linarith
import Mathlib.Tactic.NormNum
import Mathlib.Tactic.Ring

/-!
# The heartbeat loop

`_run_heartbeat_loop` calls `_heartbeat_handle_cancellations` again and again.
After a reply whose response had a `cancel_input_event` it sleeps a second;
after any other reply, and after an `Exception`, it sleeps what is left of
`HEARTBEAT_INTERVAL` since the attempt began. `ClientClosed` breaks the loop,
and cancelling its task (`heartbeats`, `stop_heartbeat`) ends it with
`CancelledError` at the pending await. A failure more than fifty intervals after
the last reply logs a second warning. `time.monotonic()` is a rational clock
that never goes back; the event that ends an await carries its reading.
-/

namespace ContainerIO

/-- How a call of `_heartbeat_handle_cancellations` ended. -/
inductive AttemptEnd where
  /-- It returned whether the response had a `cancel_input_event`. -/
  | returned (gotCancellation : Bool)
  | clientClosed
  /-- Any other `Exception`: the loop logs it and goes on. -/
  | failed
  deriving DecidableEq, Repr

/-- One pass of the `while 1` loop: begun at `t0`, its call ended at `finish`
with `result`; `troubleWarning` is the `time_since_heartbeat_success` the
second warning reports, when it is logged. -/
structure Attempt where
  t0 : ℚ
  finish : ℚ
  result : AttemptEnd
  troubleWarning : Option ℚ
  deriving DecidableEq, Repr

def Attempt.Replied (a : Attempt) : Prop := ∃ gotCancellation, a.result = .returned gotCancellation

inductive LoopPc where
  /-- Awaiting `_heartbeat_handle_cancellations`, begun at `t0`. -/
  | attempting (t0 : ℚ)
  /-- In `asyncio.sleep`, which returns no earlier than `wake`. -/
  | sleeping (wake : ℚ)
  /-- Out of the loop: by `break`, or by `CancelledError` when `raised`. -/
  | exited (raised : Bool)
  deriving DecidableEq, Repr

structure HeartbeatLoop where
  tLastSuccess : ℚ
  pc : LoopPc
  /-- The last reading of the clock. -/
  now : ℚ
  deriving DecidableEq, Repr

inductive LoopEvent where
  /-- The pending `_heartbeat_handle_cancellations` ends at `now`. -/
  | attemptEnds (result : AttemptEnd) (now : ℚ)
  /-- The pending `asyncio.sleep` returns at `now`. -/
  | wakes (now : ℚ)
  /-- `t.cancel()` on the loop's task, felt at `now`. -/
  | cancelled (now : ℚ)
  deriving DecidableEq, Repr

def LoopEvent.now : LoopEvent → ℚ
  | .attemptEnds _ now | .wakes now | .cancelled now => now

namespace HeartbeatLoop

variable (interval : ℚ)

def start (now : ℚ) : HeartbeatLoop := ⟨now, .attempting now, now⟩

def timeUntilNextHeartbeat (t0 now : ℚ) : ℚ := max 0 (interval - (now - t0))

/-- The second warning of the `except Exception` branch, with the
`time_since_heartbeat_success` it reports. -/
def troubleWarning (tLastSuccess now : ℚ) : Option ℚ :=
  if now - tLastSuccess > interval * 50 then some (now - tLastSuccess) else none

def step (l : HeartbeatLoop) : LoopEvent → Option (HeartbeatLoop × List Attempt)
  | .attemptEnds result now =>
      match l.pc, result with
      | .attempting t0, .returned gotCancellation =>
          let wake := if gotCancellation then now + 1 else now + timeUntilNextHeartbeat interval t0 now
          some (⟨now, .sleeping wake, now⟩, [⟨t0, now, result, none⟩])
      | .attempting t0, .clientClosed =>
          some ({ l with pc := .exited false, now }, [⟨t0, now, result, none⟩])
      | .attempting t0, .failed =>
          some ({ l with pc := .sleeping (now + timeUntilNextHeartbeat interval t0 now), now },
            [⟨t0, now, result, troubleWarning interval l.tLastSuccess now⟩])
      | _, _ => none
  | .wakes now =>
      match l.pc with
      | .sleeping wake => if wake ≤ now then some ({ l with pc := .attempting now, now }, []) else none
      | _ => none
  | .cancelled now =>
      match l.pc with
      | .exited _ => none
      | _ => some ({ l with pc := .exited true, now }, [])

def Admissible (l : HeartbeatLoop) (e : LoopEvent) : Prop := l.now ≤ e.now

instance (l : HeartbeatLoop) (e : LoopEvent) : Decidable (l.Admissible e) :=
  inferInstanceAs (Decidable (l.now ≤ e.now))

def run (l : HeartbeatLoop) : List LoopEvent → Option (HeartbeatLoop × List Attempt)
  | [] => some (l, [])
  | e :: rest =>
      if l.Admissible e then
        (l.step interval e).bind fun next =>
          (run next.1 rest).map fun later => (later.1, next.2 ++ later.2)
      else none

end HeartbeatLoop

inductive LoopRun (interval : ℚ) (l₀ : HeartbeatLoop) : HeartbeatLoop → List Attempt → Prop
  | here : LoopRun interval l₀ l₀ []
  | step {l l' : HeartbeatLoop} {history new : List Attempt} {e : LoopEvent} :
      LoopRun interval l₀ l history → l.Admissible e → l.step interval e = some (l', new) →
      LoopRun interval l₀ l' (history ++ new)

namespace LoopRun

variable {interval : ℚ} {l₀ : HeartbeatLoop}

theorem run {l : HeartbeatLoop} {history : List Attempt} (ran : LoopRun interval l₀ l history) :
    ∀ {events : List LoopEvent} {l' : HeartbeatLoop} {later : List Attempt},
      l.run interval events = some (l', later) → LoopRun interval l₀ l' (history ++ later)
  | [], _, _, finished => by
      cases finished
      simpa using ran
  | e :: rest, _, _, finished => by
      simp only [HeartbeatLoop.run] at finished
      split_ifs at finished with admissible
      obtain ⟨⟨next, new⟩, stepped, continued⟩ := Option.bind_eq_some.mp finished
      obtain ⟨⟨final, later⟩, ranRest, same⟩ := Option.map_eq_some'.mp continued
      cases same
      simpa only [List.append_assoc] using (ran.step admissible stepped).run ranRest

theorem of_run (events : List LoopEvent) {history : List Attempt}
    (ran : (l₀.run interval events).map Prod.snd = some history) :
    ∃ l, LoopRun interval l₀ l history := by
  obtain ⟨⟨l, later⟩, found, rfl⟩ := Option.map_eq_some'.mp ran
  exact ⟨l, by simpa using LoopRun.here.run found⟩

end LoopRun

namespace HeartbeatLoop

variable (interval : ℚ)

/-- The earliest the loop begins its next attempt after `a`: a second after the
reply when it had a cancel event, else `HEARTBEAT_INTERVAL` after `a` began,
and never before `a` ended. -/
def nextStart (a : Attempt) : ℚ :=
  if a.result = .returned true then a.finish + 1 else max a.finish (a.t0 + interval)

def StartsAfter (a : Attempt) (t : ℚ) : Prop := a.result ≠ .clientClosed ∧ nextStart interval a ≤ t

theorem nextStart_eq (t0 now : ℚ) (result : AttemptEnd) (warning : Option ℚ) :
    nextStart interval ⟨t0, now, result, warning⟩ =
      if result = .returned true then now + 1 else now + timeUntilNextHeartbeat interval t0 now := by
  have sleep : now + timeUntilNextHeartbeat interval t0 now = max now (t0 + interval) := by
    rw [timeUntilNextHeartbeat, ← max_add_add_left]
    congr 1 <;> ring
  simp only [nextStart, sleep]

theorem t0_add_le {a : Attempt} {t : ℚ} (ordered : a.t0 ≤ a.finish) (starts : StartsAfter interval a t) :
    a.t0 + min 1 interval ≤ t := by
  have bound := starts.2
  unfold nextStart at bound
  have := min_le_left 1 interval
  have := min_le_right 1 interval
  split_ifs at bound
  · linarith
  · linarith [le_max_right a.finish (a.t0 + interval)]

/-- Where the loop is, against the attempts completed: an attempt under way
began after the last one let it; a sleep lasts until `nextStart` of the last;
the loop broke out exactly after `ClientClosed`. -/
def PcAgrees (l : HeartbeatLoop) (history : List Attempt) : Prop :=
  match l.pc with
  | .attempting t0 => t0 ≤ l.now ∧ ∀ a ∈ history.getLast?, StartsAfter interval a t0
  | .sleeping wake => ∃ a ∈ history.getLast?, a.result ≠ .clientClosed ∧ nextStart interval a = wake
  | .exited raised => (raised = false ↔ ∃ a ∈ history.getLast?, a.result = .clientClosed)

/-- What every run from `start` keeps. -/
structure LoopInvariant (begin : ℚ) (l : HeartbeatLoop) (history : List Attempt) : Prop where
  chain : history.Chain' fun a b => StartsAfter interval a b.t0
  ordered : ∀ a ∈ history, a.t0 ≤ a.finish
  finish_le : ∀ a ∈ history, a.finish ≤ l.now
  begin_le : begin ≤ l.now
  /-- `t_last_success` is the end of the last reply, or the loop's start. -/
  lastSuccess_lt_iff : ∀ t, l.tLastSuccess < t ↔ begin < t ∧ ∀ a ∈ history, a.Replied → a.finish < t
  warned : ∀ (i : Nat) (a : Attempt), history[i]? = some a → (a.troubleWarning ≠ none ↔ a.result = .failed ∧
    begin + interval * 50 < a.finish ∧ ∀ b ∈ history.take i, b.Replied → b.finish + interval * 50 < a.finish)
  pc : PcAgrees interval l history

theorem start_invariant (begin : ℚ) : LoopInvariant interval begin (start begin) [] where
  chain := trivial
  ordered := by simp
  finish_le := by simp
  begin_le := le_refl begin
  lastSuccess_lt_iff := by simp [start]
  warned := by simp
  pc := by simp [PcAgrees, start]

variable {interval} {begin : ℚ} {l l' : HeartbeatLoop} {history new : List Attempt}

theorem LoopInvariant.complete (inv : LoopInvariant interval begin l history) {a : Attempt}
    (began : a.t0 ≤ l.now) (later : l.now ≤ a.finish)
    (starts : ∀ b ∈ history.getLast?, StartsAfter interval b a.t0)
    (warns : a.troubleWarning ≠ none ↔ a.result = .failed ∧ l.tLastSuccess < a.finish - interval * 50)
    (clock : l'.now = a.finish)
    (success : ∀ t, l'.tLastSuccess < t ↔ begin < t ∧ ∀ b ∈ history ++ [a], b.Replied → b.finish < t)
    (agrees : PcAgrees interval l' (history ++ [a])) :
    LoopInvariant interval begin l' (history ++ [a]) where
  chain := inv.chain.append (List.chain'_singleton _) fun b last c first => by
    cases first
    exact starts b last
  ordered := by
    simp only [List.mem_append, List.mem_singleton]
    rintro b (old | rfl)
    · exact inv.ordered b old
    · exact began.trans later
  finish_le := by
    simp only [List.mem_append, List.mem_singleton, clock]
    rintro b (old | rfl)
    · exact (inv.finish_le b old).trans later
    · exact le_refl _
  begin_le := clock ▸ inv.begin_le.trans later
  lastSuccess_lt_iff := success
  warned := by
    intro i b found
    rcases Nat.lt_or_ge i history.length with old | new
    · rw [List.getElem?_append_left old] at found
      rw [List.take_append_of_le_length old.le]
      exact inv.warned i b found
    · rw [List.getElem?_append_right new] at found
      obtain ⟨rfl, rfl⟩ : i = history.length ∧ b = a := by
        rcases Nat.eq_or_lt_of_le new with same | beyond
        · subst same
          simp only [Nat.sub_self, List.getElem?_cons_zero, Option.some.injEq] at found
          exact ⟨rfl, found.symm⟩
        · simp [List.getElem?_cons, show i - history.length ≠ 0 by omega] at found
      rw [List.take_left, warns, inv.lastSuccess_lt_iff]
      simp only [lt_sub_iff_add_lt]
  pc := agrees

theorem LoopInvariant.wait (inv : LoopInvariant interval begin l history) {pc : LoopPc} {now : ℚ}
    (later : l.now ≤ now) (agrees : PcAgrees interval { l with pc, now } history) :
    LoopInvariant interval begin { l with pc, now } history :=
  { inv with
    finish_le := fun a member => (inv.finish_le a member).trans later
    begin_le := inv.begin_le.trans later
    pc := agrees }

theorem LoopInvariant.success_unreplied (inv : LoopInvariant interval begin l history) (a : Attempt)
    (unreplied : ¬a.Replied) (t : ℚ) :
    l.tLastSuccess < t ↔ begin < t ∧ ∀ b ∈ history ++ [a], b.Replied → b.finish < t := by
  simp only [List.mem_append, List.mem_singleton, or_imp, forall_and, forall_eq, unreplied,
    false_imp_iff, and_true, inv.lastSuccess_lt_iff]

theorem LoopInvariant.success_replied (inv : LoopInvariant interval begin l history) (a : Attempt)
    (replied : a.Replied) (later : l.now ≤ a.finish) (t : ℚ) :
    a.finish < t ↔ begin < t ∧ ∀ b ∈ history ++ [a], b.Replied → b.finish < t := by
  simp only [List.mem_append, List.mem_singleton, or_imp, forall_and, forall_eq, replied, true_imp_iff]
  constructor
  · intro before
    exact ⟨by linarith [inv.begin_le], fun b member _ => by linarith [inv.finish_le b member], before⟩
  · exact fun ⟨_, _, before⟩ => before

theorem LoopInvariant.step (inv : LoopInvariant interval begin l history) {e : LoopEvent}
    (admissible : l.Admissible e) (stepped : l.step interval e = some (l', new)) :
    LoopInvariant interval begin l' (history ++ new) := by
  have agrees := inv.pc
  unfold PcAgrees at agrees
  cases e with
  | attemptEnds result now =>
      have later : l.now ≤ now := admissible
      simp only [HeartbeatLoop.step] at stepped
      split at stepped <;> cases stepped
      next t0 gotCancellation pc =>
        simp only [pc] at agrees
        refine inv.complete agrees.1 later agrees.2 (by simp) rfl
          (inv.success_replied ⟨t0, now, .returned gotCancellation, none⟩ ⟨gotCancellation, rfl⟩ later) ?_
        cases gotCancellation <;> simp [PcAgrees, nextStart_eq]
      next t0 pc =>
        simp only [pc] at agrees
        refine inv.complete agrees.1 later agrees.2 (by simp) rfl
          (inv.success_unreplied ⟨t0, now, .clientClosed, none⟩ fun ⟨_, no⟩ => by cases no) ?_
        simp [PcAgrees]
      next t0 pc =>
        simp only [pc] at agrees
        refine inv.complete agrees.1 later agrees.2 ?_ rfl
          (inv.success_unreplied ⟨t0, now, .failed, troubleWarning interval l.tLastSuccess now⟩
            fun ⟨_, no⟩ => by cases no) ?_
        · simp only [troubleWarning, ne_eq, ite_eq_right_iff, reduceCtorEq, imp_false, not_not,
            gt_iff_lt, true_and, lt_sub_comm]
        · simp [PcAgrees, nextStart_eq]
  | wakes now =>
      simp only [HeartbeatLoop.step] at stepped
      split at stepped
      · rename_i wake pc
        split_ifs at stepped with due
        cases stepped
        simp only [pc] at agrees
        obtain ⟨a, last, continues, wakeAt⟩ := agrees
        rw [List.append_nil]
        exact inv.wait admissible ⟨le_refl now, fun b member =>
          ⟨by cases Option.mem_unique last member; exact continues, by
            cases Option.mem_unique last member; exact wakeAt.trans_le due⟩⟩
      · cases stepped
  | cancelled now =>
      simp only [HeartbeatLoop.step] at stepped
      split at stepped
      · cases stepped
      · rename_i running
        cases stepped
        rw [List.append_nil]
        refine inv.wait admissible ?_
        simp only [PcAgrees, Bool.true_eq_false, false_iff, not_exists, not_and]
        intro a last closed
        revert agrees
        cases pc : l.pc with
        | attempting t0 => exact fun ⟨_, starts⟩ => (starts a last).1 closed
        | sleeping wake =>
            rintro ⟨b, last', continues, -⟩
            cases Option.mem_unique last last'
            exact continues closed
        | exited raised => exact (running raised pc).elim

/-- Along attempts each begun when the one before allowed, the `k`-th after an
attempt begins at least `k` times `min 1 HEARTBEAT_INTERVAL` after it. -/
theorem spaced_getElem? : ∀ {attempts : List Attempt},
    attempts.Chain' (fun a b => StartsAfter interval a b.t0) → (∀ a ∈ attempts, a.t0 ≤ a.finish) →
      ∀ (i k : Nat) (a b : Attempt), attempts[i]? = some a → attempts[i + k]? = some b →
        a.t0 + k * min 1 interval ≤ b.t0
  | [], _, _, _, _, _, _, first, _ => by simp at first
  | x :: rest, chain, ordered, 0, 0, a, b, first, second => by
      simp only [Nat.add_zero, first, Option.some.injEq] at second
      subst second
      simp
  | [_], _, _, 0, _ + 1, _, _, _, second => by simp at second
  | x :: rest@(y :: _), chain, ordered, 0, k + 1, a, b, first, second => by
      simp only [List.getElem?_cons_zero, Option.some.injEq] at first
      subst first
      rw [Nat.zero_add, List.getElem?_cons_succ] at second
      have step := t0_add_le interval (ordered x (List.mem_cons_self _ _))
        (List.chain'_cons.mp chain).1
      have later := spaced_getElem? (List.chain'_cons'.mp chain).2
        (fun c member => ordered c (List.mem_cons_of_mem _ member)) 0 k y b List.getElem?_cons_zero
        (by simpa using second)
      push_cast
      linarith
  | x :: rest, chain, ordered, i + 1, k, a, b, first, second => by
      rw [List.getElem?_cons_succ] at first
      rw [Nat.add_right_comm, List.getElem?_cons_succ] at second
      exact spaced_getElem? (List.chain'_cons'.mp chain).2
        (fun c member => ordered c (List.mem_cons_of_mem _ member)) i k a b first second

end HeartbeatLoop

open HeartbeatLoop

variable {interval begin : ℚ} {l : HeartbeatLoop} {history : List Attempt}

theorem LoopRun.invariant (ran : LoopRun interval (start begin) l history) :
    LoopInvariant interval begin l history := by
  induction ran with
  | here => exact start_invariant interval begin
  | step _ admissible stepped inductionHypothesis => exact inductionHypothesis.step admissible stepped

/-- Over every run of `_run_heartbeat_loop`, each attempt begins no earlier than
the one before allowed: a second after a reply with a cancel event, otherwise
`HEARTBEAT_INTERVAL` after the one before began and not before it ended; none
follows `ClientClosed`. So `k` attempts on, at least `k` times
`min 1 HEARTBEAT_INTERVAL` has passed. -/
theorem heartbeats_spaced (ran : LoopRun interval (start begin) l history) :
    history.Chain' (fun a b => a.result ≠ .clientClosed ∧ nextStart interval a ≤ b.t0) ∧
      ∀ i j a b, i < j → history[i]? = some a → history[j]? = some b →
        a.t0 + (j - i : ℕ) * min 1 interval ≤ b.t0 := by
  have inv := ran.invariant
  refine ⟨inv.chain, fun i j a b before first second => ?_⟩
  exact spaced_getElem? inv.chain inv.ordered i (j - i) a b first
    (by rwa [Nat.add_sub_cancel' before.le])

theorem reply_with_cancel_event_then_next :
    ∃ l history, LoopRun 15 (start 0) l history ∧ history.map (·.t0) = [0, 3] ∧
      history.Chain' (fun a b => a.result ≠ .clientClosed ∧ nextStart 15 a ≤ b.t0) ∧
      ∀ i j a b, i < j → history[i]? = some a → history[j]? = some b →
        a.t0 + (j - i : ℕ) * min 1 (15 : ℚ) ≤ b.t0 := by
  obtain ⟨l, ran⟩ : ∃ l, LoopRun 15 (start 0) l
      [⟨0, 2, .returned true, none⟩, ⟨3, 4, .returned false, none⟩] :=
    LoopRun.of_run [.attemptEnds (.returned true) 2, .wakes 3, .attemptEnds (.returned false) 4]
      (by norm_num [HeartbeatLoop.run, HeartbeatLoop.step, Admissible, LoopEvent.now, start,
        timeUntilNextHeartbeat])
  exact ⟨l, _, ran, rfl, heartbeats_spaced ran⟩

/-- A failed heartbeat logs the trouble warning exactly when the loop began, and
every reply before it came back, more than fifty intervals before it failed;
an answered or closed heartbeat never logs it. -/
theorem trouble_warning_iff_no_recent_reply (ran : LoopRun interval (start begin) l history) :
    ∀ (i : Nat) (a : Attempt), history[i]? = some a → (a.troubleWarning ≠ none ↔
      a.result = .failed ∧ begin + interval * 50 < a.finish ∧
        ∀ b ∈ history.take i, b.Replied → b.finish + interval * 50 < a.finish) :=
  ran.invariant.warned

theorem failing_for_an_hour_warns :
    ∃ l, LoopRun 1 (start 0) l [⟨0, 60, .failed, some 60⟩] ∧
      ∀ (i : Nat) (a : Attempt), [(⟨0, 60, .failed, some 60⟩ : Attempt)][i]? = some a →
        (a.troubleWarning ≠ none ↔ a.result = .failed ∧ 0 + 1 * 50 < a.finish ∧
          ∀ b ∈ [(⟨0, 60, .failed, some 60⟩ : Attempt)].take i, b.Replied → b.finish + 1 * 50 < a.finish) := by
  obtain ⟨l, ran⟩ : ∃ l, LoopRun 1 (start 0) l [⟨0, 60, .failed, some 60⟩] :=
    LoopRun.of_run [.attemptEnds .failed 60]
      (by norm_num [HeartbeatLoop.run, HeartbeatLoop.step, Admissible, LoopEvent.now, start,
        timeUntilNextHeartbeat, troubleWarning])
  exact ⟨l, ran, trouble_warning_iff_no_recent_reply ran⟩

/-- The loop leaves `while 1` by `break` exactly after an attempt that raised
`ClientClosed`: no failed or answered heartbeat ends it. -/
theorem loop_breaks_only_on_client_closed (ran : LoopRun interval (start begin) l history) :
    l.pc = .exited false ↔ ∃ a ∈ history.getLast?, a.result = .clientClosed := by
  have agrees := ran.invariant.pc
  unfold PcAgrees at agrees
  cases pc : l.pc with
  | attempting t0 =>
      simp only [pc] at agrees
      simp only [reduceCtorEq, false_iff, not_exists, not_and]
      exact fun a last => (agrees.2 a last).1
  | sleeping wake =>
      simp only [pc] at agrees
      obtain ⟨a, last, continues, -⟩ := agrees
      simp only [reduceCtorEq, false_iff, not_exists, not_and]
      exact fun b last' => Option.mem_unique last last' ▸ continues
  | exited raised =>
      simp only [pc] at agrees
      simpa only [LoopPc.exited.injEq] using agrees

end ContainerIO
