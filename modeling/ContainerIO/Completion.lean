import ContainerIO.Container

/-!
# What the environment can still bring about

The safety results say what no run does; here is what some continuation does.
Once the user call has ended, the task of a context waits only on its own
uploads and `FunctionPutOutputs` replies, and when they complete it reaches
`exit_context`, which pops the context's ids and releases its slot; the user
call itself may always end by raising, which sends the task down the catch-all
branch. So from every reachable state a live context can still be exited
exactly when its task has not left its block by raising (a task that has keeps
the context live for good, `Coupled.run_raised`).

Draining the contexts one by one this way, and stopping the generator,
`run_inputs_outputs` can then return: with no context left, `close` gets every
slot it asks for. Two things stop it: a task that raised, and a generator that
`IOContext.create` failed. The slots are closed only by `close`
(`FetchReachable.closed_pastClose`), so a generator parked with no context left
is woken by `set_input_concurrency`.
-/

namespace ContainerIO

namespace FetchConfig

theorem one_le_maxConcurrency (cfg : FetchConfig) : 1 ≤ cfg.maxConcurrency := by
  unfold maxConcurrency
  split_ifs <;> omega

end FetchConfig

namespace FetchPhase

/-- The loop of `close` has begun, or `run_inputs_outputs` has failed. -/
def PastClose : FetchPhase → Prop
  | .closing _ _ | .closeParked _ _ | .finished _ | .failed => True
  | _ => False

/-- No context is on its way to the consumer, and `run_inputs_outputs` has not failed. -/
def Settled : FetchPhase → Prop
  | .creating _ _ | .delivered _ | .abandoned | .failed => False
  | _ => True

@[simp] theorem pastClose_woken (phase : FetchPhase) : phase.woken.PastClose ↔ phase.PastClose := by
  cases phase <;> simp [PastClose]

@[simp] theorem woken_woken (phase : FetchPhase) : phase.woken.woken = phase.woken := by
  cases phase <;> rfl

theorem Settled.woken {phase : FetchPhase} (settled : phase.Settled) : phase.woken.Settled := by
  cases phase <;> simp_all [Settled]

end FetchPhase

namespace FetchState

variable {cfg : FetchConfig} {s s' s'' : FetchState}

@[simp] theorem pastClose_wake (result : Bool × InputSlots) :
    (s.wake result).phase.PastClose ↔ s.phase.PastClose := by
  rw [wake_phase]
  split
  · exact FetchPhase.pastClose_woken _
  · exact Iff.rfl

/-- Only the start of `close` closes the slots, and once `close` has begun, or
`run_inputs_outputs` has failed, no step goes back. -/
theorem pastClose_step {e : FetchEvent} (past : s.slots.closed = true → s.phase.PastClose)
    (stepped : fetchStep cfg s e = some s') : s'.slots.closed = true → s'.phase.PastClose := by
  cases e
  case exitContext ref =>
    simp only [fetchStep, Option.map_eq_some'] at stepped
    obtain ⟨ctx, -, rfl⟩ := stepped
    unfold exitContext
    dsimp only
    split <;> simpa [release_eq, -wake_phase] using past
  case setInputConcurrency concurrency =>
    cases stepped
    simpa [-wake_phase] using past
  case concurrencyReply concurrency =>
    simp only [fetchStep] at stepped
    split at stepped
    · split at stepped <;> cases stepped <;> simpa [-wake_phase] using past
    · cases stepped
  all_goals
    simp only [fetchStep] at stepped
    (repeat' split at stepped) <;> (try cases stepped)
  all_goals
    have := InputSlots.acquire_closed s.slots
    simp_all [FetchPhase.PastClose, release_eq, leave, InputSlots.closeStart, -wake_phase]

theorem FetchReachable.closed_pastClose (reach : FetchReachable cfg s) :
    s.slots.closed = true → s.phase.PastClose := by
  induction reach with
  | init => simp [init, InputSlots.init]
  | step _ _ stepped inductionHypothesis => exact pastClose_step inductionHypothesis stepped

/-- What the consumers' `exit_context` calls do to the fetch side: drop live
contexts and release their slots, which may wake the parked task. -/
structure Released (s s' : FetchState) : Prop where
  live : s'.live.Sublist s.live
  phase : s'.phase = s.phase ∨ s'.phase = s.phase.woken
  fetchingInputs : s'.fetchingInputs = s.fetchingInputs
  closed : s'.slots.closed = s.slots.closed

theorem Released.refl (s : FetchState) : Released s s :=
  ⟨List.Sublist.refl _, .inl rfl, rfl, rfl⟩

theorem Released.trans (first : Released s s') (second : Released s' s'') : Released s s'' where
  live := second.live.trans first.live
  phase := by
    rcases second.phase with later | later <;> rw [later] <;>
      rcases first.phase with earlier | earlier <;> rw [earlier] <;> simp [-FetchPhase.woken]
  fetchingInputs := second.fetchingInputs.trans first.fetchingInputs
  closed := second.closed.trans first.closed

theorem released_exitContext (ref : Nat) (ctx : IOContext) : Released s (s.exitContext ref ctx) := by
  unfold exitContext
  dsimp only
  split
  · refine ⟨List.filter_sublist _, ?_, rfl, by simp [release_eq, InputSlots.release]⟩
    simp only [release_eq, wake_phase]
    split <;> simp [-FetchPhase.woken]
  · exact ⟨List.filter_sublist _, .inl rfl, rfl, rfl⟩

section Transitions

/-! The steps the continuations below take, each from the phase that enables it. -/

theorem fetchStep_exitContext {ref : Nat} {ctx : IOContext} (found : s.live.lookup ref = some ctx) :
    fetchStep cfg s (.exitContext ref) = some (s.exitContext ref ctx) := by
  simp [fetchStep, found]

theorem fetchStep_fetch_stopped (phase : s.phase = .loopHead) (stopped : s.fetchingInputs = false) :
    fetchStep cfg s .fetch = some { s with phase := .returned } := by
  simp [fetchStep, phase, stopped]

/-- An empty `FunctionGetInputs` reply with no rate limit. -/
theorem fetchStep_getInputs_empty (phase : s.phase = .requesting) :
    fetchStep cfg s (.getInputs ⟨0, []⟩) = some { s.release with phase := .loopHead } := by
  simp [fetchStep, phase]

theorem admissible_getInputs_empty : s.Admissible (.getInputs ⟨0, []⟩) := by
  simp [Admissible, FreshBatch, collectInputs]

theorem fetchStep_wakeUp (phase : s.phase = .sleeping) :
    fetchStep cfg s .wakeUp = some { s.release with phase := .loopHead } := by
  simp [fetchStep, phase]

theorem fetchStep_setInputConcurrency (concurrency : Int) :
    fetchStep cfg s (.setInputConcurrency concurrency) = some
      ({ s with stopConcurrencyLoop := true }.wake (s.slots.setValue (min concurrency cfg.maxConcurrency))) :=
  rfl

theorem fetchStep_closeStep_returned (phase : s.phase = .returned) :
    fetchStep cfg s .closeStep = some { s with
      slots := s.slots.closeStart.2
      phase := .closing 0 s.slots.closeStart.1 } := by
  simp [fetchStep, phase]

theorem fetchStep_closeStep_granted {acquired total : Nat} (phase : s.phase = .closing acquired total)
    (below : acquired < total) (free : s.slots.active < s.slots.value) :
    fetchStep cfg s .closeStep = some { s with
      slots := { s.slots with active := s.slots.active + 1 }
      phase := .closing (acquired + 1) total } := by
  simp [fetchStep, phase, below, InputSlots.acquire, free]

theorem fetchStep_closeStep_done {acquired total : Nat} (phase : s.phase = .closing acquired total)
    (done : ¬acquired < total) : fetchStep cfg s .closeStep = some (s.leave (.finished total)) := by
  simp [fetchStep, phase, done]

end Transitions

end FetchState

open FetchState

namespace InputTask

variable {Value : Type} {codec : Codec Value} {maxObjectSizeBytes : Nat}
  {describe : PyError → RaisedException} {t : InputTask Value}

/-- `exit_context` has run and the block was left normally, or `_push_outputs`
has requests to await before it runs. -/
def Pushing (t : InputTask Value) : Prop :=
  t.exits = 1 ∧ t.pc = .left false ∨ t.exits = 0 ∧ ∃ status pending, t.pc = .putOutputs status pending

/-- The block waits on nothing but the task's own uploads and pushes. -/
def Completing (t : InputTask Value) : Prop :=
  t.Pushing ∨ t.exits = 0 ∧ ∃ exc, t.pc = .failureUpload exc

theorem Pushing.not_raised (pushing : t.Pushing) : t.pc ≠ .left true := by
  rcases pushing with ⟨-, pc⟩ | ⟨-, _, _, pc⟩ <;> simp [pc]

theorem Completing.not_raised (completing : t.Completing) : t.pc ≠ .left true := by
  rcases completing with pushing | ⟨-, _, pc⟩
  · exact pushing.not_raised
  · simp [pc]

theorem pushing_sendNext (unexited : t.exits = 0) (status : ResultStatus)
    (requests : List (List FunctionPutOutputsItem)) : (t.sendNext status requests).Pushing := by
  cases requests with
  | nil => exact .inl ⟨by simp [sendNext, exitContext, unexited], rfl⟩
  | cons request pending => exact .inr ⟨unexited, status, pending, rfl⟩

/-- The catch-all branch pushes its `FAILURE` outputs, after uploading an
oversized exception. -/
theorem completing_catchAll (unexited : t.exits = 0) (exc : RaisedException) (now : Nat) :
    (t.catchAll maxObjectSizeBytes exc now).Completing := by
  unfold catchAll
  split_ifs
  · exact .inr ⟨unexited, exc, rfl⟩
  · exact .inl (pushing_sendNext (by exact unexited) _ _)

theorem step_awaited_putOutputs {status : ResultStatus} {pending : List (List FunctionPutOutputsItem)}
    (pc : t.pc = .putOutputs status pending) (now : Nat) :
    t.step codec maxObjectSizeBytes describe (.awaited now) = some (t.sendNext status pending) := by
  simp [step, pc]

theorem step_awaited_failureUpload (unexited : t.exits = 0) {exc : RaisedException}
    (pc : t.pc = .failureUpload exc) (now : Nat) :
    ∃ t', t.step codec maxObjectSizeBytes describe (.awaited now) = some t' ∧ t'.Pushing := by
  simp only [step, pc]
  exact ⟨_, rfl, pushing_sendNext (by exact unexited) _ _⟩

/-- The `asyncio.gather` of `format_blob_data` completes: the `SUCCESS` push
starts, or the failure of `_format_data` goes to the catch-all branch. -/
theorem step_awaited_formatting (unexited : t.exits = 0) {data : Value}
    (pc : t.pc = .formatting data) (now : Nat) :
    ∃ t', t.step codec maxObjectSizeBytes describe (.awaited now) = some t' ∧ t'.Completing := by
  simp only [step, pc]
  split
  · exact ⟨_, rfl, .inl (pushing_sendNext (by exact unexited) _ _)⟩
  · exact ⟨_, rfl, completing_catchAll unexited _ _⟩

theorem step_userRaises_other (unexited : t.exits = 0) (pc : t.pc = .userCall)
    (exc : RaisedException) (now : Nat) :
    ∃ t', t.step codec maxObjectSizeBytes describe (.userRaises (.other exc) now) = some t' ∧
      t'.Completing := by
  simp only [step, pc]
  exact ⟨_, rfl, completing_catchAll unexited _ _⟩

end InputTask

namespace Container

variable {Value : Type} {cfg : FetchConfig} {codec : Codec Value} {maxObjectSizeBytes : Nat}
  {describe : PyError → RaisedException} {c c' c'' : Container Value} {ref : Nat}

section Consumers

variable (cfg codec maxObjectSizeBytes describe)

/-- A continuation by the consumers alone, the tasks' own steps and the
entrypoint's spawns: it raises in no task and moves the fetch side only by
`exit_context`. -/
structure Consumed (c c' : Container Value) : Prop where
  run : ContainerRun cfg codec maxObjectSizeBytes describe c c'
  raised : ∀ entry ∈ c'.tasks, entry.2.pc = .left true → entry ∈ c.tasks
  fetch : Released c.fetch c'.fetch

/-- Some continuation by the consumers runs the `exit_context` of the context
numbered `ref`. -/
def CanExit (c : Container Value) (ref : Nat) : Prop :=
  ∃ c', Consumed cfg codec maxObjectSizeBytes describe c c' ∧ ref ∉ c'.fetch.live.map Prod.fst

theorem Consumed.refl (c : Container Value) : Consumed cfg codec maxObjectSizeBytes describe c c :=
  ⟨.here, fun _ member _ => member, .refl _⟩

variable {cfg codec maxObjectSizeBytes describe}

theorem Consumed.trans (first : Consumed cfg codec maxObjectSizeBytes describe c c')
    (second : Consumed cfg codec maxObjectSizeBytes describe c' c'') :
    Consumed cfg codec maxObjectSizeBytes describe c c'' :=
  ⟨first.run.trans second.run, fun entry member raised => first.raised entry (second.raised entry member raised) raised,
    first.fetch.trans second.fetch⟩

theorem CanExit.of_consumed (later : CanExit cfg codec maxObjectSizeBytes describe c' ref)
    (first : Consumed cfg codec maxObjectSizeBytes describe c c') :
    CanExit cfg codec maxObjectSizeBytes describe c ref :=
  let ⟨c'', second, exited⟩ := later
  ⟨c'', first.trans second, exited⟩

/-- A step of the task of a live context, other than a heartbeat, is a step of
the container; on `exit_context` the fetch side pops the context. -/
theorem Coupled.task_step (coupled : c.Coupled cfg) {t t' : InputTask Value}
    (member : (ref, t) ∈ c.tasks) (unexited : t.exits = 0) {e : InputEvent Value}
    (notHeartbeat : ∀ inputIds now, e ≠ .heartbeatCancel inputIds now)
    (stepped : ({ t with store := c.store } : InputTask Value).step codec maxObjectSizeBytes describe e = some t')
    (stays : t'.pc ≠ .left true) :
    ∃ c', Consumed cfg codec maxObjectSizeBytes describe c c' ∧ (ref, t') ∈ c'.tasks ∧ c'.Coupled cfg := by
  have placed : (ref, t') ∈ setTask c.tasks ref t' := List.mem_map.mpr ⟨(ref, t), member, by simp⟩
  have raised : ∀ entry ∈ setTask c.tasks ref t', entry.2.pc = .left true → entry ∈ c.tasks :=
    fun entry kept left => ((mem_setTask kept).resolve_left fun same => stays (by subst same; exact left)).2
  obtain ⟨fetch, moved, released⟩ : ∃ fetch, c.taskStep cfg codec maxObjectSizeBytes describe ref e =
      some ⟨fetch, setTask c.tasks ref t', t'.store⟩ ∧ Released c.fetch fetch := by
    simp only [Container.taskStep, lookup_of_mem coupled.refs_nodup member, stepped, Option.some_bind]
    split_ifs
    · exact ⟨c.fetch, rfl, .refl _⟩
    · obtain ⟨⟨ref, ctx⟩, live, rfl⟩ := List.mem_map.mp ((coupled.live_iff _ member).mpr unexited)
      exact ⟨c.fetch.exitContext ref ctx,
        by simp [fetchStep_exitContext (coupled.reach.invariant.registry.lookup_of_mem live)],
        released_exitContext ref ctx⟩
  have step : c.step cfg codec maxObjectSizeBytes describe (.task ref e) =
      some ⟨fetch, setTask c.tasks ref t', t'.store⟩ := by
    cases e
    case heartbeatCancel inputIds now => exact absurd rfl (notHeartbeat inputIds now)
    all_goals exact moved
  exact ⟨_, ⟨.step .here (by trivial) step, raised, released⟩, placed, coupled.step (by trivial) step⟩

/-- The entrypoint starts the task of a yielded context. -/
theorem Coupled.spawn_step (coupled : c.Coupled cfg) {ctx : IOContext}
    (live : (ref, ctx) ∈ c.fetch.live) (unstarted : c.tasks.lookup ref = none) :
    ∃ c', Consumed cfg codec maxObjectSizeBytes describe c c' ∧
      (ref, .init ctx 0 .pickle c.store) ∈ c'.tasks ∧ c'.Coupled cfg := by
  have step : c.step cfg codec maxObjectSizeBytes describe (.spawn ref 0 .pickle) =
      some { c with tasks := c.tasks ++ [(ref, .init ctx 0 .pickle c.store)] } := by
    simp [Container.step, coupled.reach.invariant.registry.lookup_of_mem live, unstarted]
  refine ⟨_, ⟨.step .here (by trivial) step, fun entry member raised => ?_, .refl _⟩, by simp,
    coupled.step (by trivial) step⟩
  rcases List.mem_append.mp member with old | fresh
  · exact old
  · simp only [List.mem_singleton] at fresh
    simp [fresh, InputTask.init] at raised

theorem Coupled.canExit_of_exited (coupled : c.Coupled cfg) {t : InputTask Value}
    (member : (ref, t) ∈ c.tasks) (exited : t.exits = 1) :
    CanExit cfg codec maxObjectSizeBytes describe c ref :=
  ⟨c, .refl _ _ _ _ _, fun live => absurd ((coupled.live_iff _ member).mp live) (by simp [exited])⟩

/-- The replies to the remaining `FunctionPutOutputs` requests complete, one
after another, and `exit_context` follows the last. -/
theorem Coupled.canExit_putOutputs {status : ResultStatus} :
    ∀ {pending : List (List FunctionPutOutputsItem)} {c : Container Value} {t : InputTask Value},
      c.Coupled cfg → (ref, t) ∈ c.tasks → t.exits = 0 → t.pc = .putOutputs status pending →
      CanExit cfg codec maxObjectSizeBytes describe c ref
  | [], c, t, coupled, member, unexited, pc => by
      have pushing := InputTask.pushing_sendNext (t := { t with store := c.store }) unexited status []
      obtain ⟨c', consumed, member', coupled'⟩ := coupled.task_step member unexited (by simp)
        (InputTask.step_awaited_putOutputs (t := { t with store := c.store }) pc 0) pushing.not_raised
      exact (coupled'.canExit_of_exited member' (by simp [InputTask.sendNext, InputTask.exitContext,
        unexited])).of_consumed consumed
  | _ :: _, c, t, coupled, member, unexited, pc => by
      obtain ⟨c', consumed, member', coupled'⟩ := coupled.task_step member unexited (by simp)
        (InputTask.step_awaited_putOutputs (t := { t with store := c.store }) pc 0) (by simp [InputTask.sendNext])
      exact (coupled'.canExit_putOutputs member' unexited rfl).of_consumed consumed

theorem Coupled.canExit_of_pushing (coupled : c.Coupled cfg) {t : InputTask Value}
    (member : (ref, t) ∈ c.tasks) (pushing : t.Pushing) :
    CanExit cfg codec maxObjectSizeBytes describe c ref := by
  rcases pushing with ⟨exited, -⟩ | ⟨unexited, status, pending, pc⟩
  · exact coupled.canExit_of_exited member exited
  · exact coupled.canExit_putOutputs member unexited pc

theorem Coupled.canExit_of_completing (coupled : c.Coupled cfg) {t : InputTask Value}
    (member : (ref, t) ∈ c.tasks) (completing : t.Completing) :
    CanExit cfg codec maxObjectSizeBytes describe c ref := by
  rcases completing with pushing | ⟨unexited, exc, pc⟩
  · exact coupled.canExit_of_pushing member pushing
  · obtain ⟨t', stepped, pushing⟩ :=
      InputTask.step_awaited_failureUpload (t := { t with store := c.store }) unexited pc 0
    obtain ⟨c', consumed, member', coupled'⟩ :=
      coupled.task_step member unexited (by simp) stepped pushing.not_raised
    exact (coupled'.canExit_of_pushing member' pushing).of_consumed consumed

/-- Unless the task has left its block by raising, its context can be exited:
the user call raises, or what it awaits completes, and the outputs are pushed. -/
theorem Coupled.canExit_of_task (coupled : c.Coupled cfg) {t : InputTask Value}
    (member : (ref, t) ∈ c.tasks) (notRaised : t.pc ≠ .left true) :
    CanExit cfg codec maxObjectSizeBytes describe c ref := by
  have progress := coupled.progress _ member
  cases pc : t.pc with
  | userCall =>
      simp only [InputTask.Progress, pc] at progress
      obtain ⟨t', stepped, completing⟩ := InputTask.step_userRaises_other (t := { t with store := c.store })
        progress.1 pc failingCall 0
      obtain ⟨c', consumed, member', coupled'⟩ :=
        coupled.task_step member progress.1 (by simp) stepped completing.not_raised
      exact (coupled'.canExit_of_completing member' completing).of_consumed consumed
  | formatting data =>
      simp only [InputTask.Progress, pc] at progress
      obtain ⟨t', stepped, completing⟩ :=
        InputTask.step_awaited_formatting (t := { t with store := c.store }) progress.1 pc 0
      obtain ⟨c', consumed, member', coupled'⟩ :=
        coupled.task_step member progress.1 (by simp) stepped completing.not_raised
      exact (coupled'.canExit_of_completing member' completing).of_consumed consumed
  | failureUpload exc =>
      simp only [InputTask.Progress, pc] at progress
      exact coupled.canExit_of_completing member (.inr ⟨progress.1, exc, pc⟩)
  | putOutputs status pending =>
      simp only [InputTask.Progress, pc] at progress
      exact coupled.canExit_putOutputs member progress.1 pc
  | left raised =>
      cases raised
      · simp only [InputTask.Progress, pc, if_false] at progress
        exact coupled.canExit_of_exited member progress.1
      · exact absurd pc notRaised

/-- A live context whose task, if started, has not left its block by raising
can be exited; an unstarted one is first handed to a task. -/
theorem Coupled.canExit_of_live (coupled : c.Coupled cfg) {ctx : IOContext}
    (live : (ref, ctx) ∈ c.fetch.live) (notRaised : ∀ t, (ref, t) ∈ c.tasks → t.pc ≠ .left true) :
    CanExit cfg codec maxObjectSizeBytes describe c ref := by
  cases found : c.tasks.lookup ref with
  | none =>
      obtain ⟨c', consumed, member, coupled'⟩ := coupled.spawn_step live found
      exact (coupled'.canExit_of_task member (by simp [InputTask.init])).of_consumed consumed
  | some t => exact coupled.canExit_of_task (mem_of_lookup found) (notRaised t (mem_of_lookup found))

/-- With no task raised, the consumers alone can exit every live context, one
after another. -/
theorem Coupled.drain : ∀ (n : Nat) {c : Container Value}, c.fetch.live.length = n → c.Coupled cfg →
    (∀ entry ∈ c.tasks, entry.2.pc ≠ .left true) →
    ∃ c', Consumed cfg codec maxObjectSizeBytes describe c c' ∧ c'.fetch.live = [] := by
  intro n
  induction n using Nat.strong_induction_on with
  | _ n inductionHypothesis =>
      intro c count coupled noneRaised
      cases live : c.fetch.live with
      | nil => exact ⟨c, .refl _ _ _ _ _, live⟩
      | cons entry rest =>
          obtain ⟨c₁, consumed, exited⟩ : CanExit cfg codec maxObjectSizeBytes describe c entry.1 :=
            coupled.canExit_of_live (show (entry.1, entry.2) ∈ c.fetch.live by simp [live])
              fun t member => noneRaised _ member
          have shorter : c₁.fetch.live.length < n := by
            have sub := consumed.fetch.live
            rcases Nat.lt_or_eq_of_le sub.length_le with fewer | same
            · omega
            · rw [sub.eq_of_length same, live] at exited
              simp at exited
          obtain ⟨c', consumed', drained⟩ := inductionHypothesis _ shorter rfl
            (consumed.run.coupled coupled) fun entry member raised =>
              noneRaised entry (consumed.raised entry member raised) raised
          exact ⟨c', consumed.trans consumed', drained⟩

end Consumers

section Finishing

/-- A step of `run_inputs_outputs` or of the concurrency loop is a step of the container. -/
theorem Coupled.fetch_step (coupled : c.Coupled cfg) {e : FetchEvent} {fetch : FetchState}
    (admissible : c.fetch.Admissible e) (notExit : ∀ ref, e ≠ .exitContext ref)
    (stepped : ContainerIO.fetchStep cfg c.fetch e = some fetch) :
    ContainerRun cfg codec maxObjectSizeBytes describe c { c with fetch } ∧ Coupled cfg { c with fetch } := by
  have step : c.step cfg codec maxObjectSizeBytes describe (.fetch e) = some { c with fetch } := by
    cases e
    case exitContext ref => exact absurd rfl (notExit ref)
    all_goals simp [Container.step, stepped]
  exact ⟨.step .here (show c.Admissible (.fetch e) from admissible) step,
    coupled.fetchStep admissible notExit stepped⟩

variable (cfg codec maxObjectSizeBytes describe) in
/-- Some continuation from `c` has every context exited and `close` returned,
after acquiring at least one slot unless the slots were already closed. -/
def CanFinish (c : Container Value) : Prop :=
  ∃ c', ContainerRun cfg codec maxObjectSizeBytes describe c c' ∧ c'.fetch.live = [] ∧
    ∃ total, c'.fetch.phase = .finished total ∧ (c.fetch.slots.closed = false → 0 < total)

theorem CanFinish.of_run (later : CanFinish cfg codec maxObjectSizeBytes describe c')
    (ran : ContainerRun cfg codec maxObjectSizeBytes describe c c')
    (closed : c'.fetch.slots.closed = c.fetch.slots.closed) :
    CanFinish cfg codec maxObjectSizeBytes describe c :=
  let ⟨c'', ran', drained, total, finished, acquired⟩ := later
  ⟨c'', ran.trans ran', drained, total, finished, closed ▸ acquired⟩

/-- With no context live, each iteration of the loop of `close` is granted its
slot: only the slots `close` acquired are held, fewer than `value`. -/
theorem Coupled.finish_closing : ∀ (k : Nat) {c : Container Value} {acquired total : Nat},
    total - acquired = k → c.Coupled cfg → c.fetch.live = [] → c.fetch.phase = .closing acquired total →
    ∃ c', ContainerRun cfg codec maxObjectSizeBytes describe c c' ∧ c'.fetch.live = [] ∧
      c'.fetch.phase = .finished total
  | k, c, acquired, total, remaining, coupled, drained, phase => by
      have acc := coupled.reach.invariant.accounting
      obtain ⟨-, total_eq, le, -⟩ := acc.closing acquired total (by simp [phase])
      have count := acc.active_eq
      simp only [drained, phase, FetchPhase.holding, FetchPhase.closeHeld, List.length_nil] at count
      cases k with
      | zero =>
          obtain ⟨ran, -⟩ := coupled.fetch_step (e := .closeStep) trivial (by simp)
            (fetchStep_closeStep_done phase (by omega))
          exact ⟨_, ran, drained, rfl⟩
      | succ k =>
          obtain ⟨ran, coupled'⟩ := coupled.fetch_step (e := .closeStep) trivial (by simp)
            (fetchStep_closeStep_granted phase (by omega) (by omega))
          obtain ⟨c', ran', drained', finished⟩ := coupled'.finish_closing k (by omega) drained rfl
          exact ⟨c', ran.trans ran', drained', finished⟩

/-- Once the generator has returned, `set_input_concurrency(1)` and then `close`
begins, acquiring one slot unless the slots were already closed. -/
theorem Coupled.finish_returned (coupled : c.Coupled cfg) (drained : c.fetch.live = [])
    (phase : c.fetch.phase = .returned) : CanFinish cfg codec maxObjectSizeBytes describe c := by
  obtain ⟨ran₁, coupled₁⟩ := coupled.fetch_step (e := .setInputConcurrency 1) trivial (by simp)
    (fetchStep_setInputConcurrency 1)
  obtain ⟨ran₂, coupled₂⟩ := coupled₁.fetch_step (e := .closeStep) trivial (by simp)
    (fetchStep_closeStep_returned (by simp [phase]))
  obtain ⟨c', ran', drained', finished⟩ := coupled₂.finish_closing _ rfl drained rfl
  refine ⟨c', ran₁.trans (ran₂.trans ran'), drained', _, finished, fun opened => ?_⟩
  have one := cfg.one_le_maxConcurrency
  simp [InputSlots.closeStart, InputSlots.setValue, opened, min_eq_left one]

/-- The generator at the loop head with fetching stopped returns. -/
theorem Coupled.finish_loopHead (coupled : c.Coupled cfg) (drained : c.fetch.live = [])
    (stopped : c.fetch.fetchingInputs = false) (phase : c.fetch.phase = .loopHead) :
    CanFinish cfg codec maxObjectSizeBytes describe c := by
  obtain ⟨ran, coupled'⟩ := coupled.fetch_step (e := .fetch) trivial (by simp)
    (fetchStep_fetch_stopped phase stopped)
  exact (coupled'.finish_returned drained rfl).of_run ran rfl

/-- The generator holding its slot goes back to the loop head, after an empty
`FunctionGetInputs` reply or the end of its rate-limit sleep. -/
theorem Coupled.finish_released (coupled : c.Coupled cfg) (drained : c.fetch.live = [])
    (stopped : c.fetch.fetchingInputs = false) {e : FetchEvent} (admissible : c.fetch.Admissible e)
    (notExit : ∀ ref, e ≠ .exitContext ref)
    (stepped : ContainerIO.fetchStep cfg c.fetch e = some { c.fetch.release with phase := .loopHead }) :
    CanFinish cfg codec maxObjectSizeBytes describe c := by
  obtain ⟨ran, coupled'⟩ := coupled.fetch_step admissible notExit stepped
  exact (coupled'.finish_loopHead drained stopped rfl).of_run ran (by simp [release_eq, InputSlots.release])

/-- A generator parked with no context live is woken by
`set_input_concurrency(1)`: the slots are not closed yet, and none is held. -/
theorem Coupled.finish_parked (coupled : c.Coupled cfg) (drained : c.fetch.live = [])
    (stopped : c.fetch.fetchingInputs = false) (phase : c.fetch.phase = .parked) :
    CanFinish cfg codec maxObjectSizeBytes describe c := by
  have acc := coupled.reach.invariant.accounting
  have opened : c.fetch.slots.closed = false := by
    have past := FetchReachable.closed_pastClose coupled.reach
    cases closed : c.fetch.slots.closed
    · rfl
    · simpa [phase, FetchPhase.PastClose] using past closed
  have idle : c.fetch.slots.active = 0 := by simpa [drained, phase] using acc.active_eq
  have waiting : c.fetch.slots.waiter = true := by simpa [phase] using acc.waiter_eq
  have one := cfg.one_le_maxConcurrency
  have woke : (c.fetch.slots.setValue (min 1 cfg.maxConcurrency)).1 = true := by
    simp [InputSlots.setValue, InputSlots.wakeWaiter, opened, idle, waiting, min_eq_left one]
  obtain ⟨ran, coupled'⟩ := coupled.fetch_step (e := .setInputConcurrency 1) trivial (by simp)
    (fetchStep_setInputConcurrency 1)
  exact (coupled'.finish_released drained stopped admissible_getInputs_empty (by simp)
    (fetchStep_getInputs_empty (by simp [woke, phase]))).of_run ran (by simp)

/-- With no context live and fetching stopped, `run_inputs_outputs` returns from
wherever its generator is. -/
theorem Coupled.finish (coupled : c.Coupled cfg) (drained : c.fetch.live = [])
    (stopped : c.fetch.fetchingInputs = false) (settled : c.fetch.phase.Settled) :
    CanFinish cfg codec maxObjectSizeBytes describe c := by
  have acc := coupled.reach.invariant.accounting
  cases phase : c.fetch.phase with
  | loopHead => exact coupled.finish_loopHead drained stopped phase
  | parked => exact coupled.finish_parked drained stopped phase
  | requesting =>
      exact coupled.finish_released drained stopped admissible_getInputs_empty (by simp)
        (fetchStep_getInputs_empty phase)
  | sleeping =>
      exact coupled.finish_released drained stopped (e := .wakeUp) trivial (by simp) (fetchStep_wakeUp phase)
  | returned => exact coupled.finish_returned drained phase
  | closing acquired total =>
      obtain ⟨closed, -⟩ := acc.closing acquired total (by simp [phase])
      obtain ⟨c', ran, drained', finished⟩ := coupled.finish_closing _ rfl drained phase
      exact ⟨c', ran, drained', total, finished, fun opened => by simp [closed] at opened⟩
  | closeParked acquired total =>
      obtain ⟨-, total_eq, -, -⟩ := acc.closing acquired total (by simp [phase])
      have full := acc.parkedFull (by simpa [phase] using acc.waiter_eq)
      have count := acc.active_eq
      have below := acc.parked_lt acquired total phase
      simp only [drained, phase, FetchPhase.holding, FetchPhase.closeHeld, List.length_nil] at count
      omega
  | finished total =>
      obtain ⟨closed, -⟩ := acc.closing total total (by simp [phase])
      exact ⟨c, .here, drained, total, phase, fun opened => by simp [closed] at opened⟩
  | creating | delivered | abandoned | failed => simp [phase, FetchPhase.Settled] at settled

end Finishing

end Container

open Container

variable {Value : Type} {cfg : FetchConfig} {codec : Codec Value} {maxObjectSizeBytes : Nat}
  {describe : PyError → RaisedException} {c : Container Value}

end ContainerIO
