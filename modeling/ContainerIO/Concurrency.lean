import ContainerIO.FetchInvariant

/-!
# Closing the slots and overriding the concurrency

What whole runs of `run_inputs_outputs` guarantee about `InputSlots.close`,
which `run_inputs_outputs` awaits last, and about `set_input_concurrency`,
which stops `_dynamic_concurrency_loop` from changing `value` again.
-/

namespace ContainerIO

open FetchState

variable {cfg : FetchConfig} {s s' : FetchState}

/-- Once the stop flag is set it stays set, and no step but
`set_input_concurrency` changes `value`: the loop checks the flag after its
request returns. -/
theorem stopped_step {e : FetchEvent} (stopped : s.stopConcurrencyLoop = true)
    (stepped : fetchStep cfg s e = some s')
    (notOverride : ∀ concurrency, e ≠ .setInputConcurrency concurrency) :
    s'.stopConcurrencyLoop = true ∧ s'.slots.value = s.slots.value := by
  cases e
  case setInputConcurrency concurrency => exact absurd rfl (notOverride concurrency)
  case concurrencyReply concurrency =>
    simp only [fetchStep] at stepped
    split at stepped
    · split at stepped
      · rename_i guard
        simp [stopped] at guard
      · cases stepped
        exact ⟨stopped, rfl⟩
    · cases stepped
  case exitContext ref =>
    simp only [fetchStep, Option.map_eq_some'] at stepped
    obtain ⟨ctx, -, rfl⟩ := stepped
    simp only [FetchState.exitContext]
    split <;> simp [release_eq, InputSlots.release, stopped]
  -- The other steps touch the slots only through `acquire`, `release` and the
  -- start of `close`, none of which changes `value`, and leave the flag alone.
  all_goals
    simp only [fetchStep] at stepped
    rcases InputSlots.acquire_cases s.slots with ⟨-, result⟩ | ⟨-, -, result⟩ | ⟨-, -, result⟩ <;>
      (try simp only [result] at stepped) <;> (repeat' split at stepped) <;> (try cases stepped) <;>
      simp [stopped, release_eq, InputSlots.release, InputSlots.closeStart]

theorem stopped_run : ∀ {s s' : FetchState} {events : List FetchEvent},
    s.stopConcurrencyLoop = true → fetchRun cfg s events = some s' →
    (∀ e ∈ events, ∀ concurrency, e ≠ .setInputConcurrency concurrency) →
    s'.slots.value = s.slots.value
  | _, _, [], _, ran, _ => by cases ran; rfl
  | _, _, e :: rest, stopped, ran, noOverride => by
      obtain ⟨next, -, stepped, ran⟩ := fetchRun_cons ran
      obtain ⟨stillStopped, same⟩ :=
        stopped_step stopped stepped (noOverride e (List.mem_cons_self _ _))
      rw [stopped_run stillStopped ran fun e member => noOverride e (List.mem_cons_of_mem _ member),
        same]

/-- After `set_input_concurrency(concurrency)`, `value` is `min(concurrency,
max_concurrency)` (unless the slots were already closed) and stays so until
the next `set_input_concurrency`, whatever the dynamic loop receives, also a
reply that was in flight when the override came. -/
theorem override_kept {concurrency : Int} {overridden : FetchState} {events : List FetchEvent}
    (override : fetchStep cfg s (.setInputConcurrency concurrency) = some overridden)
    (ran : fetchRun cfg overridden events = some s')
    (noOverride : ∀ e ∈ events, ∀ concurrency, e ≠ .setInputConcurrency concurrency) :
    s'.slots.value = overridden.slots.value ∧
      overridden.slots.value =
        if s.slots.closed then s.slots.value else min concurrency cfg.maxConcurrency := by
  cases override
  refine ⟨stopped_run rfl ran noOverride, ?_⟩
  unfold InputSlots.setValue
  split <;> simp [*]

/-- A function whose concurrency the dynamic loop adjusts between 2 and 4. -/
def dynamicConfig : FetchConfig :=
  ⟨⟨false, 4, 2, 0⟩, [("", ⟨"f", ["x"]⟩)], 0⟩

/-- The dynamic loop with its request in flight. -/
def awaitingReply : FetchState := { FetchState.init dynamicConfig with loop := .awaiting }

/-- The override to one slot lands while the loop's request is in flight; the
reply of 3 that follows is dropped. -/
theorem override_survives_inflight_reply :
    ∃ overridden s', fetchStep dynamicConfig awaitingReply (.setInputConcurrency 1) = some overridden ∧
      fetchRun dynamicConfig overridden
        [.concurrencyReply 3, .concurrencyWake, .concurrencyFetch] = some s' ∧
      s'.slots.value = overridden.slots.value ∧ overridden.slots.value =
        if awaitingReply.slots.closed then awaitingReply.slots.value
        else min 1 dynamicConfig.maxConcurrency := by
  have whole : fetchRun dynamicConfig awaitingReply [.setInputConcurrency 1, .concurrencyReply 3,
      .concurrencyWake, .concurrencyFetch] = some _ := rfl
  obtain ⟨overridden, -, override, ran⟩ := fetchRun_cons whole
  exact ⟨overridden, _, override, ran, override_kept override ran (by simp)⟩

/-- When `close` began with a positive `value`, it returns only after every
other holder released: no live context remains and `active` counts exactly the
slots `close` acquired. -/
theorem close_drains_holders (reach : FetchReachable cfg s) {total : Nat}
    (finished : s.phase = .finished total) (positive : 0 < total) :
    s.live = [] ∧ s.slots.active = total := by
  have acc := reach.invariant.accounting
  obtain ⟨-, total_eq, -, bound⟩ := acc.closing total total (by simp [finished])
  have count := acc.active_eq
  simp only [finished, FetchPhase.holding, FetchPhase.closeHeld] at count
  have full := bound positive
  have drained : s.live.length = 0 := by omega
  exact ⟨List.length_eq_zero.mp drained, by omega⟩

def singleInputResponse : FunctionGetInputsResponse :=
  ⟨0, [⟨"in-1", 0, "fc-1", ⟨.args [], "", false⟩, false⟩]⟩

/-- The input still runs when `close` begins; `close` parks until it exits. -/
theorem close_waits_for_input :
    ∃ s, FetchReachable singleInputConfig s ∧ s.phase = .finished 1 ∧
      s.live = [] ∧ s.slots.active = 1 := by
  obtain ⟨s, reach, finished⟩ := FetchReachable.of_run singleInputConfig
    [.fetch, .getInputs singleInputResponse, .create (fun _ => none), .resume, .closeStep,
      .closeStep, .exitContext 0, .closeStep] (·.phase) (.finished 1) (by decide)
  exact ⟨s, reach, finished, close_drains_holders reach finished (by decide)⟩

/-- With the concurrency set to 0 while the single input runs, `close` loops
over `range(0)`, and `run_inputs_outputs` returns while that input still holds
its slot. -/
theorem close_returns_while_input_holds_slot :
    ∃ s, FetchReachable singleInputConfig s ∧ s.phase = .finished 0 ∧ s.live.length = 1 ∧
      s.slots.active = 1 := by
  obtain ⟨s, reach, summary⟩ := FetchReachable.of_run singleInputConfig
    [.fetch, .getInputs singleInputResponse, .create (fun _ => none), .setInputConcurrency 0,
      .resume, .closeStep, .closeStep]
    (fun s => (s.phase, s.live.length, s.slots.active)) (.finished 0, 1, 1) (by decide)
  simp only [Prod.mk.injEq] at summary
  exact ⟨s, reach, summary.1, summary.2.1, summary.2.2⟩

end ContainerIO
