import ContainerIO.Concurrency

/-!
# What `_generate_inputs` yields

Every context `run_inputs_outputs` yields comes from `IOContext.create` on the
batch the loop over `response.inputs` collected, under the next number, and
`exit_context` is the only other change to the live contexts
(`FetchState.fetchStep_cases`). Over every run, then, each yielded context
carries its arguments inline, and the generator yields nothing more after a
final input, or after the first context of a function with `max_inputs = 1`.
-/

namespace ContainerIO

open FetchState

/-- The generator fetches no more: it has yielded a context after which it
returns (its batch ended with a final input, or the function has
`max_inputs = 1`), it has returned, or `run_inputs_outputs` is closing the
slots or has left. -/
def FetchPhase.Done (cfg : FetchConfig) : FetchPhase → Prop
  | .delivered final => final = true ∨ cfg.functionDef.maxInputs = 1
  | .returned | .closing _ _ | .closeParked _ _ | .finished _ | .failed => True
  | _ => False

instance (cfg : FetchConfig) (phase : FetchPhase) : Decidable (phase.Done cfg) :=
  match phase with
  | .delivered final => inferInstanceAs (Decidable (final = true ∨ cfg.functionDef.maxInputs = 1))
  | .returned | .closing _ _ | .closeParked _ _ | .finished _ | .failed => instDecidableTrue
  | .loopHead | .parked | .requesting | .sleeping | .creating _ _ | .abandoned => instDecidableFalse

variable {cfg : FetchConfig} {s s' : FetchState}

theorem FetchPhase.Done.woken {phase : FetchPhase} (done : phase.Done cfg) : phase.woken.Done cfg := by
  cases phase <;> simp_all [FetchPhase.woken, FetchPhase.Done]

theorem FetchPhase.Done.wake (done : s.phase.Done cfg) (result : Bool × InputSlots) :
    (s.wake result).phase.Done cfg := by
  rw [wake_phase]
  split_ifs
  · exact done.woken
  · exact done

namespace FetchState

theorem exitContext_live (ref : Nat) (ctx : IOContext) :
    (s.exitContext ref ctx).live = s.live.filter (·.1 ≠ ref) ∧
      (s.exitContext ref ctx).nextContext = s.nextContext := by
  unfold exitContext
  dsimp only
  split <;> simp [release_eq]

theorem done_exitContext (done : s.phase.Done cfg) (ref : Nat) (ctx : IOContext) :
    (s.exitContext ref ctx).phase.Done cfg := by
  unfold exitContext
  dsimp only
  split
  · exact FetchPhase.Done.wake done _
  · exact done

/-- What a step does to the contexts: `IOContext.create` completing appends the
context it built under the next number, `exit_context` removes one, and every
other step leaves them, their count and a done generator as they were. -/
theorem fetchStep_cases {e : FetchEvent} (stepped : fetchStep cfg s e = some s') :
    (∃ batch final download ctx, s.phase = .creating batch final ∧
      IOContext.create cfg.finalizedFunctions batch (decide (0 < cfg.batchMaxSize)) download = .ok ctx ∧
      s'.live = s.live ++ [(s.nextContext, ctx)] ∧ s'.nextContext = s.nextContext + 1 ∧
      s'.phase = .delivered final) ∨
    (∃ ref ctx, e = .exitContext ref ∧ s.live.lookup ref = some ctx ∧ s' = s.exitContext ref ctx) ∨
    (s'.live = s.live ∧ s'.nextContext = s.nextContext ∧ (s.phase.Done cfg → s'.phase.Done cfg)) := by
  cases e
  case create download =>
    simp only [fetchStep] at stepped
    split at stepped
    · next batch final creating =>
        split at stepped <;> cases stepped
        · next ctx created => exact .inl ⟨batch, final, download, ctx, creating, created, rfl, rfl, rfl⟩
        · exact .inr (.inr ⟨rfl, rfl, by simp [creating, FetchPhase.Done]⟩)
    · cases stepped
  case exitContext ref =>
    simp only [fetchStep, Option.map_eq_some'] at stepped
    obtain ⟨ctx, found, rfl⟩ := stepped
    exact .inr (.inl ⟨ref, ctx, rfl, found, rfl⟩)
  case setInputConcurrency concurrency =>
    cases stepped
    exact .inr (.inr ⟨rfl, rfl, fun done =>
      FetchPhase.Done.wake (s := { s with stopConcurrencyLoop := true }) done _⟩)
  case concurrencyReply concurrency =>
    simp only [fetchStep] at stepped
    split at stepped
    · split at stepped <;> cases stepped
      · exact .inr (.inr ⟨rfl, rfl, fun done =>
          FetchPhase.Done.wake (s := { s with loop := .sleeping }) done _⟩)
      · exact .inr (.inr ⟨rfl, rfl, id⟩)
    · cases stepped
  -- The other steps move a done generator only on to `returned`, the loop of
  -- `close`, or out of `run_inputs_outputs`.
  all_goals
    simp only [fetchStep] at stepped
    (repeat' split at stepped) <;> (try cases stepped) <;> refine .inr (.inr ⟨rfl, rfl, fun done => ?_⟩)
  all_goals simp_all [FetchPhase.Done, release_eq, FetchState.leave]

/-- Besides `exit_context`, only `IOContext.create` changes the live contexts:
it appends the new one under the next number. -/
theorem fetchStep_live {e : FetchEvent} (notExit : ∀ ref, e ≠ .exitContext ref)
    (stepped : fetchStep cfg s e = some s') :
    s'.live = s.live ∧ s'.nextContext = s.nextContext ∨
      ∃ ctx, s'.live = s.live ++ [(s.nextContext, ctx)] ∧ s'.nextContext = s.nextContext + 1 := by
  rcases fetchStep_cases stepped with
    ⟨_, _, _, ctx, -, -, appended, next, -⟩ | ⟨ref, _, exit, -⟩ | ⟨same, next, -⟩
  · exact .inr ⟨ctx, appended, next⟩
  · exact absurd exit (notExit ref)
  · exact .inl ⟨same, next⟩

end FetchState

section Returning

/-- Once the generator is done, no later step creates a context. -/
theorem done_run : ∀ {s s' : FetchState} {events : List FetchEvent}, s.phase.Done cfg →
    fetchRun cfg s events = some s' → s'.nextContext = s.nextContext ∧ s'.phase.Done cfg
  | _, _, [], done, ran => by cases ran; exact ⟨rfl, done⟩
  | s, _, _ :: _, done, ran => by
      obtain ⟨next, -, stepped, ran⟩ := fetchRun_cons ran
      have kept : next.nextContext = s.nextContext ∧ next.phase.Done cfg := by
        rcases fetchStep_cases stepped with
          ⟨_, _, _, _, creating, -⟩ | ⟨ref, ctx, -, -, rfl⟩ | ⟨-, same, keep⟩
        · simp [creating, FetchPhase.Done] at done
        · exact ⟨(exitContext_live ref ctx).2, done_exitContext done ref ctx⟩
        · exact ⟨same, keep done⟩
      obtain ⟨later, stillDone⟩ := done_run kept.2 ran
      exact ⟨later.trans kept.1, stillDone⟩

/-- After yielding a context whose batch ended with a final input, or any
context of a function with `max_inputs = 1`, `_generate_inputs` returns: no
later step creates another context, whatever the consumers, the concurrency
loop and the overrides do. -/
theorem final_input_ends_fetching {final : Bool} {events : List FetchEvent}
    (delivered : s.phase = .delivered final) (last : final = true ∨ cfg.functionDef.maxInputs = 1)
    (ran : fetchRun cfg s events = some s') : s'.nextContext = s.nextContext :=
  (done_run (by rw [delivered]; exact last) ran).1

/-- A response whose only input is the final one. -/
def finalInputResponse : FunctionGetInputsResponse :=
  ⟨0, [⟨"in-1", 0, "fc-1", ⟨.args [], "", true⟩, false⟩]⟩

theorem final_input_stops_generator :
    ∃ s s', fetchRun dynamicConfig (.init dynamicConfig)
        [.fetch, .getInputs finalInputResponse, .create fun _ => none] = some s ∧
      s.phase = .delivered true ∧ (true = true ∨ dynamicConfig.functionDef.maxInputs = 1) ∧
      fetchRun dynamicConfig s [.resume, .exitContext 0, .closeStep] = some s' ∧
      s'.nextContext = s.nextContext :=
  ⟨_, _, rfl, rfl, .inl rfl, rfl, @final_input_ends_fetching dynamicConfig _ _ true
    [.resume, .exitContext 0, .closeStep] (by rfl) (.inl rfl) (by rfl)⟩

/-- A function with `max_inputs = 1` serves one context over every run:
`_generate_inputs` returns right after yielding the first. -/
theorem max_inputs_one_serves_one_context (one : cfg.functionDef.maxInputs = 1)
    (reach : FetchReachable cfg s) : s.nextContext ≤ 1 := by
  have counted : s.nextContext = 0 ∨ s.nextContext = 1 ∧ s.phase.Done cfg := by
    induction reach with
    | init => exact .inl rfl
    | step _ _ stepped inductionHypothesis =>
        rcases fetchStep_cases stepped with
          ⟨_, _, _, _, creating, -, -, grown, delivered⟩ | ⟨ref, ctx, -, -, rfl⟩ | ⟨-, same, kept⟩
        · rcases inductionHypothesis with zero | ⟨-, done⟩
          · exact .inr ⟨by omega, by rw [delivered]; exact .inr one⟩
          · simp [creating, FetchPhase.Done] at done
        · rw [(exitContext_live ref ctx).2]
          exact inductionHypothesis.imp_right fun ⟨count, done⟩ => ⟨count, done_exitContext done ref ctx⟩
        · rw [same]
          exact inductionHypothesis.imp_right fun ⟨count, done⟩ => ⟨count, kept done⟩
  omega

theorem single_input_function_after_close :
    singleInputConfig.functionDef.maxInputs = 1 ∧
      ∃ s, FetchReachable singleInputConfig s ∧ s.nextContext = 1 ∧ s.nextContext ≤ 1 := by
  obtain ⟨s, reach, count⟩ := FetchReachable.of_run singleInputConfig
    [.fetch, .getInputs singleInputResponse, .create fun _ => none, .resume, .closeStep]
    (·.nextContext) 1 (by decide)
  exact ⟨rfl, s, reach, count, max_inputs_one_serves_one_context rfl reach⟩

end Returning

/-- In every run of `run_inputs_outputs`, each context yielded and not yet
exited carries every argument inline: `_populate_input_blobs` downloaded each
argument blob, so `_args_and_kwargs` never reads a blob id. -/
theorem yielded_inputs_inline (reach : FetchReachable cfg s) :
    ∀ entry ∈ s.live, ∀ input ∈ entry.2.functionInputs, ∃ bytes, input.args = .args bytes := by
  induction reach with
  | init => simp [FetchState.init]
  | step _ _ stepped inductionHypothesis =>
      rcases fetchStep_cases stepped with
        ⟨_, _, _, ctx, -, created, appended, -⟩ | ⟨ref, ctx, -, -, rfl⟩ | ⟨same, -⟩
      · rw [appended]
        intro entry member
        rcases List.mem_append.mp member with old | new
        · exact inductionHypothesis entry old
        · rw [List.mem_singleton.mp new]
          exact IOContext.args_of_create created
      · rw [(exitContext_live ref ctx).1]
        exact fun entry member => inductionHypothesis entry (List.mem_of_mem_filter member)
      · rw [same]
        exact inductionHypothesis

end ContainerIO
