import ContainerIO.InputSlots
import ContainerIO.IOContext

/-!
# Fetching inputs

`_generate_inputs` and `run_inputs_outputs` form one task. It runs interleaved
with the consumers of the yielded contexts, which call `exit_context`, with
`stop_fetching_inputs`, and with `_dynamic_concurrency_loop` and
`set_input_concurrency`. A step runs from one suspension point to the next.
The consumers are modelled by the contexts they hold; a consumer keeps asking
for the next context until the generator returns.
-/

namespace ContainerIO

/-- The fields of `api_pb2.Function` that fix the concurrency and batching of
`run_inputs_outputs`. -/
structure FunctionDef where
  ptyShell : Bool
  maxConcurrentInputs : Nat
  targetConcurrentInputs : Nat
  maxInputs : Nat
  deriving DecidableEq, Repr

/-- What `_init` and the caller of `run_inputs_outputs` fix for a whole run. -/
structure FetchConfig where
  functionDef : FunctionDef
  finalizedFunctions : List (String × FinalizedFunction)
  batchMaxSize : Nat

namespace FetchConfig

variable (cfg : FetchConfig)

def maxConcurrency : Int :=
  if cfg.functionDef.ptyShell then 1
  else if cfg.functionDef.maxConcurrentInputs = 0 then 1 else cfg.functionDef.maxConcurrentInputs

def targetConcurrency : Int :=
  if cfg.functionDef.ptyShell then 1
  else if cfg.functionDef.targetConcurrentInputs = 0 then cfg.maxConcurrency
  else cfg.functionDef.targetConcurrentInputs

end FetchConfig

structure FunctionGetInputsItem where
  inputId : String
  retryCount : Nat
  functionCallId : String
  input : FunctionInput
  killSwitch : Bool
  deriving DecidableEq, Repr

/-- A `FunctionGetInputsResponse`. Only whether the sleep duration is zero
changes the state. -/
structure FunctionGetInputsResponse where
  rateLimitSleepDuration : Nat
  inputs : List FunctionGetInputsItem
  deriving DecidableEq, Repr

/-- The loop over `response.inputs`: `none` when a kill switch makes the
generator return, otherwise the collected tuples and whether a final input
ended the loop. -/
def collectInputs : List FunctionGetInputsItem → Option (List InputTuple × Bool)
  | [] => some ([], false)
  | item :: rest =>
      if item.killSwitch then none
      else
        let tuple : InputTuple := ⟨item.inputId, item.retryCount, item.functionCallId, item.input⟩
        if item.input.finalInput then some ([tuple], true)
        else (collectInputs rest).map fun (inputs, final) => (tuple :: inputs, final)

/-- Where the task of `run_inputs_outputs` is suspended. -/
inductive FetchPhase where
  /-- At `while self._fetching_inputs`. -/
  | loopHead
  /-- Awaiting the waiter future inside `acquire`. -/
  | parked
  /-- Holding its slot, with `FunctionGetInputs` in flight. -/
  | requesting
  /-- Holding its slot, in the rate-limit sleep. -/
  | sleeping
  /-- Holding its slot at `yield inputs`, with `IOContext.create` in flight. -/
  | creating (batch : List InputTuple) (final : Bool)
  /-- The context is registered and yielded to the consumer. -/
  | delivered (final : Bool)
  /-- `IOContext.create` raised; the generator still holds its slot at `yield`. -/
  | abandoned
  /-- `_generate_inputs` returned and `close` has not begun. -/
  | returned
  /-- The loop of `close`, `acquired` of `total` iterations done. -/
  | closing (acquired total : Nat)
  | closeParked (acquired total : Nat)
  /-- `close` and `run_inputs_outputs` returned. -/
  | finished (total : Nat)
  /-- An exception left `run_inputs_outputs`. -/
  | failed
  deriving DecidableEq, Repr

/-- Where `_dynamic_concurrency_loop` is suspended. -/
inductive ConcurrencyPhase where
  | loopHead
  | awaiting
  | sleeping
  | stopped
  deriving DecidableEq, Repr

namespace FetchPhase

def holding : FetchPhase → Nat
  | .requesting | .sleeping | .creating _ _ | .abandoned => 1
  | _ => 0

def closeHeld : FetchPhase → Nat
  | .closing acquired _ | .closeParked acquired _ => acquired
  | .finished total => total
  | _ => 0

def isParked : FetchPhase → Bool
  | .parked | .closeParked _ _ => true
  | _ => false

/-- The task after `_wake_waiter` granted the slot it awaited. -/
def woken : FetchPhase → FetchPhase
  | .parked => .requesting
  | .closeParked acquired total => .closing (acquired + 1) total
  | phase => phase

end FetchPhase

structure FetchState where
  slots : InputSlots
  /-- `current_inputs`: each input id maps to the number of its context. -/
  currentInputs : String → Option Nat
  /-- The contexts yielded and not yet exited, each with its number. -/
  live : List (Nat × IOContext)
  nextContext : Nat
  callsCompleted : Nat
  fetchingInputs : Bool
  stopConcurrencyLoop : Bool
  phase : FetchPhase
  loop : ConcurrencyPhase

/-- `for input_id in io_context.input_ids: self.current_inputs[input_id] = io_context`. -/
def registerInputs (current : String → Option Nat) (inputIds : List String) (ref : Nat) :
    String → Option Nat :=
  inputIds.foldl (fun current inputId => Function.update current inputId (some ref)) current

/-- `for input_id in input_ids: self.current_inputs.pop(input_id)`: the map
afterwards, and the `KeyError` that stopped the loop, if any. -/
def popInputs (current : String → Option Nat) : List String → (String → Option Nat) × Option PyError
  | [] => (current, none)
  | inputId :: rest =>
      match current inputId with
      | some _ => popInputs (Function.update current inputId none) rest
      | none => (current, some (.keyError inputId))

namespace FetchState

def init (cfg : FetchConfig) : FetchState where
  slots := .init cfg.targetConcurrency
  currentInputs := fun _ => none
  live := []
  nextContext := 0
  callsCompleted := 0
  fetchingInputs := true
  stopConcurrencyLoop := false
  phase := .loopHead
  loop := if cfg.maxConcurrency > cfg.targetConcurrency then .loopHead else .stopped

def wake (s : FetchState) (result : Bool × InputSlots) : FetchState :=
  { s with slots := result.2, phase := if result.1 then s.phase.woken else s.phase }

def release (s : FetchState) : FetchState := s.wake s.slots.release

/-- Leaving `run_inputs_outputs` exits `dynamic_concurrency_manager`, which
cancels the loop. -/
def leave (s : FetchState) (phase : FetchPhase) : FetchState :=
  { s with phase, loop := .stopped }

/-- `exit_context` for the context numbered `ref`. -/
def exitContext (s : FetchState) (ref : Nat) (ctx : IOContext) : FetchState :=
  let s := { s with live := s.live.filter (·.1 ≠ ref), callsCompleted := s.callsCompleted + 1 }
  match popInputs s.currentInputs ctx.inputIds with
  | (current, none) => { s with currentInputs := current }.release
  | (current, some _) => { s with currentInputs := current }

variable (s : FetchState) (result : Bool × InputSlots)

@[simp] theorem wake_slots : (s.wake result).slots = result.2 := rfl
@[simp] theorem wake_phase :
    (s.wake result).phase = if result.1 then s.phase.woken else s.phase := rfl
@[simp] theorem wake_currentInputs : (s.wake result).currentInputs = s.currentInputs := rfl
@[simp] theorem wake_live : (s.wake result).live = s.live := rfl
@[simp] theorem wake_nextContext : (s.wake result).nextContext = s.nextContext := rfl
@[simp] theorem wake_stopConcurrencyLoop :
    (s.wake result).stopConcurrencyLoop = s.stopConcurrencyLoop := rfl

theorem release_eq : s.release = s.wake s.slots.release := rfl

@[simp] theorem leave_slots (phase : FetchPhase) : (s.leave phase).slots = s.slots := rfl
@[simp] theorem leave_phase (phase : FetchPhase) : (s.leave phase).phase = phase := rfl
@[simp] theorem leave_currentInputs (phase : FetchPhase) :
    (s.leave phase).currentInputs = s.currentInputs := rfl
@[simp] theorem leave_live (phase : FetchPhase) : (s.leave phase).live = s.live := rfl
@[simp] theorem leave_nextContext (phase : FetchPhase) :
    (s.leave phase).nextContext = s.nextContext := rfl
@[simp] theorem leave_stopConcurrencyLoop (phase : FetchPhase) :
    (s.leave phase).stopConcurrencyLoop = s.stopConcurrencyLoop := rfl

end FetchState

inductive FetchEvent where
  /-- The task runs from `loopHead`. -/
  | fetch
  | getInputs (response : FunctionGetInputsResponse)
  | getInputsFailed
  /-- The rate-limit sleep ends. -/
  | wakeUp
  /-- `IOContext.create` completes; `download` answers the blob downloads. -/
  | create (download : String → Option Bytes)
  /-- The consumer asks for the next context. -/
  | resume
  /-- The abandoned generator is closed, which runs its `finally`. -/
  | finalize
  | closeStep
  | exitContext (ref : Nat)
  | stopFetchingInputs
  | setInputConcurrency (concurrency : Int)
  | concurrencyFetch
  | concurrencyReply (concurrency : Int)
  | concurrencyFailed
  | concurrencyWake

open FetchState in
def fetchStep (cfg : FetchConfig) (s : FetchState) : FetchEvent → Option FetchState
  | .fetch =>
      match s.phase with
      | .loopHead =>
          if s.fetchingInputs then
            match s.slots.acquire with
            | (.granted, slots) => some { s with slots, phase := .requesting }
            | (.parked, slots) => some { s with slots, phase := .parked }
            | (.raised _, _) => some (s.leave .failed)
          else some { s with phase := .returned }
      | _ => none
  | .getInputs response =>
      match s.phase with
      | .requesting =>
          if response.rateLimitSleepDuration ≠ 0 then some { s with phase := .sleeping }
          else if response.inputs = [] then some { s.release with phase := .loopHead }
          else if response.inputs.length > max 1 cfg.batchMaxSize then
            some (s.release.leave .failed)
          else
            match collectInputs response.inputs with
            | none => some { s.release with phase := .returned }
            | some (batch, final) => some { s with phase := .creating batch final }
      | _ => none
  | .getInputsFailed =>
      match s.phase with
      | .requesting => some (s.release.leave .failed)
      | _ => none
  | .wakeUp =>
      match s.phase with
      | .sleeping => some { s.release with phase := .loopHead }
      | _ => none
  | .create download =>
      match s.phase with
      | .creating batch final =>
          match IOContext.create cfg.finalizedFunctions batch (decide (0 < cfg.batchMaxSize))
              download with
          | .ok ctx =>
              some { s with
                currentInputs := registerInputs s.currentInputs ctx.inputIds s.nextContext
                live := s.live ++ [(s.nextContext, ctx)]
                nextContext := s.nextContext + 1
                phase := .delivered final }
          | .error _ => some (s.leave .abandoned)
      | _ => none
  | .resume =>
      match s.phase with
      | .delivered final =>
          some { s with
            phase := if final ∨ cfg.functionDef.maxInputs = 1 then .returned else .loopHead }
      | _ => none
  | .finalize =>
      match s.phase with
      | .abandoned => some { s.release with phase := .failed }
      | _ => none
  | .closeStep =>
      match s.phase with
      | .returned => some { s with slots := s.slots.closeStart.2, phase := .closing 0 s.slots.closeStart.1 }
      | .closing acquired total =>
          if acquired < total then
            match s.slots.acquire with
            | (.granted, slots) => some { s with slots, phase := .closing (acquired + 1) total }
            | (.parked, slots) => some { s with slots, phase := .closeParked acquired total }
            | (.raised _, _) => some (s.leave .failed)
          else some (s.leave (.finished total))
      | _ => none
  | .exitContext ref =>
      (s.live.lookup ref).map (s.exitContext ref)
  | .stopFetchingInputs => some { s with fetchingInputs := false }
  | .setInputConcurrency concurrency =>
      some ({ s with stopConcurrencyLoop := true }.wake
        (s.slots.setValue (min concurrency cfg.maxConcurrency)))
  | .concurrencyFetch =>
      match s.loop with
      | .loopHead => some { s with loop := if s.stopConcurrencyLoop then .stopped else .awaiting }
      | _ => none
  | .concurrencyReply concurrency =>
      match s.loop with
      | .awaiting =>
          if concurrency ≠ s.slots.value ∧ s.stopConcurrencyLoop = false then
            some ({ s with loop := .sleeping }.wake (s.slots.setValue concurrency))
          else some { s with loop := .sleeping }
      | _ => none
  | .concurrencyFailed =>
      match s.loop with
      | .awaiting => some { s with loop := .sleeping }
      | _ => none
  | .concurrencyWake =>
      match s.loop with
      | .sleeping => some { s with loop := .loopHead }
      | _ => none

/-- What the environment promises: the ids of a batch are pairwise distinct
and distinct from those of the live contexts, and a consumer exits only the
context it holds, once. -/
def FetchState.FreshBatch (s : FetchState) (batch : List InputTuple) : Prop :=
  (batch.map InputTuple.inputId).Nodup ∧ ∀ tuple ∈ batch, ∀ entry ∈ s.live, tuple.inputId ∉ entry.2.inputIds

instance (s : FetchState) (batch : List InputTuple) : Decidable (s.FreshBatch batch) :=
  inferInstanceAs (Decidable ((batch.map InputTuple.inputId).Nodup ∧
    ∀ tuple ∈ batch, ∀ entry ∈ s.live, tuple.inputId ∉ entry.2.inputIds))

def FetchState.Admissible (s : FetchState) : FetchEvent → Prop
  | .getInputs response => s.FreshBatch (((collectInputs response.inputs).map Prod.fst).getD [])
  | .exitContext ref => ref ∈ s.live.map Prod.fst
  | _ => True

instance (s : FetchState) (e : FetchEvent) : Decidable (s.Admissible e) :=
  match e with
  | .getInputs response =>
      inferInstanceAs (Decidable (s.FreshBatch (((collectInputs response.inputs).map Prod.fst).getD [])))
  | .exitContext ref => inferInstanceAs (Decidable (ref ∈ s.live.map Prod.fst))
  | .fetch | .getInputsFailed | .wakeUp | .create _ | .resume | .finalize | .closeStep
  | .stopFetchingInputs | .setInputConcurrency _ | .concurrencyFetch | .concurrencyReply _
  | .concurrencyFailed | .concurrencyWake => instDecidableTrue

inductive FetchReachable (cfg : FetchConfig) : FetchState → Prop
  | init : FetchReachable cfg (.init cfg)
  | step {s e s'} : FetchReachable cfg s → s.Admissible e → fetchStep cfg s e = some s' →
      FetchReachable cfg s'

def fetchRun (cfg : FetchConfig) (s : FetchState) : List FetchEvent → Option FetchState
  | [] => some s
  | e :: rest =>
      if s.Admissible e then (fetchStep cfg s e).bind (fetchRun cfg · rest) else none

theorem fetchRun_cons {cfg : FetchConfig} {s s' : FetchState} {e : FetchEvent}
    {rest : List FetchEvent} (ran : fetchRun cfg s (e :: rest) = some s') :
    ∃ next, s.Admissible e ∧ fetchStep cfg s e = some next ∧ fetchRun cfg next rest = some s' := by
  simp only [fetchRun] at ran
  split at ran
  · cases stepped : fetchStep cfg s e with
    | none => simp [stepped] at ran
    | some next =>
        rw [stepped, Option.some_bind] at ran
        exact ⟨next, ‹_›, rfl, ran⟩
  · cases ran

theorem FetchReachable.run {cfg : FetchConfig} {s : FetchState} (reach : FetchReachable cfg s) :
    ∀ {events : List FetchEvent} {s' : FetchState}, fetchRun cfg s events = some s' →
      FetchReachable cfg s'
  | [], _, ran => by cases ran; exact reach
  | _ :: _, _, ran => by
      obtain ⟨next, admissible, stepped, rest⟩ := fetchRun_cons ran
      exact (reach.step admissible stepped).run rest

theorem FetchReachable.of_run {β : Type} (cfg : FetchConfig) (events : List FetchEvent)
    (f : FetchState → β) (summary : β)
    (ran : (fetchRun cfg (.init cfg) events).map f = some summary) :
    ∃ s, FetchReachable cfg s ∧ f s = summary := by
  obtain ⟨s, ran, summarised⟩ := Option.map_eq_some'.mp ran
  exact ⟨s, FetchReachable.init.run ran, summarised⟩

end ContainerIO
