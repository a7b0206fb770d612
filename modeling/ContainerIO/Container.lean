import ContainerIO.Cancellation
import ContainerIO.Yielded

/-!
# The container: inputs, their tasks and the heartbeats together

`run_inputs_outputs` yields each context to the entrypoint, which runs it in a
task of its own under `handle_input_exception`; the task's `exit_context` pops
the context's ids from `current_inputs` and releases its input slot. The fetch
model lets any consumer exit a live context once; here the consumers are the
tasks of the input model, one per yielded context, sharing the blob store. A
heartbeat response runs the loop of `_heartbeat_handle_cancellations` over
`current_inputs`, calling `cancel()` on the context of each listed id, and
in every reachable state that loop acts on each task as its own
`InputTask.heartbeatCancel` (`handleCancellations_eq`): it raises the
cancellation in the tasks it reaches and leaves the others alone. Until it
reaches a task, the task sends no `TERMINATED` item after a `SUCCESS` one
(`InputTask.PushesBeforeCancel`).
-/

namespace ContainerIO

/-- `run_inputs_outputs` with the concurrency loop, the task running each
yielded context (under the context's number), and the shared blob store. -/
structure Container (Value : Type) where
  fetch : FetchState
  tasks : List (Nat × InputTask Value)
  store : BlobStore

inductive ContainerEvent (Value : Type) where
  /-- A step of `run_inputs_outputs` or of `_dynamic_concurrency_loop`. -/
  | fetch (e : FetchEvent)
  /-- The entrypoint starts the task of the yielded context numbered `ref`. -/
  | spawn (ref : Nat) (startedAt : Nat) (dataFormat : DataFormat)
  /-- A step of the task of the context numbered `ref`. -/
  | task (ref : Nat) (e : InputEvent Value)
  /-- A heartbeat response whose `cancel_input_event` lists `inputIds`. -/
  | heartbeat (inputIds : List String) (now : Nat)

namespace Container

variable {Value : Type} (cfg : FetchConfig) (codec : Codec Value) (maxObjectSizeBytes : Nat)
  (describe : PyError → RaisedException)

def init : Container Value := ⟨.init cfg, [], []⟩

/-- The tasks, the one of `ref` replaced by `t`. -/
def setTask (tasks : List (Nat × InputTask Value)) (ref : Nat) (t : InputTask Value) :
    List (Nat × InputTask Value) :=
  tasks.map fun entry => (entry.1, if entry.1 = ref then t else entry.2)

/-- The task of `ref` takes a step on the shared store; when the step runs
`exit_context`, the fetch side pops the context's ids and releases its slot. -/
def taskStep (c : Container Value) (ref : Nat) (e : InputEvent Value) : Option (Container Value) :=
  match c.tasks.lookup ref with
  | none => none
  | some t =>
      ({ t with store := c.store }.step codec maxObjectSizeBytes describe e).bind fun t' =>
        if t'.exits = t.exits then some ⟨c.fetch, setTask c.tasks ref t', t'.store⟩
        else (fetchStep cfg c.fetch (.exitContext ref)).map fun fetch =>
          ⟨fetch, setTask c.tasks ref t', t'.store⟩

/-- One turn of the loop of `_heartbeat_handle_cancellations`:
`self.current_inputs[input_id].cancel()` when the id is a key, on the context
of the task running it; a context whose task has not started has no callback. -/
def cancelInput (c : Container Value) (now : Nat) (inputId : String) : Container Value :=
  match c.fetch.currentInputs inputId with
  | none => c
  | some ref =>
      match c.tasks.lookup ref with
      | none => c
      | some t => { c with tasks := setTask c.tasks ref (t.cancel now) }

/-- The loop over the ids of the response's `cancel_input_event`. -/
def handleCancellations (c : Container Value) (inputIds : List String) (now : Nat) : Container Value :=
  inputIds.foldl (fun c inputId => c.cancelInput now inputId) c

def step (c : Container Value) : ContainerEvent Value → Option (Container Value)
  | .fetch e =>
      match e with
      | .exitContext _ => none
      | e => (fetchStep cfg c.fetch e).map fun fetch => { c with fetch }
  | .spawn ref startedAt dataFormat =>
      match c.fetch.live.lookup ref, c.tasks.lookup ref with
      | some ctx, none => some { c with tasks := c.tasks ++ [(ref, .init ctx startedAt dataFormat c.store)] }
      | _, _ => none
  | .task ref e =>
      match e with
      | .heartbeatCancel _ _ => none
      | e => c.taskStep cfg codec maxObjectSizeBytes describe ref e
  | .heartbeat inputIds now => some (c.handleCancellations inputIds now)

/-- What the environment promises of the fetch side, as in `FetchState.Admissible`. -/
def Admissible (c : Container Value) : ContainerEvent Value → Prop
  | .fetch e => c.fetch.Admissible e
  | _ => True

instance (c : Container Value) (e : ContainerEvent Value) : Decidable (c.Admissible e) :=
  match e with
  | .fetch e => inferInstanceAs (Decidable (c.fetch.Admissible e))
  | .spawn .. | .task .. | .heartbeat .. => instDecidableTrue

/-- The admissible events applied one after another. -/
def run (c : Container Value) : List (ContainerEvent Value) → Option (Container Value)
  | [] => some c
  | e :: rest =>
      if c.Admissible e then (c.step cfg codec maxObjectSizeBytes describe e).bind (·.run rest) else none

end Container

namespace InputTask

variable {Value : Type} {codec : Codec Value} {maxObjectSizeBytes : Nat}
  {describe : PyError → RaisedException} {t t' : InputTask Value}

end InputTask

section Runs

variable {Value : Type} (cfg : FetchConfig) (codec : Codec Value) (maxObjectSizeBytes : Nat)
  (describe : PyError → RaisedException)

/-- The runs of the container from `c₀`. -/
inductive ContainerRun (c₀ : Container Value) : Container Value → Prop
  | here : ContainerRun c₀ c₀
  | step {c e c'} : ContainerRun c₀ c → c.Admissible e →
      c.step cfg codec maxObjectSizeBytes describe e = some c' → ContainerRun c₀ c'

variable {cfg codec maxObjectSizeBytes describe}

theorem ContainerRun.trans {c₀ c c' : Container Value}
    (first : ContainerRun cfg codec maxObjectSizeBytes describe c₀ c)
    (second : ContainerRun cfg codec maxObjectSizeBytes describe c c') :
    ContainerRun cfg codec maxObjectSizeBytes describe c₀ c' := by
  induction second with
  | here => exact first
  | step _ admissible stepped inductionHypothesis => exact inductionHypothesis.step admissible stepped

theorem ContainerRun.run {c₀ c : Container Value}
    (ran : ContainerRun cfg codec maxObjectSizeBytes describe c₀ c) :
    ∀ {events : List (ContainerEvent Value)} {c' : Container Value},
      c.run cfg codec maxObjectSizeBytes describe events = some c' →
      ContainerRun cfg codec maxObjectSizeBytes describe c₀ c'
  | [], _, finished => by cases finished; exact ran
  | e :: rest, _, finished => by
      simp only [Container.run] at finished
      split_ifs at finished with admissible
      obtain ⟨next, stepped, continued⟩ := Option.bind_eq_some.mp finished
      exact (ran.step admissible stepped).run continued

variable (cfg codec maxObjectSizeBytes describe)

/-- A run computed from the start, summarised by `f`, reaches a state with that summary. -/
theorem ContainerRun.of_run {β : Type} (events : List (ContainerEvent Value))
    (f : Container Value → β) (summary : β)
    (ran : ((Container.init cfg).run cfg codec maxObjectSizeBytes describe events).map f = some summary) :
    ∃ c, ContainerRun cfg codec maxObjectSizeBytes describe (.init cfg) c ∧ f c = summary := by
  obtain ⟨c, ran, summarised⟩ := Option.map_eq_some'.mp ran
  exact ⟨c, ContainerRun.here.run ran, summarised⟩

end Runs

namespace Container

variable {Value : Type} {cfg : FetchConfig} {codec : Codec Value} {maxObjectSizeBytes : Nat}
  {describe : PyError → RaisedException} {c c' : Container Value}

@[simp] theorem map_fst_setTask (tasks : List (Nat × InputTask Value)) (ref : Nat) (t : InputTask Value) :
    (setTask tasks ref t).map Prod.fst = tasks.map Prod.fst := by
  simp [setTask, Function.comp_def]

theorem mem_setTask {tasks : List (Nat × InputTask Value)} {ref : Nat} {t : InputTask Value}
    {entry : Nat × InputTask Value} (member : entry ∈ setTask tasks ref t) :
    entry = (ref, t) ∨ entry.1 ≠ ref ∧ entry ∈ tasks := by
  obtain ⟨old, kept, rfl⟩ := List.mem_map.mp member
  by_cases same : old.1 = ref
  · exact .inl (by simp [same])
  · exact .inr ⟨same, by simpa [same] using kept⟩

/-- A turn of the loop calls `cancel()` on the task of the context the id is a
key of, and on no other. -/
theorem cancelInput_eq (nodup : (c.tasks.map Prod.fst).Nodup) (now : Nat) (inputId : String) :
    c.cancelInput now inputId = { c with tasks := c.tasks.map fun entry =>
      (entry.1, if c.fetch.currentInputs inputId = some entry.1 then entry.2.cancel now else entry.2) } := by
  unfold cancelInput
  split
  · next unkeyed => simp [unkeyed]
  · next ref keyed =>
      split
      · next unstarted =>
          simp only [List.lookup_eq_none_iff, bne_iff_ne, ne_eq] at unstarted
          simp only [keyed, Option.some.injEq]
          rw [List.map_congr_left (g := fun entry => entry) fun entry member => by
            simp [unstarted entry member], List.map_id']
      · next t started =>
          simp only [setTask, keyed, Option.some.injEq]
          congr 1
          refine List.map_congr_left fun entry member => ?_
          by_cases same : entry.1 = ref
          · cases List.inj_on_of_nodup_map nodup member (mem_of_lookup started) same
            simp
          · simp [same, Ne.symm same]

/-- The loop of `_heartbeat_handle_cancellations` acts on each task as its
`heartbeatCancel` when an id is a key of a task's context exactly while the task
has not run `exit_context` and the id is one of its inputs. -/
theorem handleCancellations_eq (nodup : (c.tasks.map Prod.fst).Nodup)
    (keyed : ∀ entry ∈ c.tasks, ∀ inputId, c.fetch.currentInputs inputId = some entry.1 ↔
      entry.2.exits = 0 ∧ inputId ∈ entry.2.context.inputIds) (inputIds : List String) (now : Nat) :
    c.handleCancellations inputIds now =
      { c with tasks := c.tasks.map fun entry => (entry.1, entry.2.heartbeatCancel inputIds now) } := by
  induction inputIds generalizing c with
  | nil => simp [handleCancellations, InputTask.heartbeatCancel, IOContext.cancelListed]
  | cons inputId rest inductionHypothesis =>
      have turned := cancelInput_eq nodup now inputId
      have later := inductionHypothesis (c := c.cancelInput now inputId)
        (by simpa [turned, Function.comp_def] using nodup) (by
          simp only [turned, List.forall_mem_map]
          intro entry member inputId'
          split_ifs <;> simp [keyed entry member])
      show (c.cancelInput now inputId).handleCancellations rest now = _
      rw [later, turned]
      simp only [List.map_map]
      congr 1
      refine List.map_congr_left fun entry member => ?_
      simp only [Function.comp, InputTask.heartbeatCancel_cons, keyed entry member inputId]

/-- The fetch side is a run of the fetch model, and the tasks are its only
consumers: one per yielded context, each where the input model lets it be, its
context live exactly until it runs `exit_context`, and each running the context
yielded under its number. -/
structure Coupled (cfg : FetchConfig) (c : Container Value) : Prop where
  reach : FetchReachable cfg c.fetch
  refs_nodup : (c.tasks.map Prod.fst).Nodup
  ref_lt : ∀ entry ∈ c.tasks, entry.1 < c.fetch.nextContext
  progress : ∀ entry ∈ c.tasks, entry.2.Progress
  live_iff : ∀ entry ∈ c.tasks, entry.1 ∈ c.fetch.live.map Prod.fst ↔ entry.2.exits = 0
  context_ids : ∀ entry ∈ c.tasks, ∀ ctx, (entry.1, ctx) ∈ c.fetch.live →
    entry.2.context.inputIds = ctx.inputIds
  pushesBeforeCancel : ∀ entry ∈ c.tasks, entry.2.PushesBeforeCancel

theorem init_coupled : (init cfg : Container Value).Coupled cfg where
  reach := .init
  refs_nodup := List.nodup_nil
  ref_lt := by simp [init]
  progress := by simp [init]
  live_iff := by simp [init]
  context_ids := by simp [init]
  pushesBeforeCancel := by simp [init]

/-- An id is a key of a task's context exactly while the task has not run
`exit_context` and the id is one of its inputs. -/
theorem Coupled.keyed (coupled : c.Coupled cfg) : ∀ entry ∈ c.tasks, ∀ inputId,
    c.fetch.currentInputs inputId = some entry.1 ↔ entry.2.exits = 0 ∧ inputId ∈ entry.2.context.inputIds := by
  intro entry member inputId
  rw [coupled.reach.invariant.registry.current_iff, ← coupled.live_iff entry member]
  constructor
  · rintro ⟨ctx, live, mem⟩
    exact ⟨List.mem_map_of_mem Prod.fst live, (coupled.context_ids entry member ctx live).symm ▸ mem⟩
  · rintro ⟨isLive, mem⟩
    obtain ⟨⟨ref, ctx⟩, live, same⟩ := List.mem_map.mp isLive
    rw [show ref = entry.1 from same] at live
    exact ⟨ctx, live, coupled.context_ids entry member ctx live ▸ mem⟩

theorem Coupled.fetchStep (coupled : c.Coupled cfg) {e : FetchEvent} {fetch : FetchState}
    (admissible : c.fetch.Admissible e) (notExit : ∀ ref, e ≠ .exitContext ref)
    (stepped : ContainerIO.fetchStep cfg c.fetch e = some fetch) : Coupled cfg { c with fetch } := by
  have grown : ∀ entry ∈ c.tasks, entry.1 < fetch.nextContext ∧
      (entry.1 ∈ fetch.live.map Prod.fst ↔ entry.1 ∈ c.fetch.live.map Prod.fst) ∧
      ∀ ctx, (entry.1, ctx) ∈ fetch.live → (entry.1, ctx) ∈ c.fetch.live := by
    intro entry member
    have below := coupled.ref_lt entry member
    rcases FetchState.fetchStep_live notExit stepped with ⟨same, next⟩ | ⟨ctx, appended, next⟩
    · exact ⟨next ▸ below, by rw [same], fun _ => same ▸ id⟩
    · refine ⟨by omega, ?_, fun ctx' mem => by simpa [appended, below.ne] using mem⟩
      simp only [appended, List.map_append, List.map_cons, List.map_nil, List.mem_append,
        List.mem_singleton, below.ne, or_false]
  exact ⟨coupled.reach.step admissible stepped, coupled.refs_nodup,
    fun entry member => (grown entry member).1, coupled.progress,
    fun entry member => (grown entry member).2.1.trans (coupled.live_iff entry member),
    fun entry member ctx live => coupled.context_ids entry member ctx ((grown entry member).2.2 ctx live),
    coupled.pushesBeforeCancel⟩

theorem Coupled.spawn (coupled : c.Coupled cfg) {ref startedAt : Nat} {dataFormat : DataFormat}
    (stepped : c.step cfg codec maxObjectSizeBytes describe (.spawn ref startedAt dataFormat) = some c') :
    c'.Coupled cfg := by
  simp only [step] at stepped
  split at stepped
  · rename_i ctx live fresh
    cases stepped
    have member := mem_of_lookup live
    have isLive : ref ∈ c.fetch.live.map Prod.fst := List.mem_map_of_mem Prod.fst member
    have unseen : ref ∉ c.tasks.map Prod.fst := fun mem => by
      obtain ⟨entry, kept, rfl⟩ := List.mem_map.mp mem
      simp only [List.lookup_eq_none_iff, bne_iff_ne, ne_eq] at fresh
      exact fresh entry kept rfl
    refine ⟨coupled.reach, ?_, ?_, ?_, ?_, ?_, ?_⟩ <;>
      simp only [List.forall_mem_append, List.forall_mem_singleton, List.map_append]
    · simpa [List.nodup_append, unseen] using coupled.refs_nodup
    · exact ⟨coupled.ref_lt, coupled.reach.invariant.registry.ref_lt _ member⟩
    · exact ⟨coupled.progress, rfl, rfl⟩
    · exact ⟨coupled.live_iff, by simp [isLive, InputTask.init]⟩
    · refine ⟨coupled.context_ids, fun ctx' mem => ?_⟩
      cases List.inj_on_of_nodup_map coupled.reach.invariant.registry.refs_nodup member mem rfl
      rfl
    · exact ⟨coupled.pushesBeforeCancel, fun _ => ⟨.success, by simp [InputTask.init], fun _ _ same => by cases same⟩⟩
  · cases stepped

theorem mem_map_fst_filter {α : Type} {entries : List (Nat × α)} {ref key : Nat} :
    key ∈ (entries.filter (·.1 ≠ ref)).map Prod.fst ↔ key ∈ entries.map Prod.fst ∧ key ≠ ref := by
  simp only [List.mem_map, List.mem_filter, decide_eq_true_eq]
  constructor
  · rintro ⟨entry, ⟨member, unequal⟩, rfl⟩
    exact ⟨⟨entry, member, rfl⟩, unequal⟩
  · rintro ⟨⟨entry, member, rfl⟩, unequal⟩
    exact ⟨entry, ⟨member, unequal⟩, rfl⟩

/-- A task step keeps the coupling: a task runs `exit_context` only while its
context is live, so the fetch side accepts it, and then the context is gone. -/
theorem Coupled.taskStep (coupled : c.Coupled cfg) {ref : Nat} {e : InputEvent Value}
    (stepped : c.taskStep cfg codec maxObjectSizeBytes describe ref e = some c') : c'.Coupled cfg := by
  unfold Container.taskStep at stepped
  split at stepped
  · cases stepped
  · rename_i t found
    have member := mem_of_lookup found
    obtain ⟨t', moved, rest⟩ := Option.bind_eq_some.mp stepped
    obtain ⟨sameIds, progress'⟩ := InputTask.step_progress codec maxObjectSizeBytes describe
      (show ({ t with store := c.store } : InputTask Value).Progress from coupled.progress _ member) moved
    have progressSet : ∀ entry ∈ setTask c.tasks ref t', entry.2.Progress := fun entry kept =>
      (mem_setTask kept).elim (fun same => same ▸ progress') fun ⟨_, old⟩ => coupled.progress entry old
    have pushesBeforeCancelSet : ∀ entry ∈ setTask c.tasks ref t', entry.2.PushesBeforeCancel := fun entry kept =>
      (mem_setTask kept).elim
        (fun same => same ▸ InputTask.step_pushesBeforeCancel codec maxObjectSizeBytes describe
          (show ({ t with store := c.store } : InputTask Value).Progress from coupled.progress _ member)
          (coupled.pushesBeforeCancel _ member) moved)
        fun ⟨_, old⟩ => coupled.pushesBeforeCancel entry old
    have idsSet : ∀ entry ∈ setTask c.tasks ref t', ∀ ctx, (entry.1, ctx) ∈ c.fetch.live →
        entry.2.context.inputIds = ctx.inputIds := fun entry kept ctx live =>
      (mem_setTask kept).elim (fun same => by
          subst same
          exact sameIds.trans (coupled.context_ids _ member ctx live))
        fun ⟨_, old⟩ => coupled.context_ids entry old ctx live
    split_ifs at rest with same
    · cases rest
      refine ⟨coupled.reach, by simpa using coupled.refs_nodup, fun entry kept => ?_, progressSet,
        fun entry kept => ?_, idsSet, pushesBeforeCancelSet⟩ <;> rcases mem_setTask kept with rfl | ⟨_, old⟩
      · exact coupled.ref_lt (ref, t) member
      · exact coupled.ref_lt entry old
      · exact same.symm ▸ coupled.live_iff _ member
      · exact coupled.live_iff entry old
    · obtain ⟨fetch, exited, rfl⟩ := Option.map_eq_some'.mp rest
      obtain ⟨ctx, live, rfl⟩ := Option.map_eq_some'.mp exited
      have isLive : ref ∈ c.fetch.live.map Prod.fst := List.mem_map_of_mem Prod.fst (mem_of_lookup live)
      have wasZero : t.exits = 0 := (coupled.live_iff _ member).mp isLive
      obtain ⟨filtered, next⟩ := FetchState.exitContext_live (s := c.fetch) ref ctx
      refine ⟨coupled.reach.step (show c.fetch.Admissible (.exitContext ref) from isLive) exited,
        by simpa using coupled.refs_nodup, fun entry kept => ?_, progressSet, fun entry kept => ?_,
        fun entry kept ctx' mem => idsSet entry kept ctx' ?_, pushesBeforeCancelSet⟩
      rotate_left 2
      · rw [filtered] at mem
        exact List.mem_of_mem_filter mem
      all_goals rcases mem_setTask kept with rfl | ⟨other, old⟩
      · exact next ▸ (show ref < c.fetch.nextContext from coupled.ref_lt _ member)
      · exact next ▸ coupled.ref_lt entry old
      · simp only [filtered, mem_map_fst_filter, ne_eq, not_true_eq_false, and_false, false_iff]
        exact fun zero => same (zero.trans wasZero.symm)
      · rw [filtered, mem_map_fst_filter, coupled.live_iff entry old]
        exact and_iff_left other

/-- A heartbeat keeps the coupling: it changes no task's inputs, exits or refs. -/
theorem Coupled.heartbeat (coupled : c.Coupled cfg) (inputIds : List String) (now : Nat) :
    (c.handleCancellations inputIds now).Coupled cfg := by
  rw [handleCancellations_eq coupled.refs_nodup coupled.keyed]
  refine ⟨coupled.reach, by simpa [Function.comp_def] using coupled.refs_nodup, ?_, ?_, ?_, ?_, ?_⟩ <;>
    simp only [List.forall_mem_map, InputTask.exits_heartbeatCancel, InputTask.inputIds_context_heartbeatCancel]
  · exact coupled.ref_lt
  · exact fun entry member => InputTask.progress_heartbeatCancel (coupled.progress entry member) inputIds now
  · exact coupled.live_iff
  · exact coupled.context_ids
  · exact fun entry member => InputTask.pushesBeforeCancel_heartbeatCancel (coupled.pushesBeforeCancel entry member) inputIds now

theorem Coupled.step (coupled : c.Coupled cfg) {e : ContainerEvent Value} (admissible : c.Admissible e)
    (stepped : c.step cfg codec maxObjectSizeBytes describe e = some c') : c'.Coupled cfg := by
  cases e with
  | fetch e =>
      simp only [Container.step] at stepped
      split at stepped
      · cases stepped
      · rename_i notExit
        obtain ⟨fetch, moved, rfl⟩ := Option.map_eq_some'.mp stepped
        exact coupled.fetchStep admissible notExit moved
  | spawn ref startedAt dataFormat => exact coupled.spawn stepped
  | task ref e =>
      simp only [Container.step] at stepped
      split at stepped
      · cases stepped
      · exact coupled.taskStep stepped
  | heartbeat inputIds now => exact Option.some.inj stepped ▸ coupled.heartbeat inputIds now

end Container

open Container

section Runs

variable {Value : Type} {cfg : FetchConfig} {codec : Codec Value} {maxObjectSizeBytes : Nat}
  {describe : PyError → RaisedException} {c c' : Container Value}

theorem ContainerRun.coupled {c₀ : Container Value} (coupled : c₀.Coupled cfg)
    (ran : ContainerRun cfg codec maxObjectSizeBytes describe c₀ c) : c.Coupled cfg := by
  induction ran with
  | here => exact coupled
  | step _ admissible stepped inductionHypothesis => exact inductionHypothesis.step admissible stepped

/-- A `FAILURE` output whose push a cancel event interrupts. -/
def failingCall : RaisedException := ⟨"Exception()", "", [], none, none⟩

/-- In every run of the container, a task has sent both `SUCCESS` and
`TERMINATED` records for its inputs only once `cancel()` has invoked its
callback: a cancellation the user code raises by itself never gives an input a
second record. -/
theorem duplicate_records_need_cancel
    (ran : ContainerRun cfg codec maxObjectSizeBytes describe (.init cfg) c) {ref : Nat}
    {t : InputTask Value} (member : (ref, t) ∈ c.tasks)
    (succeeded : ∃ item ∈ t.sent.flatten, item.result.status = .success)
    (terminated : ∃ item ∈ t.sent.flatten, item.result.status = .terminated) :
    t.context.cancelIssued = true := by
  by_contra notIssued
  obtain ⟨status, uniform, -⟩ := (ran.coupled init_coupled).pushesBeforeCancel _ member (by simpa using notIssued)
  obtain ⟨first, sentFirst, success⟩ := succeeded
  obtain ⟨second, sentSecond, terminated⟩ := terminated
  obtain rfl : status = .terminated := by
    rcases uniform second sentSecond with same | ⟨success', -⟩
    · exact same.symm.trans terminated
    · cases success'.symm.trans terminated
  rcases uniform first sentFirst with same | ⟨-, failure⟩
  · cases success.symm.trans same
  · cases failure

theorem cancel_event_duplicates_success :
    ∃ c, ContainerRun singleInputConfig bytesCodec 16 describeInvalid (.init singleInputConfig) c ∧
      ∃ t, (0, t) ∈ c.tasks ∧ (∃ item ∈ t.sent.flatten, item.result.status = .success) ∧
        (∃ item ∈ t.sent.flatten, item.result.status = .terminated) ∧ t.context.cancelIssued = true := by
  obtain ⟨c, ran, summarised⟩ := ContainerRun.of_run singleInputConfig bytesCodec 16 describeInvalid
    [.fetch .fetch, .fetch (.getInputs singleInputResponse), .fetch (.create fun _ => none),
      .spawn 0 0 .pickle, .task 0 .setCancelCallback, .task 0 (.userReturns [1] 1), .task 0 (.awaited 2),
      .heartbeat ["in-1"] 3]
    (fun c => c.tasks.map fun entry => (entry.1, entry.2.sent.flatten.map (·.result.status)))
    [(0, [.success, .terminated])] (by decide)
  obtain ⟨⟨ref, t⟩, member, same⟩ := List.mem_map.mp (summarised ▸ List.mem_singleton_self _ :
    ((0 : Nat), [ResultStatus.success, .terminated]) ∈
      c.tasks.map fun entry => (entry.1, entry.2.sent.flatten.map (·.result.status)))
  simp only [Prod.mk.injEq] at same
  obtain ⟨rfl, statuses⟩ := same
  have sent : ∀ status ∈ [ResultStatus.success, .terminated], ∃ item ∈ t.sent.flatten,
      item.result.status = status := fun status listed => List.mem_map.mp (statuses ▸ listed)
  have succeeded := sent .success (by simp)
  have terminated := sent .terminated (by simp)
  exact ⟨c, ran, t, member, succeeded, terminated,
    duplicate_records_need_cancel ran member succeeded terminated⟩

end Runs

end ContainerIO
