import ContainerIO.Outputs

/-!
# Cancelling an input while its outputs are pushed

The task of one input runs the user call and `push_outputs` inside
`handle_input_exception`, and the heartbeat loop may cancel the input at any
of the task's awaits. A step runs the task from one await to the next, or is
one heartbeat's `cancel_input_event`. The callback the caller attaches with
`set_cancel_callback` raises a cancellation at the task's pending await.

The handler catches that cancellation only inside the block. Raised while the
`SUCCESS` outputs are being pushed, it starts a second push, of `TERMINATED`
outputs. Raised while the catch-all branch pushes its `FAILURE` outputs, it
leaves the block before `exit_context`. The task may also raise by itself: an
output `serialize_data_format` rejects, a failed upload, or a
`FunctionPutOutputs` status `retry_transient_errors` does not retry. Inside the
block that reaches the catch-all, so a `FAILURE` push can follow part of the
`SUCCESS` push; inside a handler it leaves the block. Over every run
`exit_context` runs at most once, exactly when the block is left normally, and
the items sent are those of at most two pushes.
-/

namespace ContainerIO

/-- How the user call ends when it raises. -/
inductive UserException where
  /-- `KeyboardInterrupt` or `GeneratorExit`, which the handler re-raises. -/
  | reraised
  /-- `InputCancellation` or `asyncio.CancelledError`. -/
  | cancellation
  | other (exc : RaisedException)
  deriving DecidableEq, Repr

/-- The await the input's task is suspended at. -/
inductive InputPc (Value : Type) where
  | userCall
  /-- `push_outputs`: the `asyncio.gather` of `format_blob_data` for a value
  whose outputs `validate_output_data` accepted and `serialize_data_format`
  serialized. -/
  | formatting (data : Value)
  /-- The catch-all branch: the `blob_upload` of an oversized serialized exception. -/
  | failureUpload (exc : RaisedException)
  /-- `_push_outputs` awaits the reply to its last request; `pending` are the
  requests still to send. -/
  | putOutputs (status : ResultStatus) (pending : List (List FunctionPutOutputsItem))
  /-- The block has been left, by an exception if `raised`. -/
  | left (raised : Bool)
  deriving DecidableEq, Repr

structure InputTask (Value : Type) where
  context : IOContext
  startedAt : Nat
  dataFormat : DataFormat
  store : BlobStore
  pc : InputPc Value
  /-- Every `FunctionPutOutputs` request sent for the context, in order. -/
  sent : List (List FunctionPutOutputsItem)
  /-- How often `exit_context` ran for the context; its ids are keys of
  `current_inputs` while this is 0. -/
  exits : Nat
  deriving DecidableEq, Repr

/-- What ends the task's pending await, and the heartbeats. `now` is
`time.time()` when the task resumes. -/
inductive InputEvent (Value : Type) where
  | userReturns (data : Value) (now : Nat)
  | userRaises (exc : UserException) (now : Nat)
  /-- The pending upload or `FunctionPutOutputs` reply completes. -/
  | awaited (now : Nat)
  /-- The pending upload or `FunctionPutOutputs` call raises `exc`: a failed
  `blob_upload`, or a status `retry_transient_errors` re-raises. -/
  | awaitRaises (exc : RaisedException) (now : Nat)
  | setCancelCallback
  /-- A heartbeat response whose `cancel_input_event` lists `inputIds`. -/
  | heartbeatCancel (inputIds : List String) (now : Nat)
  deriving DecidableEq, Repr

namespace IOContext

/-- The loop of `_heartbeat_handle_cancellations` as it reaches one context:
`cancel()` for every listed id of the context while its ids are keys of
`current_inputs` (`live`); whether the callback fired. -/
def cancelListed (c : IOContext) (live : Bool) : List String → IOContext × Bool
  | [] => (c, false)
  | inputId :: rest =>
      let cancelled := if live ∧ inputId ∈ c.inputIds then c.cancel else (c, false)
      let later := cancelled.1.cancelListed live rest
      (later.1, cancelled.2 || later.2)

@[simp] theorem inputIds_setCancelCallback (c : IOContext) :
    c.setCancelCallback.inputIds = c.inputIds := rfl

@[simp] theorem inputIds_cancel (c : IOContext) : c.cancel.1.inputIds = c.inputIds := by
  unfold cancel
  split_ifs <;> rfl

@[simp] theorem inputIds_cancelListed (c : IOContext) (live : Bool) (inputIds : List String) :
    (c.cancelListed live inputIds).1.inputIds = c.inputIds := by
  induction inputIds generalizing c with
  | nil => rfl
  | cons inputId rest inductionHypothesis =>
      simp only [cancelListed, inductionHypothesis]
      split_ifs <;> simp

@[simp] theorem hasCancelCallback_cancel (c : IOContext) :
    c.cancel.1.hasCancelCallback = c.hasCancelCallback := by
  unfold cancel
  split_ifs <;> rfl

@[simp] theorem cancel_fired (c : IOContext) :
    c.cancel.2 = (!c.cancelIssued && c.hasCancelCallback) := by
  cases issued : c.cancelIssued <;> cases callback : c.hasCancelCallback <;>
    simp [cancel, issued, callback]

theorem cancelIssued_cancel (c : IOContext) :
    c.cancel.1.cancelIssued = (c.cancelIssued || c.cancel.2) := by
  cases issued : c.cancelIssued <;> cases callback : c.hasCancelCallback <;>
    simp [cancel, issued, callback]

@[simp] theorem hasCancelCallback_cancelListed (c : IOContext) (live : Bool)
    (inputIds : List String) :
    (c.cancelListed live inputIds).1.hasCancelCallback = c.hasCancelCallback := by
  induction inputIds generalizing c with
  | nil => rfl
  | cons inputId rest inductionHypothesis =>
      simp only [cancelListed, inductionHypothesis]
      split_ifs <;> simp

theorem cancelIssued_cancelListed (c : IOContext) (live : Bool) (inputIds : List String) :
    (c.cancelListed live inputIds).1.cancelIssued =
      (c.cancelIssued || (c.cancelListed live inputIds).2) := by
  induction inputIds generalizing c with
  | nil => simp [cancelListed]
  | cons inputId rest inductionHypothesis =>
      simp only [cancelListed, inductionHypothesis]
      split_ifs
      · rw [cancelIssued_cancel, Bool.or_assoc]
      · simp

/-- The loop invokes the callback exactly when the flag is clear, a callback is
attached, the context is live and one of its ids is listed. -/
theorem cancelListed_fired_iff (c : IOContext) (live : Bool) (inputIds : List String) :
    (c.cancelListed live inputIds).2 = true ↔ c.cancelIssued = false ∧
      c.hasCancelCallback = true ∧ live = true ∧ ∃ inputId ∈ inputIds, inputId ∈ c.inputIds := by
  induction inputIds generalizing c with
  | nil => simp [cancelListed]
  | cons inputId rest inductionHypothesis =>
      simp only [cancelListed, Bool.or_eq_true, inductionHypothesis, List.mem_cons, or_and_right,
        exists_or, exists_eq_left]
      split_ifs with listed
      · obtain ⟨rfl, mem⟩ := listed
        cases issued : c.cancelIssued <;> cases callback : c.hasCancelCallback <;>
          simp [issued, callback, cancelIssued_cancel, mem]
      · simp only [Bool.false_eq_true, false_or]
        constructor
        · exact fun ⟨issued, callback, alive, found⟩ => ⟨issued, callback, alive, Or.inr found⟩
        · rintro ⟨issued, callback, alive, mem | found⟩
          · exact absurd ⟨alive, mem⟩ listed
          · exact ⟨issued, callback, alive, found⟩

theorem cancelListed_of_cancelIssued {c : IOContext} (issued : c.cancelIssued = true) (live : Bool)
    (inputIds : List String) : c.cancelListed live inputIds = (c, false) := by
  induction inputIds with
  | nil => rfl
  | cons inputId rest inductionHypothesis =>
      simp only [cancelListed, cancel, issued, if_true, ite_self, inductionHypothesis, Bool.or_false]

theorem cancel_of_not_fired {c : IOContext} (quiet : c.cancel.2 = false) : c.cancel = (c, false) := by
  revert quiet
  unfold cancel
  split_ifs <;> simp

/-- The loop leaves the context as it was, or, when it invoked the callback,
marks it cancelled. -/
theorem cancelListed_eq (c : IOContext) (live : Bool) (inputIds : List String) :
    (c.cancelListed live inputIds).1 =
      if (c.cancelListed live inputIds).2 then { c with cancelIssued := true } else c := by
  induction inputIds generalizing c with
  | nil => rfl
  | cons inputId rest inductionHypothesis =>
      by_cases listed : live = true ∧ inputId ∈ c.inputIds
      · cases fired : c.cancel.2 with
        | false => simpa [cancelListed, listed, cancel_of_not_fired fired] using inductionHypothesis c
        | true =>
            have marked : c.cancel = ({ c with cancelIssued := true }, true) := by
              revert fired
              unfold cancel
              split_ifs <;> simp
            simp [cancelListed, listed, marked, cancelListed_of_cancelIssued]
      · simpa [cancelListed, listed] using inductionHypothesis c

theorem terminatedRequests_ne_nil (c : IOContext) (startedAt outputCreatedAt : Nat) :
    c.terminatedRequests startedAt outputCreatedAt ≠ [] := by
  have count : (c.terminatedRequests startedAt outputCreatedAt).length = (c.inputIds.length + 19) / 20 :=
    (c.sends_constant startedAt outputCreatedAt .pickle terminatedResult).count
  have nonempty := List.length_pos.mpr c.inputIds_ne_nil
  exact List.ne_nil_of_length_pos (by omega)

end IOContext

namespace InputTask

variable {Value : Type}

def init (context : IOContext) (startedAt : Nat) (dataFormat : DataFormat) (store : BlobStore) :
    InputTask Value :=
  ⟨context, startedAt, dataFormat, store, .userCall, [], 0⟩

/-- `exit_context`, the last statement of `push_outputs` and of both handlers:
the block is left normally after it. -/
def exitContext (t : InputTask Value) : InputTask Value :=
  { t with exits := t.exits + 1, pc := .left false }

/-- The loop of `_push_outputs` at its next request: sent and awaited, or, with
none left, the call returns. -/
def sendNext (t : InputTask Value) (status : ResultStatus) :
    List (List FunctionPutOutputsItem) → InputTask Value
  | [] => t.exitContext
  | request :: pending => { t with pc := .putOutputs status pending, sent := t.sent ++ [request] }

/-- The `(InputCancellation, CancelledError)` branch of `handle_input_exception`. -/
def cancellationBranch (t : InputTask Value) (now : Nat) : InputTask Value :=
  t.sendNext .terminated (t.context.terminatedRequests t.startedAt now)

/-- A cancellation raised at the pending await: inside the block the handler
pushes `TERMINATED` outputs; inside a handler it propagates out of the block. -/
def raiseCancellation (t : InputTask Value) (now : Nat) : InputTask Value :=
  match t.pc with
  | .userCall | .formatting _ | .putOutputs .success _ => t.cancellationBranch now
  | .failureUpload _ | .putOutputs _ _ => { t with pc := .left true }
  | .left _ => t

/-- `_heartbeat_handle_cancellations` for a response listing `inputIds`. -/
def heartbeatCancel (t : InputTask Value) (inputIds : List String) (now : Nat) :
    InputTask Value :=
  let cancelled := t.context.cancelListed (t.exits == 0) inputIds
  let t' := { t with context := cancelled.1 }
  if cancelled.2 then t'.raiseCancellation now else t'

/-- `cancel()` on the task's context, as the heartbeat loop calls it for one
listed id: the callback, when invoked, raises the cancellation at the task's
pending await. -/
def cancel (t : InputTask Value) (now : Nat) : InputTask Value :=
  let cancelled := t.context.cancel
  let t' := { t with context := cancelled.1 }
  if cancelled.2 then t'.raiseCancellation now else t'

section Steps

variable (codec : Codec Value) (maxObjectSizeBytes : Nat) (describe : PyError → RaisedException)

/-- The catch-all branch of `handle_input_exception` for `exc`; an oversized
serialized exception is uploaded first. -/
def catchAll (t : InputTask Value) (exc : RaisedException) (now : Nat) : InputTask Value :=
  if exc.serialized.length > maxObjectSizeBytes then { t with pc := .failureUpload exc }
  else
    let pushed := t.context.failureRequests maxObjectSizeBytes t.store t.startedAt now exc
    { t with store := pushed.2 }.sendNext .failure pushed.1

/-- One step of the task, or a heartbeat. `describe` is what the serializers
make of an error the manager or `serialize_data_format` raises. `push_outputs`
validated and serialized the value before its await; `pushOutputs` repeats
that, with the same result. -/
def step (t : InputTask Value) : InputEvent Value → Option (InputTask Value)
  | .userReturns data now =>
      match t.pc with
      | .userCall =>
          match t.context.serializeOutputs codec data t.dataFormat with
          | .ok _ => some { t with pc := .formatting data }
          | .error e => some (t.catchAll maxObjectSizeBytes (describe e) now)
      | _ => none
  | .userRaises exc now =>
      match t.pc, exc with
      | .userCall, .reraised => some { t with pc := .left true }
      | .userCall, .cancellation => some (t.cancellationBranch now)
      | .userCall, .other exc => some (t.catchAll maxObjectSizeBytes exc now)
      | _, _ => none
  | .awaited now =>
      match t.pc with
      | .formatting data =>
          match t.context.pushOutputs codec maxObjectSizeBytes t.store t.startedAt now data
              t.dataFormat with
          | .ok (requests, store) => some ({ t with store }.sendNext .success requests)
          | .error e => some (t.catchAll maxObjectSizeBytes (describe e) now)
      | .failureUpload exc =>
          let pushed := t.context.failureRequests maxObjectSizeBytes t.store t.startedAt now exc
          some ({ t with store := pushed.2 }.sendNext .failure pushed.1)
      | .putOutputs status pending => some (t.sendNext status pending)
      | _ => none
  | .awaitRaises exc now =>
      match t.pc with
      | .formatting _ | .putOutputs .success _ => some (t.catchAll maxObjectSizeBytes exc now)
      | .failureUpload _ | .putOutputs _ _ => some { t with pc := .left true }
      | _ => none
  | .setCancelCallback => some { t with context := t.context.setCancelCallback }
  | .heartbeatCancel inputIds now => some (t.heartbeatCancel inputIds now)

def run (t : InputTask Value) : List (InputEvent Value) → Option (InputTask Value)
  | [] => some t
  | e :: rest => (t.step codec maxObjectSizeBytes describe e).bind (·.run rest)

end Steps

end InputTask

section Runs

variable {Value : Type} (codec : Codec Value) (maxObjectSizeBytes : Nat)
  (describe : PyError → RaisedException)

inductive InputReachable (start : InputTask Value) : InputTask Value → Prop
  | init : InputReachable start start
  | step {t e t'} : InputReachable start t →
      t.step codec maxObjectSizeBytes describe e = some t' → InputReachable start t'

variable {codec maxObjectSizeBytes describe}

theorem InputReachable.run {start t : InputTask Value}
    (reach : InputReachable codec maxObjectSizeBytes describe start t) :
    ∀ {events : List (InputEvent Value)} {t' : InputTask Value},
      t.run codec maxObjectSizeBytes describe events = some t' →
      InputReachable codec maxObjectSizeBytes describe start t'
  | [], _, ran => by cases ran; exact reach
  | e :: rest, _, ran => by
      cases stepped : t.step codec maxObjectSizeBytes describe e with
      | none => simp [InputTask.run, stepped] at ran
      | some next =>
          simp only [InputTask.run, stepped, Option.some_bind] at ran
          exact (reach.step stepped).run ran

variable (codec maxObjectSizeBytes describe)

theorem InputReachable.of_run {β : Type} (start : InputTask Value)
    (events : List (InputEvent Value)) (f : InputTask Value → β) (summary : β)
    (ran : (start.run codec maxObjectSizeBytes describe events).map f = some summary) :
    ∃ t, InputReachable codec maxObjectSizeBytes describe start t ∧ f t = summary := by
  obtain ⟨t, ran, summarised⟩ := Option.map_eq_some'.mp ran
  exact ⟨t, InputReachable.init.run ran, summarised⟩

end Runs

/-- A codec whose values are their own serialization. -/
def bytesCodec : Codec Bytes := ⟨fun _ => none, fun value _ => .ok value⟩

/-- What the serializers make of a raised `InvalidError`. -/
def describeInvalid (_ : PyError) : RaisedException := ⟨"InvalidError()", "", [], none, none⟩

/-- The input, its callback attached, returns; a cancel event for it arrives
while the reply to its `SUCCESS` output is awaited, and the task pushes a
`TERMINATED` output for it as well. The user call raises instead; a cancel
event arrives while the reply to its `FAILURE` output is awaited, and the block
is left by `CancelledError` with `exit_context` never run. -/
theorem cancel_during_push_outputs :
    (∃ t, InputReachable bytesCodec 16 describeInvalid (.init oneInputContext 0 .pickle []) t ∧
      t.pc = .left false ∧ t.exits = 1 ∧
      t.sent.flatten.map (fun item => (item.inputId, item.result.status)) =
        [("in-1", .success), ("in-1", .terminated)]) ∧
    (∃ t, InputReachable bytesCodec 16 describeInvalid (.init oneInputContext 0 .pickle []) t ∧
      t.pc = .left true ∧ t.exits = 0 ∧
      t.sent.flatten.map (fun item => (item.inputId, item.result.status)) =
        [("in-1", .failure)]) := by
  constructor
  · obtain ⟨t, reach, summarised⟩ := InputReachable.of_run bytesCodec 16 describeInvalid
      (.init oneInputContext 0 .pickle [])
      [.setCancelCallback, .userReturns [1] 1, .awaited 2, .heartbeatCancel ["in-1"] 3, .awaited 4]
      (fun t => (t.pc, t.exits, t.sent.flatten.map (fun item => (item.inputId, item.result.status))))
      (.left false, 1, [("in-1", .success), ("in-1", .terminated)]) (by decide)
    simp only [Prod.mk.injEq] at summarised
    exact ⟨t, reach, summarised⟩
  · obtain ⟨t, reach, summarised⟩ := InputReachable.of_run bytesCodec 16 describeInvalid
      (.init oneInputContext 0 .pickle [])
      [.setCancelCallback, .userRaises (.other ⟨"Exception()", "", [], none, none⟩) 1,
        .heartbeatCancel ["in-1"] 2]
      (fun t => (t.pc, t.exits, t.sent.flatten.map (fun item => (item.inputId, item.result.status))))
      (.left true, 0, [("in-1", .failure)]) (by decide)
    simp only [Prod.mk.injEq] at summarised
    exact ⟨t, reach, summarised⟩

section Invariant

/-- Items of one `_push_outputs` call, or a first part of them: all of `status`,
carrying the inputs `inputIds` in order. -/
def PushedInOrder (inputIds : List String) (status : ResultStatus)
    (items : List FunctionPutOutputsItem) : Prop :=
  items.map (·.inputId) <+: inputIds ∧ ∀ item ∈ items, item.result.status = status

/-- `first ++ second` is what at most two pushes sent: a first push, and a
second one, of `TERMINATED` or `FAILURE` outputs, only after a `SUCCESS` push
it interrupted. -/
def TwoPushes (inputIds : List String) (first second : List FunctionPutOutputsItem) : Prop :=
  (∃ status, PushedInOrder inputIds status first) ∧
    (second = [] ∨ PushedInOrder inputIds .success first ∧
      ∃ status ≠ .success, PushedInOrder inputIds status second)

@[simp] theorem pushedInOrder_nil (inputIds : List String) (status : ResultStatus) :
    PushedInOrder inputIds status [] :=
  ⟨List.nil_prefix, fun _ member => by cases member⟩

theorem PushedInOrder.of_append {inputIds : List String} {status : ResultStatus}
    {items rest : List FunctionPutOutputsItem} (pushed : PushedInOrder inputIds status (items ++ rest)) :
    PushedInOrder inputIds status items := by
  refine ⟨List.IsPrefix.trans ?_ pushed.1, fun item member => pushed.2 item (List.mem_append_left _ member)⟩
  rw [List.map_append]
  exact List.prefix_append _ _

theorem twoPushes_of_ongoing {inputIds : List String} {status : ResultStatus}
    {first current : List FunctionPutOutputsItem} (pushed : PushedInOrder inputIds status current)
    (before : first = [] ∨ status ≠ .success ∧ PushedInOrder inputIds .success first) :
    ∃ first' second, first ++ current = first' ++ second ∧ TwoPushes inputIds first' second := by
  rcases before with rfl | ⟨other, interrupted⟩
  · exact ⟨current, [], by simp, ⟨status, pushed⟩, .inl rfl⟩
  · exact ⟨first, current, rfl, ⟨.success, interrupted⟩, .inr ⟨interrupted, status, other, pushed⟩⟩

theorem IOContext.SendsOnePerInput.pushedInOrder {c : IOContext} {status : ResultStatus}
    {requests : List (List FunctionPutOutputsItem)}
    (sends : IOContext.SendsOnePerInput c (fun _ result => result.status = status) requests) :
    PushedInOrder c.inputIds status requests.flatten := by
  have ids : requests.flatten.map (·.inputId) = c.inputIds := by
    refine List.ext_getElem? fun i => ?_
    by_cases below : i < c.inputIds.length
    · obtain ⟨item, found, inputId, -, -⟩ := sends.item i below
      rw [List.getElem?_map, found, inputId]
      rfl
    · rw [List.getElem?_eq_none (by rw [List.length_map, sends.length]; omega),
        List.getElem?_eq_none (by omega)]
  exact ⟨ids ▸ List.prefix_refl _, fun _ member => (sends.forall_mem member).choose_spec⟩

theorem IOContext.pushedInOrder_constant (c : IOContext) (startedAt outputCreatedAt : Nat)
    (dataFormat : DataFormat) (result : GenericResult) :
    PushedInOrder c.inputIds result.status
      (c.pushOutputsRequests startedAt outputCreatedAt dataFormat
        (c.inputIds.map fun _ => result)).flatten :=
  ((IOContext.sends_constant c startedAt outputCreatedAt dataFormat result).mono
    fun _ _ same => congrArg GenericResult.status same).pushedInOrder

variable {Value : Type} (codec : Codec Value) (maxObjectSizeBytes : Nat)
  (describe : PyError → RaisedException)

theorem IOContext.pushedInOrder_of_pushOutputs {c : IOContext} {store store' : BlobStore}
    {startedAt outputCreatedAt : Nat} {data : Value} {dataFormat : DataFormat}
    {requests : List (List FunctionPutOutputsItem)}
    (pushed : c.pushOutputs codec maxObjectSizeBytes store startedAt outputCreatedAt data
      dataFormat = .ok (requests, store')) :
    PushedInOrder c.inputIds .success requests.flatten := by
  cases serialized : c.serializeOutputs codec data dataFormat with
  | error e =>
      rw [(IOContext.pushOutputs_eq_error codec maxObjectSizeBytes).mpr serialized] at pushed
      cases pushed
  | ok bytes =>
      obtain ⟨requests', store'', pushed', sends⟩ :=
        IOContext.pushOutputs_sends_outputs codec maxObjectSizeBytes serialized store startedAt
          outputCreatedAt
      rw [pushed', Except.ok.injEq, Prod.mk.injEq] at pushed
      obtain ⟨rfl, -⟩ := pushed
      exact (sends.mono fun _ _ sent => sent.1).pushedInOrder

namespace InputTask

@[simp] theorem context_sendNext (t : InputTask Value) (status : ResultStatus)
    (requests : List (List FunctionPutOutputsItem)) : (t.sendNext status requests).context = t.context := by
  cases requests <;> rfl

@[simp] theorem context_cancellationBranch (t : InputTask Value) (now : Nat) :
    (t.cancellationBranch now).context = t.context :=
  context_sendNext _ _ _

@[simp] theorem context_raiseCancellation (t : InputTask Value) (now : Nat) :
    (t.raiseCancellation now).context = t.context := by
  unfold raiseCancellation
  split <;> simp

@[simp] theorem context_catchAll (t : InputTask Value) (exc : RaisedException) (now : Nat) :
    (t.catchAll maxObjectSizeBytes exc now).context = t.context := by
  unfold catchAll
  split_ifs <;> simp

/-- A cancellation raised at the pending await never runs `exit_context`: the
handler's `TERMINATED` push has a request to await first. -/
@[simp] theorem exits_cancellationBranch (t : InputTask Value) (now : Nat) :
    (t.cancellationBranch now).exits = t.exits := by
  obtain ⟨request, pending, same⟩ :=
    List.exists_cons_of_ne_nil (t.context.terminatedRequests_ne_nil t.startedAt now)
  simp only [cancellationBranch, same, sendNext]

@[simp] theorem exits_raiseCancellation (t : InputTask Value) (now : Nat) :
    (t.raiseCancellation now).exits = t.exits := by
  unfold raiseCancellation
  split <;> simp

@[simp] theorem exits_cancel (t : InputTask Value) (now : Nat) : (t.cancel now).exits = t.exits := by
  dsimp only [cancel]
  split_ifs <;> simp

@[simp] theorem inputIds_context_cancel (t : InputTask Value) (now : Nat) :
    (t.cancel now).context.inputIds = t.context.inputIds := by
  dsimp only [cancel]
  split_ifs <;> simp

@[simp] theorem exits_heartbeatCancel (t : InputTask Value) (inputIds : List String) (now : Nat) :
    (t.heartbeatCancel inputIds now).exits = t.exits := by
  dsimp only [heartbeatCancel]
  split_ifs <;> simp

theorem heartbeatCancel_of_cancelIssued {t : InputTask Value} (issued : t.context.cancelIssued = true)
    (inputIds : List String) (now : Nat) : t.heartbeatCancel inputIds now = t := by
  simp only [heartbeatCancel, IOContext.cancelListed_of_cancelIssued issued, Bool.false_eq_true, if_false]

/-- The heartbeat loop one listed id at a time: an id of a live task's context
calls its `cancel()`, and the rest of the list acts on what that leaves. -/
theorem heartbeatCancel_cons (t : InputTask Value) (inputId : String) (rest : List String)
    (now : Nat) : t.heartbeatCancel (inputId :: rest) now =
      (if t.exits = 0 ∧ inputId ∈ t.context.inputIds then t.cancel now else t).heartbeatCancel rest now := by
  by_cases listed : t.exits = 0 ∧ inputId ∈ t.context.inputIds
  · cases fired : t.context.cancel.2 with
    | false =>
      simp [heartbeatCancel, cancel, IOContext.cancelListed, listed, IOContext.cancel_of_not_fired fired]
    | true =>
      have issued : t.context.cancel.1.cancelIssued = true := by
        rw [IOContext.cancelIssued_cancel, fired, Bool.or_true]
      have raised : t.cancel now = ({ t with context := t.context.cancel.1 } : InputTask Value).raiseCancellation now := by
        simp only [cancel, fired, if_true]
      rw [if_pos listed, raised, heartbeatCancel_of_cancelIssued
        (t := ({ t with context := t.context.cancel.1 } : InputTask Value).raiseCancellation now)
        (by simpa only [context_raiseCancellation] using issued)]
      simp only [heartbeatCancel, IOContext.cancelListed, listed.1, listed.2, beq_self_eq_true, and_self,
        if_true, IOContext.cancelListed_of_cancelIssued issued, fired, Bool.or_false]
  · simp [heartbeatCancel, IOContext.cancelListed, listed]

/-- A heartbeat listing `inputIds` reaches the task: the callback of its
context is attached and not yet invoked, the context is live, and one of its
ids is listed. -/
def CancelledBy (t : InputTask Value) (inputIds : List String) : Prop :=
  t.context.cancelIssued = false ∧ t.context.hasCancelCallback = true ∧ t.exits = 0 ∧
    ∃ inputId ∈ inputIds, inputId ∈ t.context.inputIds

instance (t : InputTask Value) (inputIds : List String) : Decidable (t.CancelledBy inputIds) :=
  inferInstanceAs (Decidable (t.context.cancelIssued = false ∧ t.context.hasCancelCallback = true ∧
    t.exits = 0 ∧ ∃ inputId ∈ inputIds, inputId ∈ t.context.inputIds))

/-- A heartbeat raises the cancellation in a task it reaches, whose context it
marks cancelled, and leaves any other task as it was. -/
theorem heartbeatCancel_eq (t : InputTask Value) (inputIds : List String) (now : Nat) :
    t.heartbeatCancel inputIds now =
      if t.CancelledBy inputIds then
        ({ t with context := { t.context with cancelIssued := true } } : InputTask Value).raiseCancellation now
      else t := by
  have fired : (t.context.cancelListed (t.exits == 0) inputIds).2 = true ↔ t.CancelledBy inputIds := by
    rw [IOContext.cancelListed_fired_iff, beq_iff_eq]
    rfl
  dsimp only [heartbeatCancel]
  rw [IOContext.cancelListed_eq]
  by_cases reached : t.CancelledBy inputIds
  · simp only [fired.mpr reached, reached, if_true]
  · simp only [Bool.eq_false_iff.mpr (mt fired.mp reached), reached, if_false, Bool.false_eq_true]

/-- What a run has done by the time the task is at its `pc`. -/
def Progress (t : InputTask Value) : Prop :=
  match t.pc with
  | .userCall | .formatting _ => t.exits = 0 ∧ t.sent = []
  | .failureUpload _ => t.exits = 0 ∧ PushedInOrder t.context.inputIds .success t.sent.flatten
  | .putOutputs status pending => t.exits = 0 ∧ ∃ first current,
      t.sent.flatten = first ++ current ∧
      PushedInOrder t.context.inputIds status (current ++ pending.flatten) ∧
      (first = [] ∨ status ≠ .success ∧ PushedInOrder t.context.inputIds .success first)
  | .left raised => t.exits = (if raised then 0 else 1) ∧
      ∃ first second, t.sent.flatten = first ++ second ∧ TwoPushes t.context.inputIds first second

theorem Progress.withContext {t : InputTask Value} (progress : t.Progress) {c : IOContext}
    (same : c.inputIds = t.context.inputIds) : Progress { t with context := c } := by
  simpa only [Progress, same] using progress

/-- Wherever the task is, what it sent is at most two pushes. -/
theorem Progress.twoPushes {t : InputTask Value} (progress : t.Progress) :
    ∃ first second, t.sent.flatten = first ++ second ∧ TwoPushes t.context.inputIds first second := by
  unfold Progress at progress
  split at progress
  · exact ⟨[], [], by simp [progress.2], ⟨.success, pushedInOrder_nil _ _⟩, .inl rfl⟩
  · exact ⟨[], [], by simp [progress.2], ⟨.success, pushedInOrder_nil _ _⟩, .inl rfl⟩
  · exact ⟨_, [], (List.append_nil _).symm, ⟨.success, progress.2⟩, .inl rfl⟩
  · obtain ⟨-, first, current, sent, pushed, before⟩ := progress
    obtain ⟨first', second, same, two⟩ := twoPushes_of_ongoing pushed.of_append before
    exact ⟨first', second, sent.trans same, two⟩
  · exact progress.2

theorem Progress.exits_le {t : InputTask Value} (progress : t.Progress) : t.exits ≤ 1 := by
  unfold Progress at progress
  split at progress <;> obtain ⟨exits, -⟩ := progress <;> (try split_ifs at exits) <;> omega

theorem Progress.exits_eq_zero {t : InputTask Value} (progress : t.Progress)
    (running : ∀ raised, t.pc ≠ .left raised) : t.exits = 0 := by
  cases pc : t.pc with
  | left raised => exact absurd pc (running raised)
  | _ =>
      simp only [Progress, pc] at progress
      exact progress.1

theorem Progress.successSent {t : InputTask Value} {pending : List (List FunctionPutOutputsItem)}
    (progress : t.Progress) (pc : t.pc = .putOutputs .success pending) :
    PushedInOrder t.context.inputIds .success t.sent.flatten := by
  simp only [Progress, pc] at progress
  obtain ⟨-, first, current, sent, pushed, rfl | ⟨other, -⟩⟩ := progress
  · simpa [sent] using pushed.of_append
  · exact absurd rfl other

theorem Progress.leave {t : InputTask Value} (progress : t.Progress) (exits : t.exits = 0) :
    Progress ({ t with pc := .left true } : InputTask Value) := by
  simp only [Progress, if_true]
  exact ⟨exits, progress.twoPushes⟩

theorem progress_sendNext {t : InputTask Value} {status : ResultStatus}
    {pending : List (List FunctionPutOutputsItem)} {first current : List FunctionPutOutputsItem}
    (exits : t.exits = 0) (sent : t.sent.flatten = first ++ current)
    (pushed : PushedInOrder t.context.inputIds status (current ++ pending.flatten))
    (before : first = [] ∨ status ≠ .success ∧ PushedInOrder t.context.inputIds .success first) :
    (t.sendNext status pending).Progress := by
  cases pending with
  | nil =>
      obtain ⟨first', second, same, two⟩ := twoPushes_of_ongoing (by simpa using pushed) before
      simp only [sendNext, exitContext, Progress, exits]
      exact ⟨by simp, first', second, sent.trans same, two⟩
  | cons request pending =>
      simp only [sendNext, Progress]
      exact ⟨exits, first, current ++ request, by simp [sent], by simpa using pushed, before⟩

theorem progress_startPush {t : InputTask Value} {status : ResultStatus}
    {requests : List (List FunctionPutOutputsItem)} (exits : t.exits = 0)
    (pushed : PushedInOrder t.context.inputIds status requests.flatten)
    (before : t.sent.flatten = [] ∨
      status ≠ .success ∧ PushedInOrder t.context.inputIds .success t.sent.flatten) :
    (t.sendNext status requests).Progress :=
  progress_sendNext exits (List.append_nil _).symm (by simpa using pushed) before

theorem progress_cancellationBranch {t : InputTask Value} (now : Nat) (exits : t.exits = 0)
    (interrupted : PushedInOrder t.context.inputIds .success t.sent.flatten) :
    (t.cancellationBranch now).Progress :=
  progress_startPush exits (IOContext.pushedInOrder_constant _ _ _ _ _) (.inr ⟨by decide, interrupted⟩)

theorem progress_catchAll {t : InputTask Value} (exc : RaisedException) (now : Nat)
    (exits : t.exits = 0) (interrupted : PushedInOrder t.context.inputIds .success t.sent.flatten) :
    (t.catchAll maxObjectSizeBytes exc now).Progress := by
  unfold catchAll
  split_ifs
  · exact ⟨exits, interrupted⟩
  · exact progress_startPush exits (IOContext.pushedInOrder_constant _ _ _ _ _)
      (.inr ⟨by decide, interrupted⟩)

theorem progress_raiseCancellation {t : InputTask Value} (now : Nat) (progress : t.Progress) :
    (t.raiseCancellation now).Progress := by
  unfold raiseCancellation
  cases pc : t.pc with
  | userCall | formatting =>
      simp only [Progress, pc] at progress
      exact progress_cancellationBranch now progress.1 (by simp [progress.2])
  | failureUpload => exact progress.leave (progress.exits_eq_zero (by simp [pc]))
  | putOutputs status pending =>
      have exits := progress.exits_eq_zero (by simp [pc])
      cases status
      · exact progress_cancellationBranch now exits (progress.successSent pc)
      all_goals exact progress.leave exits
  | left raised => exact progress

@[simp] theorem inputIds_context_heartbeatCancel (t : InputTask Value) (inputIds : List String)
    (now : Nat) : (t.heartbeatCancel inputIds now).context.inputIds = t.context.inputIds := by
  dsimp only [heartbeatCancel]
  split_ifs <;> simp

theorem progress_heartbeatCancel {t : InputTask Value} (progress : t.Progress) (inputIds : List String)
    (now : Nat) : (t.heartbeatCancel inputIds now).Progress := by
  have kept := progress.withContext (c := (t.context.cancelListed (t.exits == 0) inputIds).1) (by simp)
  dsimp only [heartbeatCancel]
  split_ifs
  · exact progress_raiseCancellation now kept
  · exact kept

/-- A step keeps the context's inputs and what the run has done in order. -/
theorem step_progress {t t' : InputTask Value} {e : InputEvent Value} (progress : t.Progress)
    (stepped : t.step codec maxObjectSizeBytes describe e = some t') :
    t'.context.inputIds = t.context.inputIds ∧ t'.Progress := by
  cases e with
  | setCancelCallback =>
      cases stepped
      exact ⟨rfl, progress.withContext (by simp)⟩
  | heartbeatCancel inputIds now =>
      cases stepped
      exact ⟨by simp, progress_heartbeatCancel progress inputIds now⟩
  | userReturns data now =>
      simp only [step] at stepped
      split at stepped
      · next pc =>
          simp only [Progress, pc] at progress
          split at stepped <;> cases stepped
          · exact ⟨rfl, by simp only [Progress]; exact progress⟩
          · exact ⟨by simp, progress_catchAll maxObjectSizeBytes _ now progress.1 (by simp [progress.2])⟩
      · cases stepped
  | userRaises exc now =>
      simp only [step] at stepped
      split at stepped <;> cases stepped <;> rename_i pc
      · exact ⟨rfl, progress.leave (progress.exits_eq_zero (by simp [pc]))⟩
      all_goals simp only [Progress, pc] at progress
      · exact ⟨by simp, progress_cancellationBranch now progress.1 (by simp [progress.2])⟩
      · exact ⟨by simp, progress_catchAll maxObjectSizeBytes _ now progress.1 (by simp [progress.2])⟩
  | awaited now =>
      simp only [step] at stepped
      split at stepped
      · next data pc =>
          simp only [Progress, pc] at progress
          split at stepped <;> cases stepped
          · next requests store pushed =>
              exact ⟨by simp, progress_startPush progress.1
                (IOContext.pushedInOrder_of_pushOutputs codec maxObjectSizeBytes pushed)
                (.inl (by simp [progress.2]))⟩
          · exact ⟨by simp, progress_catchAll maxObjectSizeBytes _ now progress.1 (by simp [progress.2])⟩
      · next exc pc =>
          simp only [Progress, pc] at progress
          cases stepped
          exact ⟨by simp, progress_startPush progress.1 (IOContext.pushedInOrder_constant _ _ _ _ _)
            (.inr ⟨by decide, progress.2⟩)⟩
      · next status pending pc =>
          simp only [Progress, pc] at progress
          cases stepped
          obtain ⟨exits, first, current, sent, pushed, before⟩ := progress
          exact ⟨by simp, progress_sendNext exits sent pushed before⟩
      · cases stepped
  | awaitRaises exc now =>
      simp only [step] at stepped
      split at stepped <;> cases stepped <;> rename_i pc <;>
        have exits := progress.exits_eq_zero (by simp [pc])
      · simp only [Progress, pc] at progress
        exact ⟨by simp, progress_catchAll maxObjectSizeBytes _ now exits (by simp [progress.2])⟩
      · exact ⟨by simp, progress_catchAll maxObjectSizeBytes _ now exits (progress.successSent pc)⟩
      all_goals exact ⟨rfl, progress.leave exits⟩

/-- Until `cancel()` invokes the context's callback, the items the task has
sent have one status, and so does a push it awaits, except that `FAILURE`
items may follow `SUCCESS` items whose push raised. -/
def PushesBeforeCancel (t : InputTask Value) : Prop :=
  t.context.cancelIssued = false → ∃ status,
    (∀ item ∈ t.sent.flatten, item.result.status = status ∨
      item.result.status = .success ∧ status = .failure) ∧
    ∀ status' pending, t.pc = .putOutputs status' pending → status' = status

theorem pushesBeforeCancel_sendNext {t : InputTask Value} {status : ResultStatus}
    {pending : List (List FunctionPutOutputsItem)}
    (sent : ∀ item ∈ t.sent.flatten, item.result.status = status ∨
      item.result.status = .success ∧ status = .failure)
    (pushed : ∀ item ∈ pending.flatten, item.result.status = status) :
    (t.sendNext status pending).PushesBeforeCancel := by
  intro _
  cases pending with
  | nil => exact ⟨status, sent, fun _ _ same => by cases same⟩
  | cons request pending =>
      refine ⟨status, ?_, fun _ _ same => by cases same; rfl⟩
      simp only [sendNext, List.flatten_append, List.flatten_cons, List.flatten_nil, List.append_nil,
        List.mem_append]
      rintro item (old | new)
      · exact sent item old
      · exact .inl (pushed item (by simp [new]))

theorem pushesBeforeCancel_startPush {t : InputTask Value} {status : ResultStatus}
    {requests : List (List FunctionPutOutputsItem)} (fresh : t.sent = [])
    (pushed : PushedInOrder t.context.inputIds status requests.flatten) :
    (t.sendNext status requests).PushesBeforeCancel :=
  pushesBeforeCancel_sendNext (by simp [fresh]) pushed.2

theorem pushesBeforeCancel_catchAll {t : InputTask Value} (exc : RaisedException) (now : Nat)
    (interrupted : ∀ item ∈ t.sent.flatten, item.result.status = .success) :
    (t.catchAll maxObjectSizeBytes exc now).PushesBeforeCancel := by
  have before : ∀ item ∈ t.sent.flatten, item.result.status = .failure ∨
      item.result.status = .success ∧ ResultStatus.failure = .failure :=
    fun item member => .inr ⟨interrupted item member, rfl⟩
  unfold catchAll
  split_ifs
  · exact fun _ => ⟨.failure, before, fun _ _ same => by cases same⟩
  · exact pushesBeforeCancel_sendNext before (IOContext.pushedInOrder_constant _ _ _ _ _).2

theorem PushesBeforeCancel.leave {t : InputTask Value} (one : t.PushesBeforeCancel) (raised : Bool) :
    PushesBeforeCancel ({ t with pc := .left raised } : InputTask Value) := fun notIssued =>
  let ⟨status, sent, _⟩ := one notIssued
  ⟨status, sent, fun _ _ same => by cases same⟩

theorem pushesBeforeCancel_heartbeatCancel {t : InputTask Value} (one : t.PushesBeforeCancel) (inputIds : List String)
    (now : Nat) : (t.heartbeatCancel inputIds now).PushesBeforeCancel := by
  rw [heartbeatCancel_eq]
  split_ifs
  · intro notIssued
    simp at notIssued
  · exact one

/-- Only a heartbeat raises a cancellation into a push, and it marks the
context cancelled; a push that raises by itself is followed by `FAILURE`
items at most. -/
theorem step_pushesBeforeCancel {t t' : InputTask Value} {e : InputEvent Value} (progress : t.Progress)
    (one : t.PushesBeforeCancel) (stepped : t.step codec maxObjectSizeBytes describe e = some t') : t'.PushesBeforeCancel := by
  cases e with
  | setCancelCallback =>
      cases stepped
      exact one
  | heartbeatCancel inputIds now =>
      cases stepped
      exact pushesBeforeCancel_heartbeatCancel one inputIds now
  | userReturns data now =>
      simp only [step] at stepped
      split at stepped
      · next pc =>
          simp only [Progress, pc] at progress
          split at stepped <;> cases stepped
          · exact fun _ => ⟨.success, by simp [progress.2], fun _ _ same => by cases same⟩
          · exact pushesBeforeCancel_catchAll maxObjectSizeBytes _ now (by simp [progress.2])
      · cases stepped
  | userRaises exc now =>
      simp only [step] at stepped
      split at stepped <;> cases stepped <;> rename_i pc <;> simp only [Progress, pc] at progress
      · exact one.leave true
      · exact pushesBeforeCancel_startPush progress.2 (IOContext.pushedInOrder_constant _ _ _ _ _)
      · exact pushesBeforeCancel_catchAll maxObjectSizeBytes _ now (by simp [progress.2])
  | awaited now =>
      simp only [step] at stepped
      split at stepped
      · next data pc =>
          simp only [Progress, pc] at progress
          split at stepped <;> cases stepped
          · next requests store pushed =>
              exact pushesBeforeCancel_startPush progress.2
                (IOContext.pushedInOrder_of_pushOutputs codec maxObjectSizeBytes pushed)
          · exact pushesBeforeCancel_catchAll maxObjectSizeBytes _ now (by simp [progress.2])
      · next exc pc =>
          simp only [Progress, pc] at progress
          cases stepped
          exact pushesBeforeCancel_sendNext (fun item member => .inr ⟨progress.2.2 item member, rfl⟩)
            (IOContext.pushedInOrder_constant _ _ _ _ _).2
      · next status pending pc =>
          simp only [Progress, pc] at progress
          cases stepped
          obtain ⟨-, -, current, -, pushed, -⟩ := progress
          intro notIssued
          obtain ⟨status', sent, same⟩ := one (by simpa using notIssued)
          cases same status pending pc
          exact pushesBeforeCancel_sendNext sent (fun item member => pushed.2 item (List.mem_append_right _ member))
            notIssued
      · cases stepped
  | awaitRaises exc now =>
      simp only [step] at stepped
      split at stepped <;> cases stepped <;> rename_i pc
      · simp only [Progress, pc] at progress
        exact pushesBeforeCancel_catchAll maxObjectSizeBytes _ now (by simp [progress.2])
      · exact pushesBeforeCancel_catchAll maxObjectSizeBytes _ now (progress.successSent pc).2
      all_goals exact one.leave true

end InputTask

theorem InputReachable.progress {c : IOContext} {startedAt : Nat} {dataFormat : DataFormat}
    {store : BlobStore} {t : InputTask Value}
    (reach : InputReachable codec maxObjectSizeBytes describe (.init c startedAt dataFormat store) t) :
    t.context.inputIds = c.inputIds ∧ t.Progress := by
  induction reach with
  | init => exact ⟨rfl, ⟨rfl, rfl⟩⟩
  | step _ stepped inductionHypothesis =>
      obtain ⟨same, progress⟩ :=
        InputTask.step_progress codec maxObjectSizeBytes describe inductionHypothesis.2 stepped
      exact ⟨same.trans inductionHypothesis.1, progress⟩

/-- Over every run, `exit_context` runs at most once for the context, and has
run exactly when the block has been left normally. The items sent are a first
push carrying the inputs in order, then possibly a second push, of
`TERMINATED` or `FAILURE` outputs, carrying them again after a `SUCCESS` push
it interrupted: by a cancel event, or by a `FunctionPutOutputs` call that
raised. -/
theorem exit_context_at_most_once {c : IOContext} {startedAt : Nat} {dataFormat : DataFormat}
    {store : BlobStore} {t : InputTask Value}
    (reach : InputReachable codec maxObjectSizeBytes describe (.init c startedAt dataFormat store) t) :
    t.exits ≤ 1 ∧ (t.exits = 1 ↔ t.pc = .left false) ∧
      ∃ first second, t.sent.flatten = first ++ second ∧ TwoPushes c.inputIds first second := by
  obtain ⟨same, progress⟩ := reach.progress
  rw [← same]
  refine ⟨progress.exits_le, ?_, progress.twoPushes⟩
  cases pc : t.pc with
  | left raised =>
      simp only [InputTask.Progress, pc] at progress
      cases raised <;> simp [progress.1]
  | _ => simp [progress.exits_eq_zero (by simp [pc])]

/-- A `FunctionPutOutputs` call of the `SUCCESS` push raises: the catch-all
pushes a `FAILURE` output for the input as well, and the block is left
normally, with `exit_context` run once. -/
theorem failed_put_exits_once :
    ∃ t, InputReachable bytesCodec 16 describeInvalid (.init oneInputContext 0 .pickle []) t ∧
      t.sent.flatten.map (fun item => (item.inputId, item.result.status)) =
        [("in-1", .success), ("in-1", .failure)] ∧
      (t.exits ≤ 1 ∧ (t.exits = 1 ↔ t.pc = .left false) ∧
        ∃ first second, t.sent.flatten = first ++ second ∧
          TwoPushes oneInputContext.inputIds first second) := by
  obtain ⟨t, reach, summarised⟩ := InputReachable.of_run bytesCodec 16 describeInvalid
    (.init oneInputContext 0 .pickle [])
    [.userReturns [1] 1, .awaited 2, .awaitRaises ⟨"GRPCError()", "", [], none, none⟩ 3, .awaited 4]
    (fun t => t.sent.flatten.map (fun item => (item.inputId, item.result.status)))
    [("in-1", .success), ("in-1", .failure)] (by decide)
  exact ⟨t, reach, summarised, exit_context_at_most_once bytesCodec 16 describeInvalid reach⟩

end Invariant

end ContainerIO
