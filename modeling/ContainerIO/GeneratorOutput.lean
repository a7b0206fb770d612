import ContainerIO.Outputs

/-!
# Generator outputs

`generator_output_sender` runs `generator_output_task` beside the generator:
the task takes one message off `message_rx` with `get`, the ones already
queued behind it with `get_nowait` up to 16 MiB, and sends them with
`put_data_out`, the chunks numbered on from 1. The generator puts its messages
and, once it has finished, the stop sentinel. A step of the task runs from one
suspension point to the next; the generator's puts interleave with them. The
task raises when `serialize_data_format` rejects a message or `put_data_out`
raises; otherwise it takes the sentinel in the end, having sent every message.
-/

namespace ContainerIO

inductive QueueItem (Value : Type) where
  | message (value : Value)
  | sentinel
  deriving DecidableEq, Repr

/-- Where `generator_output_task` is suspended. -/
inductive GeneratorPhase (Value : Type) where
  /-- At `await message_rx.get()`. -/
  | getting
  /-- In the 1 ms sleep after the first message. -/
  | sleeping (first : Value)
  /-- `put_data_out` in flight for `count` messages; `receivedSentinel` ends the loop. -/
  | putting (count : Nat) (receivedSentinel : Bool)
  | done
  /-- The task raised; `generator_output_sender` re-raises it when it awaits the task. -/
  | raised
  deriving DecidableEq, Repr

structure GeneratorState (Value : Type) where
  /-- What the generator has still to put, the sentinel last. -/
  pending : List (QueueItem Value)
  queue : List (QueueItem Value)
  phase : GeneratorPhase Value
  index : Nat
  store : BlobStore
  /-- The `data_chunks` of each `FunctionCallPutDataRequest` sent. -/
  calls : List (List DataChunk)
  deriving DecidableEq, Repr

/-- The bound of a batch, `16 * 1024 * 1024`: "maximum size in a single message". -/
def maxBatchBytes : Nat := 16 * 1024 * 1024

/-- The estimate `generator_output_task` keeps of a batch: each serialized
message's length plus 512 bytes of framing. -/
def estimatedSize : List Bytes → Nat
  | [] => 0
  | bytes :: rest => bytes.length + 512 + estimatedSize rest

@[simp] theorem estimatedSize_nil : estimatedSize [] = 0 := rfl

@[simp] theorem estimatedSize_append (batch more : List Bytes) :
    estimatedSize (batch ++ more) = estimatedSize batch + estimatedSize more := by
  induction batch with
  | nil => simp
  | cons bytes rest inductionHypothesis =>
      rw [List.cons_append, estimatedSize, estimatedSize, inductionHypothesis]
      omega

@[simp] theorem estimatedSize_singleton (bytes : Bytes) :
    estimatedSize [bytes] = bytes.length + 512 := rfl

/-- `call` carries the serialized messages `batch`, one chunk each, read back
from `store`. -/
def CarriesBatch (store : BlobStore) (call : List DataChunk) (batch : List Bytes) : Prop :=
  call.length = batch.length ∧ ∀ (i : Nat) (chunk : DataChunk), call[i]? = some chunk →
    ∃ bytes, batch[i]? = some bytes ∧ chunk.payload.Carries store bytes

theorem CarriesBatch.mono {store store' : BlobStore} {call : List DataChunk} {batch : List Bytes}
    (carries : CarriesBatch store call batch) (extended : store <+: store') :
    CarriesBatch store' call batch := by
  refine ⟨carries.1, fun i chunk found => ?_⟩
  obtain ⟨bytes, source, carried⟩ := carries.2 i chunk found
  exact ⟨bytes, source, carried.mono extended⟩

theorem putDataOut_carriesBatch (maxObjectSizeBytes : Nat) (store : BlobStore) (startIndex : Nat)
    (dataFormat : DataFormat) (batch : List Bytes) :
    CarriesBatch (putDataOut maxObjectSizeBytes store startIndex dataFormat batch).2
      (putDataOut maxObjectSizeBytes store startIndex dataFormat batch).1 batch := by
  obtain ⟨count, -, sent⟩ := putDataOut_sized maxObjectSizeBytes dataFormat batch store startIndex
  refine ⟨count, fun i chunk found => ?_⟩
  obtain ⟨-, -, bytes, source, sized⟩ := sent i chunk found
  exact ⟨bytes, source, sized.carries⟩

inductive GeneratorEvent where
  /-- The generator puts its next item on `message_rx`. -/
  | put
  /-- `generator_output_task` runs from where it is suspended. -/
  | run
  /-- The pending `put_data_out` raises: a failed `blob_upload`, or a status
  `retry_transient_errors` re-raises. -/
  | putRaises
  deriving DecidableEq, Repr

section Sender

variable {Value : Type} (maxObjectSizeBytes : Nat) (codec : Codec Value) (dataFormat : DataFormat)

/-- The `get_nowait` loop: the batch, whether the sentinel ended it, and what
is left on the queue, or the error of a message the serializer rejects. -/
def drain : List (QueueItem Value) → List Bytes → Nat →
    Except PyError (List Bytes × Bool × List (QueueItem Value))
  | [], batch, _ => .ok (batch, false, [])
  | item :: rest, batch, totalSize =>
      if totalSize < maxBatchBytes then
        match item with
        | .sentinel => .ok (batch, true, rest)
        | .message value =>
            match codec.serializeDataFormat value dataFormat with
            | .error e => .error e
            | .ok bytes => drain rest (batch ++ [bytes]) (totalSize + bytes.length + 512)
      else .ok (batch, false, item :: rest)

namespace GeneratorState

def init (messages : List Value) (store : BlobStore) : GeneratorState Value :=
  ⟨messages.map .message ++ [.sentinel], [], .getting, 1, store, []⟩

/-- From the first message of a batch to the call of `put_data_out`; a message
the serializer rejects raises out of the task. -/
def sendBatch (s : GeneratorState Value) (first : Value) : GeneratorState Value :=
  match codec.serializeDataFormat first dataFormat with
  | .error _ => { s with phase := .raised }
  | .ok bytes =>
      match drain codec dataFormat s.queue [bytes] (bytes.length + 512) with
      | .error _ => { s with phase := .raised }
      | .ok (batch, receivedSentinel, queue) =>
          let (chunks, store) := putDataOut maxObjectSizeBytes s.store s.index dataFormat batch
          { s with queue, store, calls := s.calls ++ [chunks],
                   phase := .putting batch.length receivedSentinel }

def step (s : GeneratorState Value) : GeneratorEvent → Option (GeneratorState Value)
  | .put =>
      match s.pending with
      | [] => none
      | item :: rest => some { s with pending := rest, queue := s.queue ++ [item] }
  | .run =>
      match s.phase, s.queue with
      | .getting, [] => none
      | .getting, .sentinel :: rest => some { s with queue := rest, phase := .done }
      | .getting, .message value :: rest =>
          if s.index = 1 then some { s with queue := rest, phase := .sleeping value }
          else some (sendBatch maxObjectSizeBytes codec dataFormat { s with queue := rest } value)
      | .sleeping value, _ => some (s.sendBatch maxObjectSizeBytes codec dataFormat value)
      | .putting count receivedSentinel, _ =>
          some { s with index := s.index + count,
                        phase := if receivedSentinel then .done else .getting }
      | .done, _ | .raised, _ => none
  | .putRaises =>
      match s.phase with
      | .putting _ _ => some { s with phase := .raised }
      | _ => none

end GeneratorState

inductive GeneratorReachable (messages : List Value) (store : BlobStore) :
    GeneratorState Value → Prop
  | init : GeneratorReachable messages store (.init messages store)
  | step {s e s'} : GeneratorReachable messages store s →
      s.step maxObjectSizeBytes codec dataFormat e = some s' → GeneratorReachable messages store s'

def GeneratorState.run (s : GeneratorState Value) : List GeneratorEvent → Option (GeneratorState Value)
  | [] => some s
  | e :: rest => (s.step maxObjectSizeBytes codec dataFormat e).bind (·.run rest)

theorem GeneratorReachable.run {messages : List Value} {store : BlobStore} {s : GeneratorState Value}
    (reach : GeneratorReachable maxObjectSizeBytes codec dataFormat messages store s) :
    ∀ {events : List GeneratorEvent} {s' : GeneratorState Value},
      s.run maxObjectSizeBytes codec dataFormat events = some s' →
      GeneratorReachable maxObjectSizeBytes codec dataFormat messages store s'
  | [], _, ran => by cases ran; exact reach
  | e :: rest, _, ran => by
      cases stepped : s.step maxObjectSizeBytes codec dataFormat e with
      | none => simp [GeneratorState.run, stepped] at ran
      | some next =>
          simp only [GeneratorState.run, stepped, Option.some_bind] at ran
          exact (reach.step stepped).run ran

/-- The chunks carry `values` in order, numbered from 1, each serialized and
inline or under a blob of the store. -/
def Delivers (chunks : List DataChunk) (store : BlobStore) (values : List Value) : Prop :=
  chunks.length = values.length ∧ ∀ i chunk, chunks[i]? = some chunk →
    chunk.index = i + 1 ∧ chunk.dataFormat = dataFormat ∧ ∃ value bytes, values[i]? = some value ∧
      codec.serializeDataFormat value dataFormat = .ok bytes ∧
      chunk.payload.Sized maxObjectSizeBytes store bytes

def Serializes (values : List Value) (serialized : List Bytes) : Prop :=
  List.Forall₂ (fun value bytes => codec.serializeDataFormat value dataFormat = .ok bytes) values
    serialized

/-- A `put_data_out` numbered on from the chunks already sent extends what
they deliver. -/
theorem Delivers.append {chunks : List DataChunk} {store : BlobStore} {values : List Value}
    (delivered : Delivers maxObjectSizeBytes codec dataFormat chunks store values)
    {batch : List Value} {serialized : List Bytes}
    (each : Serializes codec dataFormat batch serialized) :
    Delivers maxObjectSizeBytes codec dataFormat
      (chunks ++ (putDataOut maxObjectSizeBytes store (values.length + 1) dataFormat serialized).1)
      (putDataOut maxObjectSizeBytes store (values.length + 1) dataFormat serialized).2
      (values ++ batch) := by
  obtain ⟨count, extended, sent⟩ := putDataOut_sized maxObjectSizeBytes dataFormat
    serialized store (values.length + 1)
  have same := delivered.1
  refine ⟨by simp [same, count, each.length_eq], fun i chunk found => ?_⟩
  by_cases old : i < chunks.length
  · rw [List.getElem?_append_left old] at found
    obtain ⟨index, format, value, bytes, valueFound, ok, sized⟩ := delivered.2 i chunk found
    refine ⟨index, format, value, bytes, ?_, ok, sized.mono extended⟩
    rw [List.getElem?_append_left (same ▸ old)]
    exact valueFound
  · rw [List.getElem?_append_right (by omega)] at found
    obtain ⟨index, format, bytes, bytesFound, sized⟩ := sent _ chunk found
    obtain ⟨value, valueFound, ok⟩ := forall₂_getElem? each bytesFound
    refine ⟨by omega, format, value, bytes, ?_, ok, sized⟩
    rw [List.getElem?_append_right (by omega), ← same]
    exact valueFound

/-- A drain that returns took messages off the front of the queue, and the
sentinel after them when it says so, and appended their serializations. -/
theorem drain_spec : ∀ {queue : List (QueueItem Value)} {batch : List Bytes} {totalSize : Nat}
    {result : List Bytes × Bool × List (QueueItem Value)},
    drain codec dataFormat queue batch totalSize = .ok result →
    ∃ (taken : List Value) (serialized : List Bytes), Serializes codec dataFormat taken serialized ∧
      result.1 = batch ++ serialized ∧
      queue = taken.map .message ++ if result.2.1 then .sentinel :: result.2.2 else result.2.2
  | [], _, _, _, drained => by
      cases drained
      exact ⟨[], [], .nil, by simp, by simp⟩
  | item :: rest, batch, totalSize, result, drained => by
      simp only [drain] at drained
      split at drained
      · cases item with
        | sentinel =>
            cases drained
            exact ⟨[], [], .nil, by simp, by simp⟩
        | message value =>
            simp only at drained
            split at drained
            · cases drained
            · rename_i bytes ok
              obtain ⟨taken, serialized, each, batch_eq, queue_eq⟩ := drain_spec drained
              exact ⟨value :: taken, bytes :: serialized, .cons ok each, by simp [batch_eq],
                by simp [queue_eq]⟩
      · cases drained
        exact ⟨[], [], .nil, by simp, by simp⟩

theorem drain_ok : ∀ {queue : List (QueueItem Value)} (batch : List Bytes) (totalSize : Nat),
    (∀ value, .message value ∈ queue → ∃ bytes, codec.serializeDataFormat value dataFormat = .ok bytes) →
    ∃ result, drain codec dataFormat queue batch totalSize = .ok result
  | [], batch, _, _ => ⟨_, rfl⟩
  | item :: rest, batch, totalSize, serializable => by
      simp only [drain]
      split
      · cases item with
        | sentinel => exact ⟨_, rfl⟩
        | message value =>
            obtain ⟨bytes, ok⟩ := serializable value (List.mem_cons_self _ _)
            simp only [ok]
            exact drain_ok _ _ fun value' member =>
              serializable value' (List.mem_cons_of_mem _ member)
      · exact ⟨_, rfl⟩

/-- The `get_nowait` loop appends a message only while the estimate of the
batch before it is below the bound, and leaves a message on the queue only
once the estimate has reached the bound. -/
theorem drain_bounded : ∀ {queue : List (QueueItem Value)} {batch : List Bytes}
    {result : List Bytes × Bool × List (QueueItem Value)},
    drain codec dataFormat queue batch (estimatedSize batch) = .ok result →
    ∃ added, result.1 = batch ++ added ∧
      (added = [] ∨ estimatedSize (batch ++ added).dropLast < maxBatchBytes) ∧
      (result.2.1 = false → result.2.2 ≠ [] → maxBatchBytes ≤ estimatedSize result.1)
  | [], batch, _, drained => by
      cases drained
      exact ⟨[], by simp⟩
  | item :: rest, batch, result, drained => by
      simp only [drain] at drained
      split_ifs at drained with below
      · cases item with
        | sentinel =>
            cases drained
            exact ⟨[], by simp⟩
        | message value =>
            simp only at drained
            split at drained
            · cases drained
            · rename_i bytes _
              have total : estimatedSize batch + bytes.length + 512 =
                  estimatedSize (batch ++ [bytes]) := by
                simp [Nat.add_assoc]
              rw [total] at drained
              obtain ⟨added, grown, bounded, stopped⟩ := drain_bounded drained
              refine ⟨bytes :: added, by simp only [grown, List.append_assoc, List.singleton_append],
                .inr ?_, stopped⟩
              rcases bounded with rfl | bounded
              · simpa using below
              · simpa using bounded
      · cases drained
        exact ⟨[], by simp, .inl rfl, fun _ _ => by simpa using not_lt.mp below⟩

omit codec dataFormat in
theorem map_message_append_eq :
    ∀ {taken values : List Value} {rest more : List (QueueItem Value)},
      taken.map .message ++ rest = values.map .message ++ .sentinel :: more →
      taken.length ≤ values.length ∧ taken = values.take taken.length ∧
        rest = (values.drop taken.length).map .message ++ .sentinel :: more
  | [], _, _, _, same => by simpa using same
  | _ :: _, [], _, _, same => by simp at same
  | _ :: _, _ :: _, _, _, same => by
      simp only [List.map_cons, List.cons_append, List.cons.injEq, QueueItem.message.injEq] at same
      obtain ⟨rfl, same⟩ := same
      obtain ⟨le, taken_eq, rest_eq⟩ := map_message_append_eq same
      exact ⟨by simpa using le, by simp [← taken_eq], by simpa using rest_eq⟩

omit maxObjectSizeBytes codec dataFormat in
theorem take_append_cons_take {messages : List Value} {n : Nat} {value : Value}
    (found : messages[n]? = some value) (taken : Nat) :
    messages.take n ++ value :: (messages.drop (n + 1)).take taken =
      messages.take (n + 1 + taken) := by
  obtain ⟨below, rfl⟩ := List.getElem?_eq_some_iff.mp found
  rw [Nat.add_assoc, List.take_add, List.drop_eq_getElem_cons below, Nat.add_comm 1 taken,
    List.take_succ_cons]

omit maxObjectSizeBytes codec dataFormat in
theorem sentinel_cons_eq {values : List Value} {rest : List (QueueItem Value)}
    (same : .sentinel :: rest = values.map .message ++ [.sentinel]) : values = [] ∧ rest = [] := by
  cases values with
  | nil => simpa using same
  | cons _ _ => simp at same

/-- What a reachable state has delivered, phase by phase: the first `n`
messages are off the queue and carried by the calls, and the rest are queued
or still to be put, the sentinel last. -/
def Accounted (messages : List Value) (s : GeneratorState Value) : Prop :=
  (∀ call ∈ s.calls, call ≠ []) ∧
  match s.phase with
  | .getting => ∃ n ≤ messages.length,
      s.queue ++ s.pending = (messages.drop n).map .message ++ [.sentinel] ∧
      Delivers maxObjectSizeBytes codec dataFormat s.calls.flatten s.store (messages.take n) ∧
      s.index = n + 1
  | .sleeping value => ∃ n, messages[n]? = some value ∧
      s.queue ++ s.pending = (messages.drop (n + 1)).map .message ++ [.sentinel] ∧
      Delivers maxObjectSizeBytes codec dataFormat s.calls.flatten s.store (messages.take n) ∧
      s.index = n + 1
  | .putting count receivedSentinel => ∃ n ≤ messages.length,
      s.queue ++ s.pending =
        (if receivedSentinel then [] else (messages.drop n).map .message ++ [.sentinel]) ∧
      (receivedSentinel = true → n = messages.length) ∧
      Delivers maxObjectSizeBytes codec dataFormat s.calls.flatten s.store (messages.take n) ∧
      s.index + count = n + 1
  | .done => s.queue ++ s.pending = [] ∧
      Delivers maxObjectSizeBytes codec dataFormat s.calls.flatten s.store messages
  | .raised => ∃ n ≤ messages.length,
      Delivers maxObjectSizeBytes codec dataFormat s.calls.flatten s.store (messages.take n)

/-- A batch started on the `n`-th message sends it and those drained behind
it, or raises having sent nothing more. -/
theorem sendBatch_accounted {messages : List Value} {s : GeneratorState Value} {n : Nat}
    {value : Value} (nonempty : ∀ call ∈ s.calls, call ≠ []) (found : messages[n]? = some value)
    (rest : s.queue ++ s.pending = (messages.drop (n + 1)).map .message ++ [.sentinel])
    (delivered :
      Delivers maxObjectSizeBytes codec dataFormat s.calls.flatten s.store (messages.take n))
    (index : s.index = n + 1) :
    Accounted maxObjectSizeBytes codec dataFormat messages
      (s.sendBatch maxObjectSizeBytes codec dataFormat value) := by
  have below := (List.getElem?_eq_some_iff.mp found).1
  unfold GeneratorState.sendBatch
  split
  · exact ⟨nonempty, n, below.le, delivered⟩
  rename_i bytes firstOk
  split
  · exact ⟨nonempty, n, below.le, delivered⟩
  rename_i batch receivedSentinel queue drained
  obtain ⟨taken, serialized, each, batch_eq, queue_eq⟩ := drain_spec codec dataFormat drained
  dsimp only at batch_eq queue_eq
  rw [queue_eq, List.append_assoc] at rest
  obtain ⟨le, taken_eq, rest_eq⟩ := map_message_append_eq rest
  obtain ⟨t, rfl, t_le⟩ : ∃ t, taken = (messages.drop (n + 1)).take t ∧
      t ≤ (messages.drop (n + 1)).length := ⟨_, taken_eq, le⟩
  have length_t : ((messages.drop (n + 1)).take t).length = t := by
    rw [List.length_take]
    omega
  have count : serialized.length = t := each.length_eq.symm.trans length_t
  rw [length_t, List.drop_drop] at rest_eq
  have start : s.index = (messages.take n).length + 1 := by simp [index]; omega
  have sent := Delivers.append maxObjectSizeBytes codec dataFormat delivered
    (show Serializes codec dataFormat (value :: (messages.drop (n + 1)).take t) (bytes :: serialized)
      from .cons firstOk each)
  rw [take_append_cons_take found, ← start] at sent
  subst batch_eq
  have t_bound : n + 1 + t ≤ messages.length := by
    rw [List.length_drop] at t_le
    omega
  refine ⟨fun call member => ?_, n + 1 + t, t_bound, ?_, fun seen => ?_, by simpa using sent,
    by simp [index, count]; omega⟩
  · rw [List.mem_append, List.mem_singleton] at member
    rcases member with member | rfl
    · exact nonempty call member
    · intro empty
      simpa [(putDataOut_sized maxObjectSizeBytes dataFormat _ s.store s.index).1] using
        congrArg List.length empty
  · cases receivedSentinel with
    | false => simpa using rest_eq
    | true =>
        rw [if_pos rfl, List.cons_append] at rest_eq
        simpa using (sentinel_cons_eq rest_eq).2
  · cases seen
    rw [if_pos rfl, List.cons_append] at rest_eq
    have drained_all := (sentinel_cons_eq rest_eq).1
    rw [List.drop_eq_nil_iff] at drained_all
    omega

theorem init_accounted (messages : List Value) (store : BlobStore) :
    Accounted maxObjectSizeBytes codec dataFormat messages (.init messages store) := by
  refine ⟨fun _ member => (by cases member), ?_⟩
  simp only [GeneratorState.init]
  exact ⟨0, Nat.zero_le _, by simp, by simp [Delivers], rfl⟩

omit maxObjectSizeBytes codec dataFormat in
theorem message_cons_eq {messages : List Value} {n : Nat} {value : Value}
    {rest : List (QueueItem Value)}
    (same : .message value :: rest = (messages.drop n).map .message ++ [.sentinel]) :
    messages[n]? = some value ∧ rest = (messages.drop (n + 1)).map .message ++ [.sentinel] := by
  rcases dropped : messages.drop n with _ | ⟨head, tail⟩
  · rw [dropped] at same
    simp at same
  · rw [dropped] at same
    simp only [List.map_cons, List.cons_append, List.cons.injEq, QueueItem.message.injEq] at same
    obtain ⟨rfl, rest_eq⟩ := same
    refine ⟨by rw [← Nat.add_zero n, ← List.getElem?_drop, dropped]; simp, ?_⟩
    rw [← List.tail_drop, dropped]
    exact rest_eq

theorem Accounted.step {messages : List Value} {s s' : GeneratorState Value} {e : GeneratorEvent}
    (accounted : Accounted maxObjectSizeBytes codec dataFormat messages s)
    (stepped : s.step maxObjectSizeBytes codec dataFormat e = some s') :
    Accounted maxObjectSizeBytes codec dataFormat messages s' := by
  obtain ⟨nonempty, phase⟩ := accounted
  cases e with
  | put =>
      simp only [GeneratorState.step] at stepped
      split at stepped
      · cases stepped
      · rename_i item rest pending
        cases stepped
        have same : s.queue ++ [item] ++ rest = s.queue ++ s.pending := by simp [pending]
        refine ⟨nonempty, ?_⟩
        dsimp only
        simpa only [same] using phase
  | run =>
      simp only [GeneratorState.step] at stepped
      split at stepped
      next => cases stepped
      next rest phase_eq queue_eq =>
        cases stepped
        rw [phase_eq] at phase
        obtain ⟨n, -, undelivered, delivered, -⟩ := phase
        rw [queue_eq, List.cons_append] at undelivered
        obtain ⟨dropped, rest_eq⟩ := sentinel_cons_eq undelivered
        rw [List.drop_eq_nil_iff] at dropped
        exact ⟨nonempty, rest_eq, by rwa [List.take_of_length_le dropped] at delivered⟩
      next value rest phase_eq queue_eq =>
        rw [phase_eq] at phase
        obtain ⟨n, -, undelivered, delivered, index⟩ := phase
        rw [queue_eq, List.cons_append] at undelivered
        obtain ⟨found, rest_eq⟩ := message_cons_eq undelivered
        split at stepped <;> cases stepped
        · exact ⟨nonempty, n, found, rest_eq, delivered, index⟩
        · exact sendBatch_accounted maxObjectSizeBytes codec dataFormat nonempty found rest_eq
            delivered index
      next queue value phase_eq =>
        cases stepped
        rw [phase_eq] at phase
        obtain ⟨n, found, undelivered, delivered, index⟩ := phase
        exact sendBatch_accounted maxObjectSizeBytes codec dataFormat nonempty found undelivered
          delivered index
      next queue count receivedSentinel phase_eq =>
        cases stepped
        rw [phase_eq] at phase
        obtain ⟨n, le, undelivered, seen, delivered, index⟩ := phase
        cases receivedSentinel with
        | false => exact ⟨nonempty, n, le, undelivered, delivered, index⟩
        | true =>
            rw [seen rfl, List.take_length] at delivered
            exact ⟨nonempty, undelivered, delivered⟩
      all_goals cases stepped
  | putRaises =>
      simp only [GeneratorState.step] at stepped
      split at stepped
      · next count receivedSentinel phase_eq =>
          cases stepped
          rw [phase_eq] at phase
          obtain ⟨n, le, -, -, delivered, -⟩ := phase
          exact ⟨nonempty, n, le, delivered⟩
      · cases stepped

theorem Accounted.delivered {messages : List Value} {s : GeneratorState Value}
    (accounted : Accounted maxObjectSizeBytes codec dataFormat messages s) :
    ∃ n ≤ messages.length,
      Delivers maxObjectSizeBytes codec dataFormat s.calls.flatten s.store (messages.take n) := by
  obtain ⟨-, phase⟩ := accounted
  split at phase
  · obtain ⟨n, le, -, delivered, -⟩ := phase
    exact ⟨n, le, delivered⟩
  · obtain ⟨n, found, -, delivered, -⟩ := phase
    exact ⟨n, (List.getElem?_eq_some_iff.mp found).1.le, delivered⟩
  · obtain ⟨n, le, -, -, delivered, -⟩ := phase
    exact ⟨n, le, delivered⟩
  · exact ⟨messages.length, le_refl _, by rw [List.take_length]; exact phase.2⟩
  · exact phase

theorem GeneratorReachable.accounted {messages : List Value} {store : BlobStore}
    {s : GeneratorState Value}
    (reach : GeneratorReachable maxObjectSizeBytes codec dataFormat messages store s) :
    Accounted maxObjectSizeBytes codec dataFormat messages s := by
  induction reach with
  | init => exact init_accounted maxObjectSizeBytes codec dataFormat messages store
  | step _ stepped inductionHypothesis =>
      exact inductionHypothesis.step maxObjectSizeBytes codec dataFormat stepped

namespace GeneratorState

theorem run_append (s : GeneratorState Value) (events more : List GeneratorEvent) :
    s.run maxObjectSizeBytes codec dataFormat (events ++ more) =
      (s.run maxObjectSizeBytes codec dataFormat events).bind
        (·.run maxObjectSizeBytes codec dataFormat more) := by
  induction events generalizing s with
  | nil => rfl
  | cons e rest inductionHypothesis =>
      simp only [List.cons_append, run]
      cases s.step maxObjectSizeBytes codec dataFormat e with
      | none => rfl
      | some next => exact inductionHypothesis next

theorem run_puts (s : GeneratorState Value) :
    s.run maxObjectSizeBytes codec dataFormat (List.replicate s.pending.length .put) =
      some { s with pending := [], queue := s.queue ++ s.pending } := by
  rcases s with ⟨pending, queue, phase, index, store, calls⟩
  induction pending generalizing queue with
  | nil => simp [run]
  | cons item rest inductionHypothesis =>
      simp only [List.length_cons, List.replicate_succ, run, step, Option.some_bind]
      simpa using inductionHypothesis (queue ++ [item])

/-- With the batch's messages serializable, `sendBatch` calls `put_data_out`
and leaves the rest of the queue. -/
theorem sendBatch_putting (s : GeneratorState Value) {first : Value}
    (firstOk : ∃ bytes, codec.serializeDataFormat first dataFormat = .ok bytes)
    (queueOk : ∀ value, .message value ∈ s.queue →
      ∃ bytes, codec.serializeDataFormat value dataFormat = .ok bytes) :
    ∃ count receivedSentinel,
      (s.sendBatch maxObjectSizeBytes codec dataFormat first).phase = .putting count receivedSentinel ∧
      (s.sendBatch maxObjectSizeBytes codec dataFormat first).queue.length ≤ s.queue.length ∧
      (s.sendBatch maxObjectSizeBytes codec dataFormat first).pending = s.pending := by
  obtain ⟨bytes, ok⟩ := firstOk
  obtain ⟨⟨batch, receivedSentinel, queue⟩, drained⟩ := drain_ok codec dataFormat [bytes]
    (bytes.length + 512) queueOk
  obtain ⟨taken, -, -, -, queue_eq⟩ := drain_spec codec dataFormat drained
  have shorter : queue.length ≤ s.queue.length := by
    rw [queue_eq]
    cases receivedSentinel <;> simp
    omega
  exact ⟨batch.length, receivedSentinel, by simp [sendBatch, ok, drained], by
    simpa [sendBatch, ok, drained] using shorter, by simp [sendBatch, ok, drained]⟩

end GeneratorState

/-- How far the task is from its next `get`, for ordering the steps of a run. -/
def GeneratorPhase.rank : GeneratorPhase Value → Nat
  | .sleeping _ => 2
  | .putting _ _ => 1
  | _ => 0

omit maxObjectSizeBytes codec dataFormat in
theorem mem_messages_of_queue {messages : List Value} {s : GeneratorState Value} {n : Nat}
    {value : Value} (same : s.queue ++ s.pending = (messages.drop n).map .message ++ [.sentinel])
    (member : .message value ∈ s.queue) : value ∈ messages := by
  have listed := same ▸ List.mem_append_left s.pending member
  simp only [List.mem_append, List.mem_map, QueueItem.message.injEq, List.mem_singleton,
    reduceCtorEq, or_false] at listed
  obtain ⟨_, dropped, rfl⟩ := listed
  exact List.mem_of_mem_drop dropped

/-- Once everything is put, and every message serializes, a `run` of a task
that has neither finished nor raised brings it nearer its end. -/
theorem run_nearer {messages : List Value} {s : GeneratorState Value}
    (serializable : ∀ value ∈ messages, ∃ bytes, codec.serializeDataFormat value dataFormat = .ok bytes)
    (accounted : Accounted maxObjectSizeBytes codec dataFormat messages s) (put : s.pending = [])
    (running : s.phase ≠ .done ∧ s.phase ≠ .raised) :
    ∃ s', s.step maxObjectSizeBytes codec dataFormat .run = some s' ∧ s'.pending = [] ∧
      s'.phase ≠ .raised ∧
      3 * s'.queue.length + s'.phase.rank < 3 * s.queue.length + s.phase.rank := by
  obtain ⟨-, phase⟩ := accounted
  rcases s with ⟨pending, queue, phase', index, store, calls⟩
  dsimp only at put phase running ⊢
  subst put
  cases phase' with
  | getting =>
      obtain ⟨n, -, undelivered, -, -⟩ := phase
      rw [List.append_nil] at undelivered
      cases queue with
      | nil => simp at undelivered
      | cons item rest =>
          cases item with
          | sentinel => exact ⟨_, rfl, rfl, by simp, by simp [GeneratorPhase.rank]⟩
          | message value =>
              obtain ⟨found, rest_eq⟩ := message_cons_eq undelivered
              have firstOk := serializable value (List.getElem?_mem found)
              by_cases first : index = 1
              · exact ⟨⟨[], rest, .sleeping value, index, store, calls⟩,
                  by simp [GeneratorState.step, first], rfl, by simp, by simp [GeneratorPhase.rank]; omega⟩
              · obtain ⟨count, receivedSentinel, putting, shorter, pending⟩ :=
                  GeneratorState.sendBatch_putting maxObjectSizeBytes codec dataFormat
                    ⟨[], rest, .getting, index, store, calls⟩ firstOk fun value' member =>
                      serializable value' (mem_messages_of_queue (by simpa using rest_eq) member)
                refine ⟨_, by simp [GeneratorState.step, first], pending, by simp [putting], ?_⟩
                simp only [putting, GeneratorPhase.rank, List.length_cons] at shorter ⊢
                omega
  | sleeping value =>
      obtain ⟨n, found, undelivered, -, -⟩ := phase
      obtain ⟨count, receivedSentinel, putting, shorter, pending⟩ :=
        GeneratorState.sendBatch_putting maxObjectSizeBytes codec dataFormat
          ⟨[], queue, .sleeping value, index, store, calls⟩
          (serializable value (List.getElem?_mem found))
          fun value' member => serializable value' (mem_messages_of_queue undelivered member)
      refine ⟨_, rfl, pending, by simp [putting], ?_⟩
      simp only [putting, GeneratorPhase.rank] at shorter ⊢
      omega
  | putting count receivedSentinel =>
      refine ⟨_, rfl, rfl, by split <;> simp, ?_⟩
      split <;> simp [GeneratorPhase.rank]
  | done => exact absurd rfl running.1
  | raised => exact absurd rfl running.2

/-- Once everything is put, and every message serializes, some run of a task
that has not raised takes the sentinel. -/
theorem reaches_done {messages : List Value}
    (serializable : ∀ value ∈ messages, ∃ bytes, codec.serializeDataFormat value dataFormat = .ok bytes) :
    ∀ (s : GeneratorState Value), Accounted maxObjectSizeBytes codec dataFormat messages s →
      s.pending = [] → s.phase ≠ .raised →
      ∃ events s', s.run maxObjectSizeBytes codec dataFormat events = some s' ∧ s'.phase = .done := by
  intro s
  generalize h : 3 * s.queue.length + s.phase.rank = measure
  induction measure using Nat.strong_induction_on generalizing s with
  | _ measure inductionHypothesis =>
      intro accounted put notRaised
      by_cases done : s.phase = .done
      · exact ⟨[], s, rfl, done⟩
      obtain ⟨s', stepped, put', notRaised', nearer⟩ :=
        run_nearer maxObjectSizeBytes codec dataFormat serializable accounted put ⟨done, notRaised⟩
      obtain ⟨events, s'', ran, done''⟩ := inductionHypothesis _ (h ▸ nearer) s' rfl
        (accounted.step maxObjectSizeBytes codec dataFormat stepped) put' notRaised'
      exact ⟨.run :: events, s'', by simp [GeneratorState.run, stepped, ran], done''⟩

/-- Every `put_data_out` call carries a chunk, and the calls in order carry the
first messages, numbered from 1, each serialized once, inline or by blob id,
and nothing for the sentinel; once the task has finished they carry every
message. When every message serializes, a task that has not raised can
always go on to finish. -/
theorem generator_output_in_order {messages : List Value} {store : BlobStore}
    {s : GeneratorState Value}
    (reach : GeneratorReachable maxObjectSizeBytes codec dataFormat messages store s) :
    (∀ call ∈ s.calls, call ≠ []) ∧
      (∃ n ≤ messages.length,
        Delivers maxObjectSizeBytes codec dataFormat s.calls.flatten s.store (messages.take n)) ∧
      (s.phase = .done →
        Delivers maxObjectSizeBytes codec dataFormat s.calls.flatten s.store messages) ∧
      ((∀ value ∈ messages, ∃ bytes, codec.serializeDataFormat value dataFormat = .ok bytes) →
        s.phase ≠ .raised →
        ∃ events s', s.run maxObjectSizeBytes codec dataFormat events = some s' ∧
          s'.phase = .done ∧
          Delivers maxObjectSizeBytes codec dataFormat s'.calls.flatten s'.store messages) := by
  have accounted := reach.accounted
  refine ⟨accounted.1, accounted.delivered, fun done => ?_, fun serializable notRaised => ?_⟩
  · have phase := accounted.2
    rw [done] at phase
    exact phase.2
  · have puts := s.run_puts maxObjectSizeBytes codec dataFormat
    have putReach := reach.run maxObjectSizeBytes codec dataFormat puts
    obtain ⟨events, s', ran, done⟩ := reaches_done maxObjectSizeBytes codec dataFormat serializable _
      putReach.accounted rfl notRaised
    have finished := (GeneratorReachable.accounted maxObjectSizeBytes codec dataFormat
      (putReach.run maxObjectSizeBytes codec dataFormat ran)).2
    rw [done] at finished
    exact ⟨_ ++ events, s', by rw [GeneratorState.run_append, puts, Option.some_bind, ran], done,
      finished.2⟩

end Sender

def byteCodec : Codec Nat := ⟨fun _ => none, fun value _ => .ok [value.toUInt8]⟩

/-- The first message taken and the task in its 1 ms sleep, the other two
messages and the sentinel still to be put. -/
def firstTaken : GeneratorState Nat := ⟨[.message 8, .message 9, .sentinel], [], .sleeping 7, 1, [], []⟩

/-- Every message serializes to one byte: some run from the sleep sends all
three, numbered 1 to 3, none inline under a limit of 0. -/
theorem first_message_sleeping :
    GeneratorReachable 0 byteCodec .pickle [7, 8, 9] [] firstTaken ∧
      (∀ call ∈ firstTaken.calls, call ≠ []) ∧
      (∃ n ≤ [7, 8, 9].length,
        Delivers 0 byteCodec .pickle firstTaken.calls.flatten firstTaken.store ([7, 8, 9].take n)) ∧
      (firstTaken.phase = .done →
        Delivers 0 byteCodec .pickle firstTaken.calls.flatten firstTaken.store [7, 8, 9]) ∧
      ((∀ value ∈ [7, 8, 9], ∃ bytes, byteCodec.serializeDataFormat value .pickle = .ok bytes) →
        firstTaken.phase ≠ .raised →
        ∃ events s', firstTaken.run 0 byteCodec .pickle events = some s' ∧ s'.phase = .done ∧
          Delivers 0 byteCodec .pickle s'.calls.flatten s'.store [7, 8, 9]) :=
  have reach : GeneratorReachable 0 byteCodec .pickle [7, 8, 9] [] firstTaken :=
    GeneratorReachable.init.run 0 byteCodec .pickle
      (show (GeneratorState.init [7, 8, 9] []).run 0 byteCodec .pickle [.put, .run] = some firstTaken
        from rfl)
  ⟨reach, generator_output_in_order 0 byteCodec .pickle reach⟩

section BatchBound

variable {Value : Type} (maxObjectSizeBytes : Nat) (codec : Codec Value) (dataFormat : DataFormat)

/-- Every call sent carries a batch, read back from the store, whose estimate
before its last message is below the bound. -/
def BatchesBounded (s : GeneratorState Value) : Prop :=
  ∀ call ∈ s.calls, ∃ batch, CarriesBatch s.store call batch ∧
    estimatedSize batch.dropLast < maxBatchBytes

theorem sendBatch_batchesBounded {s : GeneratorState Value} (bounded : BatchesBounded s)
    (first : Value) :
    BatchesBounded (s.sendBatch maxObjectSizeBytes codec dataFormat first) := by
  unfold GeneratorState.sendBatch
  split
  · exact bounded
  rename_i bytes _
  split
  · exact bounded
  rename_i batch receivedSentinel queue drained
  obtain ⟨added, grown, below, -⟩ := drain_bounded codec dataFormat
    (show drain codec dataFormat s.queue [bytes] (estimatedSize [bytes]) = _ from drained)
  obtain ⟨-, extended, -⟩ := putDataOut_sized maxObjectSizeBytes dataFormat batch s.store s.index
  intro call member
  simp only [List.mem_append, List.mem_singleton] at member
  rcases member with old | rfl
  · obtain ⟨old', carries, bounded⟩ := bounded call old
    exact ⟨old', carries.mono extended, bounded⟩
  · refine ⟨batch, putDataOut_carriesBatch maxObjectSizeBytes s.store s.index dataFormat batch, ?_⟩
    dsimp only at grown
    rw [grown]
    rcases below with rfl | below
    · simp [maxBatchBytes]
    · exact below

theorem BatchesBounded.step {s s' : GeneratorState Value} {e : GeneratorEvent}
    (bounded : BatchesBounded s)
    (stepped : s.step maxObjectSizeBytes codec dataFormat e = some s') : BatchesBounded s' := by
  cases e <;> simp only [GeneratorState.step] at stepped <;> split at stepped <;>
    (try split at stepped) <;> cases stepped
  all_goals first
    | exact bounded
    | exact sendBatch_batchesBounded maxObjectSizeBytes codec dataFormat (by exact bounded) _

/-- A message joins a batch only while the estimate of the batch before it is
below 16 MiB, whatever the messages and however the producer interleaves. -/
theorem batches_grow_below_bound {messages : List Value} {store : BlobStore}
    {s : GeneratorState Value}
    (reach : GeneratorReachable maxObjectSizeBytes codec dataFormat messages store s) :
    BatchesBounded s := by
  induction reach with
  | init => exact fun _ member => by cases member
  | step _ stepped inductionHypothesis =>
      exact inductionHypothesis.step maxObjectSizeBytes codec dataFormat stepped

end BatchBound

/-- Three messages and the sentinel sent, each message under a blob of its own. -/
def threeSent : GeneratorState Nat :=
  ⟨[], [], .done, 4, [[7], [8], [9]],
    [[⟨.pickle, 1, .dataBlobId 0⟩, ⟨.pickle, 2, .dataBlobId 1⟩, ⟨.pickle, 3, .dataBlobId 2⟩]]⟩

/-- The one call of `threeSent` took its last two messages below the bound. -/
theorem three_messages_batch_bounded :
    GeneratorReachable 0 byteCodec .pickle [7, 8, 9] [] threeSent ∧ BatchesBounded threeSent :=
  have reach : GeneratorReachable 0 byteCodec .pickle [7, 8, 9] [] threeSent :=
    GeneratorReachable.init.run 0 byteCodec .pickle
      (show (GeneratorState.init [7, 8, 9] []).run 0 byteCodec .pickle
        [.put, .run, .put, .put, .put, .run, .run] = some threeSent from rfl)
  ⟨reach, batches_grow_below_bound 0 byteCodec .pickle reach⟩

/-- The first message waits out the 1 ms sleep while the second arrives, and
the drain takes the second whatever its size: one call carries both. -/
theorem two_messages_one_call {Value : Type} (maxObjectSizeBytes : Nat) (codec : Codec Value)
    (dataFormat : DataFormat) (first second : Value) {firstBytes secondBytes : Bytes}
    (store : BlobStore) (firstOk : codec.serializeDataFormat first dataFormat = .ok firstBytes)
    (secondOk : codec.serializeDataFormat second dataFormat = .ok secondBytes)
    (room : firstBytes.length + 512 < maxBatchBytes) :
    ∃ s, GeneratorReachable maxObjectSizeBytes codec dataFormat [first, second] store s ∧
      ∃ call ∈ s.calls, CarriesBatch s.store call [firstBytes, secondBytes] := by
  let batch := [firstBytes, secondBytes]
  have ran : (GeneratorState.init [first, second] store).run maxObjectSizeBytes codec dataFormat
      [.put, .run, .put, .run] =
      some ⟨[.sentinel], [], .putting 2 false, 1,
        (putDataOut maxObjectSizeBytes store 1 dataFormat batch).2,
        [(putDataOut maxObjectSizeBytes store 1 dataFormat batch).1]⟩ := by
    simp [batch, GeneratorState.run, GeneratorState.step, GeneratorState.init,
      GeneratorState.sendBatch, drain, room, firstOk, secondOk]
  exact ⟨_, GeneratorReachable.init.run maxObjectSizeBytes codec dataFormat ran, _,
    List.mem_singleton_self _, putDataOut_carriesBatch maxObjectSizeBytes store 1 dataFormat batch⟩

def sizedCodec : Codec Nat := ⟨fun _ => none, fun size _ => .ok (List.replicate size 0)⟩

@[simp] theorem sizedCodec_serializeDataFormat (size : Nat) (dataFormat : DataFormat) :
    sizedCodec.serializeDataFormat size dataFormat = .ok (List.replicate size 0) :=
  rfl

/-- A message of no bytes and then one of 16 MiB: the second joins the batch
behind the first, and the call carrying both has an estimate past 16 MiB. -/
theorem batch_passes_bound :
    ∃ s, GeneratorReachable 0 sizedCodec .pickle [0, maxBatchBytes] [] s ∧
      ∃ call ∈ s.calls, ∃ batch, CarriesBatch s.store call batch ∧ batch.length = 2 ∧
        maxBatchBytes < estimatedSize batch := by
  obtain ⟨s, reach, call, member, carries⟩ :=
    two_messages_one_call 0 sizedCodec .pickle 0 maxBatchBytes []
      (sizedCodec_serializeDataFormat 0 .pickle) (sizedCodec_serializeDataFormat maxBatchBytes .pickle)
      (by simp [maxBatchBytes])
  have estimate (size : Nat) :
      estimatedSize [List.replicate 0 (0 : UInt8), List.replicate size 0] = size + 1024 := by
    simp only [estimatedSize, List.length_replicate]
    omega
  refine ⟨s, reach, call, member, _, carries, rfl, ?_⟩
  rw [estimate]
  omega

end ContainerIO
