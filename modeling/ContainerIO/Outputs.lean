import ContainerIO.IOContext
import Mathlib.Data.String.Basic

/-!
# Output records

`format_blob_data`, `_push_outputs` and `push_outputs`, the results that
`handle_input_exception` pushes, the task result of `handle_user_exception`,
and the chunks of `put_data_out`. `MAX_OBJECT_SIZE_BYTES` is defined outside
this repository and is a parameter here.
-/

namespace ContainerIO

inductive ResultStatus where
  | success
  | failure
  | terminated
  deriving DecidableEq, Repr

/-- `api_pb2.GenericResult`; an unset field holds its protobuf default. -/
structure GenericResult where
  status : ResultStatus
  data : Option DataPart := none
  exception : String := ""
  traceback : String := ""
  serializedTb : Bytes := []
  tbLineCache : Bytes := []
  deriving DecidableEq, Repr

structure FunctionPutOutputsItem where
  inputId : String
  inputStartedAt : Nat
  outputCreatedAt : Nat
  result : GenericResult
  dataFormat : DataFormat
  retryCount : Nat
  deriving DecidableEq, Repr

structure DataChunk where
  dataFormat : DataFormat
  index : Nat
  payload : DataPart
  deriving DecidableEq, Repr

/-- What the manager reads of a raised exception: `repr(exc)`, its formatted
traceback, and what the external serializers make of it. -/
structure RaisedException where
  repr : String
  formattedTraceback : String
  serialized : Bytes
  serializedTb : Option Bytes
  tbLineCache : Option Bytes
  deriving DecidableEq, Repr

def pySliceTo (s : String) (stop : Int) : String :=
  if 0 ≤ stop then s.take stop.toNat else s.take (s.length - stop.natAbs)

section Formatting

variable (maxObjectSizeBytes : Nat)

def formatBlobData (store : BlobStore) (data : Bytes) : DataPart × BlobStore :=
  if data.length > maxObjectSizeBytes then
    let (blobId, store) := blobUpload store data
    (.dataBlobId blobId, store)
  else (.data data, store)

/-- `asyncio.gather` over `format_blob_data`, one upload after another. -/
def formatAll (store : BlobStore) : List Bytes → List DataPart × BlobStore
  | [] => ([], store)
  | data :: rest =>
      let (part, store) := formatBlobData maxObjectSizeBytes store data
      let (parts, store) := formatAll store rest
      (part :: parts, store)

/-- The payload rule: inline up to `MAX_OBJECT_SIZE_BYTES`, otherwise a blob
id under which the store holds the bytes. -/
def DataPart.Sized (store : BlobStore) (bytes : Bytes) : DataPart → Prop
  | .data inline => inline = bytes ∧ bytes.length ≤ maxObjectSizeBytes
  | .dataBlobId blobId => maxObjectSizeBytes < bytes.length ∧ store[blobId]? = some bytes

/-- `put_data_out`: the chunks of one `FunctionCallPutDataRequest`. The source
repeats the test of `format_blob_data` inline for each message. -/
def putDataOut (store : BlobStore) (startIndex : Nat) (dataFormat : DataFormat) :
    List Bytes → List DataChunk × BlobStore
  | [] => ([], store)
  | messageBytes :: rest =>
      let (payload, store) := formatBlobData maxObjectSizeBytes store messageBytes
      let (chunks, store) := putDataOut store (startIndex + 1) dataFormat rest
      ({ dataFormat, index := startIndex, payload } :: chunks, store)

/-- The `exception` field `handle_input_exception` sends: `repr(exc)`, trimmed
once it reaches `MAX_OBJECT_SIZE_BYTES`. -/
def trimmedRepr (repr : String) : String :=
  if repr.length ≥ maxObjectSizeBytes then
    let trimmedBytes : Int := repr.length - maxObjectSizeBytes - 1000
    let kept := pySliceTo repr (maxObjectSizeBytes - 1000 : Int)
    s!"{kept}...\nTrimmed {trimmedBytes} bytes from original exception"
  else repr

/-- The result `handle_input_exception` pushes for every input of a context
whose block raised `exc`. -/
def failureResult (store : BlobStore) (exc : RaisedException) : GenericResult × BlobStore :=
  let (part, store) := formatBlobData maxObjectSizeBytes store exc.serialized
  ({ status := .failure
     exception := trimmedRepr maxObjectSizeBytes exc.repr
     traceback := exc.formattedTraceback
     serializedTb := exc.serializedTb.getD []
     tbLineCache := exc.tbLineCache.getD []
     data := some part }, store)

/-- Below the limit `repr(exc)` is sent as it is. From the limit on, its first
`MAX_OBJECT_SIZE_BYTES - 1000` characters are kept, and the note's count,
`len(repr_exc) - MAX_OBJECT_SIZE_BYTES - 1000`, is 2000 less than the number
of characters cut. -/
theorem trimmedRepr_eq (repr : String) (bound : 1000 ≤ maxObjectSizeBytes) :
    trimmedRepr maxObjectSizeBytes repr =
      if repr.length < maxObjectSizeBytes then repr
      else repr.take (maxObjectSizeBytes - 1000) ++ "...\nTrimmed " ++
        toString (((repr.length - (maxObjectSizeBytes - 1000) : Nat) : Int) - 2000) ++
        " bytes from original exception" := by
  unfold trimmedRepr pySliceTo
  by_cases below : repr.length < maxObjectSizeBytes
  · simp [below]
  · have kept : ((maxObjectSizeBytes : Int) - 1000).toNat = maxObjectSizeBytes - 1000 := by omega
    have count : (repr.length : Int) - maxObjectSizeBytes - 1000 =
        ((repr.length - (maxObjectSizeBytes - 1000) : Nat) : Int) - 2000 := by omega
    simp only [below, if_false, ge_iff_le, not_lt.mp below, if_true,
      show (0 : Int) ≤ (maxObjectSizeBytes : Int) - 1000 by omega, kept, count]
    show "" ++ repr.take (maxObjectSizeBytes - 1000) ++ _ ++ _ ++ _ = _
    rw [String.empty_append]
    rfl

/-- The text fields of the `FAILURE` result pushed for `exc`: the traceback is
`traceback.format_exc()` whole, whatever its length; the exception field is
`repr(exc)` below the limit, and from the limit on its first
`MAX_OBJECT_SIZE_BYTES - 1000` characters with a note counting 2000 fewer
characters than were cut. -/
theorem failureResult_text_fields (store : BlobStore) (exc : RaisedException)
    (bound : 1000 ≤ maxObjectSizeBytes) :
    (failureResult maxObjectSizeBytes store exc).1.traceback = exc.formattedTraceback ∧
      (failureResult maxObjectSizeBytes store exc).1.exception =
        if exc.repr.length < maxObjectSizeBytes then exc.repr
        else exc.repr.take (maxObjectSizeBytes - 1000) ++ "...\nTrimmed " ++
          toString (((exc.repr.length - (maxObjectSizeBytes - 1000) : Nat) : Int) - 2000) ++
          " bytes from original exception" :=
  ⟨rfl, trimmedRepr_eq maxObjectSizeBytes exc.repr bound⟩

def limitException : RaisedException :=
  ⟨String.mk (List.replicate 1000 'x'), "Exception: x", [], none, none⟩

/-- With `MAX_OBJECT_SIZE_BYTES` at 1000, a `repr` of exactly 1000 characters
is cut whole, and the note says minus 1000. -/
theorem trim_note_at_limit :
    1000 ≤ 1000 ∧ (failureResult 1000 [] limitException).1.exception =
      "...\nTrimmed -1000 bytes from original exception" := by
  refine ⟨le_refl _, ?_⟩
  rw [(failureResult_text_fields 1000 [] limitException (le_refl _)).2]
  have length : limitException.repr.length = 1000 := by
    simp only [limitException, String.length, List.length_replicate]
  rw [length, if_neg (lt_irrefl 1000), Nat.sub_self, String.take_eq, List.take_zero]
  decide

theorem getElem?_of_prefix {store store' : BlobStore} (extended : store <+: store') {i : Nat}
    {bytes : Bytes} (h : store[i]? = some bytes) : store'[i]? = some bytes := by
  obtain ⟨rest, rfl⟩ := extended
  rw [List.getElem?_append_left (List.getElem?_eq_some_iff.mp h).1, h]

variable {maxObjectSizeBytes}

theorem DataPart.Sized.mono {store store' : BlobStore} {bytes : Bytes} {part : DataPart}
    (sized : part.Sized maxObjectSizeBytes store bytes) (extended : store <+: store') :
    part.Sized maxObjectSizeBytes store' bytes := by
  cases part with
  | data inline => exact sized
  | dataBlobId blobId => exact ⟨sized.1, getElem?_of_prefix extended sized.2⟩

theorem DataPart.Carries.mono {store store' : BlobStore} {bytes : Bytes} {part : DataPart}
    (carries : part.Carries store bytes) (extended : store <+: store') :
    part.Carries store' bytes := by
  cases part with
  | data inline => exact carries
  | dataBlobId blobId => exact getElem?_of_prefix extended carries

theorem DataPart.Sized.carries {store : BlobStore} {bytes : Bytes} {part : DataPart}
    (sized : part.Sized maxObjectSizeBytes store bytes) : part.Carries store bytes := by
  cases part with
  | data inline => exact sized.1
  | dataBlobId blobId => exact sized.2

variable (maxObjectSizeBytes)

theorem formatBlobData_sized (store : BlobStore) (data : Bytes) :
    (formatBlobData maxObjectSizeBytes store data).1.Sized maxObjectSizeBytes
      (formatBlobData maxObjectSizeBytes store data).2 data ∧
    store <+: (formatBlobData maxObjectSizeBytes store data).2 := by
  unfold formatBlobData
  split
  · exact ⟨⟨by omega, List.getElem?_concat_length store data⟩, List.prefix_append _ _⟩
  · exact ⟨⟨rfl, by omega⟩, List.prefix_refl _⟩

/-- Every payload of `format_blob_data` over a list obeys the size rule in the
final store, position by position. -/
theorem formatAll_sized :
    ∀ (datas : List Bytes) (store : BlobStore),
      (formatAll maxObjectSizeBytes store datas).1.length = datas.length ∧
      store <+: (formatAll maxObjectSizeBytes store datas).2 ∧
      ∀ (i : Nat) (part : DataPart) (bytes : Bytes),
        (formatAll maxObjectSizeBytes store datas).1[i]? = some part →
        datas[i]? = some bytes →
        part.Sized maxObjectSizeBytes (formatAll maxObjectSizeBytes store datas).2 bytes
  | [], store => by simp [formatAll]
  | data :: rest, store => by
      obtain ⟨first, extended⟩ := formatBlobData_sized maxObjectSizeBytes store data
      obtain ⟨count, extendedRest, later⟩ :=
        formatAll_sized rest (formatBlobData maxObjectSizeBytes store data).2
      refine ⟨by simp [formatAll, count], extended.trans extendedRest, ?_⟩
      intro i part bytes found source
      cases i with
      | zero =>
          simp only [formatAll, List.getElem?_cons_zero, Option.some.injEq] at found source
          subst found source
          exact first.mono extendedRest
      | succ i =>
          simp only [formatAll, List.getElem?_cons_succ] at found source
          exact later i part bytes found source

/-- The chunks of `put_data_out` are numbered from `start_index` on, in order,
and each payload obeys the size rule. -/
theorem putDataOut_sized (dataFormat : DataFormat) :
    ∀ (messages : List Bytes) (store : BlobStore) (startIndex : Nat),
      (putDataOut maxObjectSizeBytes store startIndex dataFormat messages).1.length =
        messages.length ∧
      store <+: (putDataOut maxObjectSizeBytes store startIndex dataFormat messages).2 ∧
      ∀ (i : Nat) (chunk : DataChunk),
        (putDataOut maxObjectSizeBytes store startIndex dataFormat messages).1[i]? = some chunk →
        chunk.index = startIndex + i ∧ chunk.dataFormat = dataFormat ∧ ∃ bytes,
          messages[i]? = some bytes ∧ chunk.payload.Sized maxObjectSizeBytes
            (putDataOut maxObjectSizeBytes store startIndex dataFormat messages).2 bytes
  | [], store, startIndex => by simp [putDataOut]
  | message :: rest, store, startIndex => by
      obtain ⟨first, extended⟩ := formatBlobData_sized maxObjectSizeBytes store message
      obtain ⟨count, extendedRest, later⟩ := putDataOut_sized dataFormat rest _ (startIndex + 1)
      refine ⟨by simp [putDataOut, count], extended.trans extendedRest, ?_⟩
      intro i chunk found
      cases i with
      | zero =>
          simp only [putDataOut, List.getElem?_cons_zero, Option.some.injEq] at found
          subst found
          exact ⟨rfl, rfl, message, List.getElem?_cons_zero, first.mono extendedRest⟩
      | succ i =>
          simp only [putDataOut, List.getElem?_cons_succ] at found
          obtain ⟨index, format, bytes, source, sized⟩ := later i chunk found
          exact ⟨by omega, format, bytes, by simpa using source, sized⟩

end Formatting

/-- The result inside the `TaskResultRequest` of `handle_user_exception`. -/
def taskResult (exc : RaisedException) : GenericResult :=
  { status := .failure
    data := some (.data exc.serialized)
    exception := exc.repr
    traceback := exc.formattedTraceback
    serializedTb := exc.serializedTb.getD []
    tbLineCache := exc.tbLineCache.getD [] }

def terminatedResult : GenericResult := { status := .terminated }

namespace IOContext

/-- The items of `_push_outputs`: `zip(input_ids, retry_counts, results)`. -/
def outputItems (c : IOContext) (startedAt outputCreatedAt : Nat) (dataFormat : DataFormat)
    (results : List GenericResult) : List FunctionPutOutputsItem :=
  (c.inputIds.zip (c.retryCounts.zip results)).map fun (inputId, retryCount, result) =>
    { inputId, inputStartedAt := startedAt, outputCreatedAt, result, dataFormat, retryCount }

/-- `_push_outputs`: the `FunctionPutOutputs` requests in the order they are sent. -/
def pushOutputsRequests (c : IOContext) (startedAt outputCreatedAt : Nat)
    (dataFormat : DataFormat) (results : List GenericResult) : List (List FunctionPutOutputsItem) :=
  let outputs := c.outputItems startedAt outputCreatedAt dataFormat results
  slices outputs 20 (rangeStep outputs.length 20)

/-- `requests` send one item per input of `c`, in input order, the `i`-th
carrying a result with `P i`, in `⌈N/20⌉` requests of 1 to 20 items. -/
structure SendsOnePerInput (c : IOContext) (P : Nat → GenericResult → Prop)
    (requests : List (List FunctionPutOutputsItem)) : Prop where
  count : requests.length = (c.inputIds.length + 19) / 20
  sized : ∀ request ∈ requests, 0 < request.length ∧ request.length ≤ 20
  length : requests.flatten.length = c.inputIds.length
  item : ∀ i < c.inputIds.length, ∃ item, requests.flatten[i]? = some item ∧
    c.inputIds[i]? = some item.inputId ∧ c.retryCounts[i]? = some item.retryCount ∧
    P i item.result

theorem SendsOnePerInput.mono {c : IOContext} {P Q : Nat → GenericResult → Prop}
    {requests : List (List FunctionPutOutputsItem)} (sends : SendsOnePerInput c P requests)
    (weaker : ∀ i result, P i result → Q i result) : SendsOnePerInput c Q requests := by
  refine ⟨sends.count, sends.sized, sends.length, fun i below => ?_⟩
  obtain ⟨item, found, ids, retries, holds⟩ := sends.item i below
  exact ⟨item, found, ids, retries, weaker i _ holds⟩

theorem SendsOnePerInput.forall_mem {c : IOContext} {P : Nat → GenericResult → Prop}
    {requests : List (List FunctionPutOutputsItem)} (sends : SendsOnePerInput c P requests)
    {item : FunctionPutOutputsItem} (member : item ∈ requests.flatten) : ∃ i, P i item.result := by
  obtain ⟨i, below, rfl⟩ := List.getElem_of_mem member
  obtain ⟨sent, found, -, -, holds⟩ := sends.item i (sends.length ▸ below)
  rw [List.getElem?_eq_getElem below, Option.some.injEq] at found
  exact ⟨i, found ▸ holds⟩

section Items

variable (c : IOContext) (startedAt outputCreatedAt : Nat) (dataFormat : DataFormat)
  {results : List GenericResult}

theorem length_outputItems (same : results.length = c.inputIds.length) :
    (c.outputItems startedAt outputCreatedAt dataFormat results).length = c.inputIds.length := by
  simp [outputItems, c.retryCounts_length, same]

variable {c startedAt outputCreatedAt dataFormat} in
theorem getElem?_outputItems {i : Nat} {item : FunctionPutOutputsItem}
    (found : (c.outputItems startedAt outputCreatedAt dataFormat results)[i]? = some item) :
    c.inputIds[i]? = some item.inputId ∧ c.retryCounts[i]? = some item.retryCount ∧
      results[i]? = some item.result := by
  simp only [outputItems, List.getElem?_map] at found
  obtain ⟨⟨inputId, retryCount, result⟩, zipped, rfl⟩ := Option.map_eq_some'.mp found
  obtain ⟨ids, rest⟩ := List.getElem?_zip_eq_some.mp zipped
  exact ⟨ids, List.getElem?_zip_eq_some.mp rest⟩

/-- `_push_outputs` sends one item per input, whatever results it is given,
provided there is one result per input. -/
theorem pushOutputsRequests_sends {P : Nat → GenericResult → Prop}
    (same : results.length = c.inputIds.length)
    (good : ∀ i result, results[i]? = some result → P i result) :
    SendsOnePerInput c P (c.pushOutputsRequests startedAt outputCreatedAt dataFormat results) := by
  have count := c.length_outputItems startedAt outputCreatedAt dataFormat same
  have flat := flatten_slices (c.outputItems startedAt outputCreatedAt dataFormat results) 20
    (by decide)
  simp only [pushOutputsRequests]
  refine ⟨?_, length_slice_mem _ 20 (by decide) _ 0, by rw [flat, count], ?_⟩
  · simp [slices, length_rangeStep_twenty, count]
  · intro i below
    rw [flat]
    obtain ⟨item, found⟩ : ∃ item,
        (c.outputItems startedAt outputCreatedAt dataFormat results)[i]? = some item :=
      ⟨_, List.getElem?_eq_getElem (by omega)⟩
    obtain ⟨ids, retries, result⟩ := getElem?_outputItems found
    exact ⟨item, found, ids, retries, good i _ result⟩

end Items

variable {Value : Type} (codec : Codec Value) (maxObjectSizeBytes : Nat)

/-- The part of `push_outputs` before its first await: `validate_output_data`,
then `serialize_data_format` of each output in order, the first error raised. -/
def serializeOutputs (c : IOContext) (data : Value) (dataFormat : DataFormat) :
    Except PyError (List Bytes) := do
  let outputs ← c.validateOutputData codec data
  outputs.mapM (codec.serializeDataFormat · dataFormat)

/-- `push_outputs` up to `exit_context`: the requests sent and the blob store. -/
def pushOutputs (c : IOContext) (store : BlobStore) (startedAt outputCreatedAt : Nat)
    (data : Value) (dataFormat : DataFormat) :
    Except PyError (List (List FunctionPutOutputsItem) × BlobStore) := do
  let serialized ← c.serializeOutputs codec data dataFormat
  let (parts, store) := formatAll maxObjectSizeBytes store serialized
  let results := parts.map fun part => { status := .success, data := some part }
  pure (c.pushOutputsRequests startedAt outputCreatedAt dataFormat results, store)

/-- The requests of the `InputCancellation` branch of `handle_input_exception`. -/
def terminatedRequests (c : IOContext) (startedAt outputCreatedAt : Nat) :
    List (List FunctionPutOutputsItem) :=
  c.pushOutputsRequests startedAt outputCreatedAt .pickle (c.inputIds.map fun _ => terminatedResult)

/-- The requests of the catch-all branch of `handle_input_exception`. -/
def failureRequests (c : IOContext) (store : BlobStore) (startedAt outputCreatedAt : Nat)
    (exc : RaisedException) : List (List FunctionPutOutputsItem) × BlobStore :=
  let (result, store) := failureResult maxObjectSizeBytes store exc
  (c.pushOutputsRequests startedAt outputCreatedAt .pickle (c.inputIds.map fun _ => result), store)

theorem sends_constant (c : IOContext) (startedAt outputCreatedAt : Nat) (dataFormat : DataFormat)
    (result : GenericResult) :
    SendsOnePerInput c (fun _ sent => sent = result)
      (c.pushOutputsRequests startedAt outputCreatedAt dataFormat (c.inputIds.map fun _ => result)) :=
  pushOutputsRequests_sends c startedAt outputCreatedAt dataFormat (by simp) (by
    intro i sent found
    simp only [List.getElem?_map] at found
    obtain ⟨_, -, rfl⟩ := Option.map_eq_some'.mp found
    rfl)

theorem serializeOutputs_eq_ok {c : IOContext} {data : Value} {dataFormat : DataFormat}
    {serialized : List Bytes} :
    c.serializeOutputs codec data dataFormat = .ok serialized ↔
      ∃ outputs, c.validateOutputData codec data = .ok outputs ∧
        List.Forall₂ (fun output bytes => codec.serializeDataFormat output dataFormat = .ok bytes)
          outputs serialized := by
  cases validated : c.validateOutputData codec data with
  | error e => simp [serializeOutputs, validated, bind, Except.bind]
  | ok outputs =>
      simp only [serializeOutputs, validated, Except.ok.injEq, exists_eq_left']
      exact mapM_except_eq_ok _

theorem length_serializeOutputs {c : IOContext} {data : Value} {dataFormat : DataFormat}
    {serialized : List Bytes} (ok : c.serializeOutputs codec data dataFormat = .ok serialized) :
    serialized.length = c.inputIds.length := by
  obtain ⟨outputs, validated, each⟩ := (serializeOutputs_eq_ok codec).mp ok
  rw [← each.length_eq, length_validateOutputData codec validated]

theorem pushOutputs_eq_error {c : IOContext} {store : BlobStore} {startedAt outputCreatedAt : Nat}
    {data : Value} {dataFormat : DataFormat} {e : PyError} :
    c.pushOutputs codec maxObjectSizeBytes store startedAt outputCreatedAt data dataFormat =
      .error e ↔ c.serializeOutputs codec data dataFormat = .error e := by
  cases serialized : c.serializeOutputs codec data dataFormat <;>
    simp [pushOutputs, serialized, bind, Except.bind, pure, Except.pure]

/-- Once the outputs serialize, `push_outputs` sends one success item per input,
the `i`-th carrying the `i`-th serialized output. -/
theorem pushOutputs_sends_outputs {c : IOContext} {data : Value} {dataFormat : DataFormat}
    {serialized : List Bytes} (ok : c.serializeOutputs codec data dataFormat = .ok serialized)
    (store : BlobStore) (startedAt outputCreatedAt : Nat) :
    ∃ requests store',
      c.pushOutputs codec maxObjectSizeBytes store startedAt outputCreatedAt data dataFormat =
        .ok (requests, store') ∧
      SendsOnePerInput c (fun i result => result.status = .success ∧ ∃ bytes part,
        serialized[i]? = some bytes ∧ result.data = some part ∧
        part.Sized maxObjectSizeBytes store' bytes) requests := by
  obtain ⟨count, -, sized⟩ := formatAll_sized maxObjectSizeBytes serialized store
  refine ⟨_, _, by simp only [pushOutputs, ok]; rfl,
    pushOutputsRequests_sends c startedAt outputCreatedAt dataFormat
      (by simp [count, length_serializeOutputs codec ok]) ?_⟩
  intro i result found
  simp only [List.getElem?_map] at found
  obtain ⟨part, partFound, rfl⟩ := Option.map_eq_some'.mp found
  obtain ⟨bytes, bytesFound⟩ : ∃ bytes, serialized[i]? = some bytes :=
    ⟨_, List.getElem?_eq_getElem (count ▸ (List.getElem?_eq_some_iff.mp partFound).1)⟩
  exact ⟨rfl, bytes, part, bytesFound, rfl, sized i part bytes partFound bytesFound⟩

/-- Every payload the manager sends to `FunctionPutOutputs` or
`FunctionCallPutDataOut` obeys the size rule: the results of `push_outputs`,
the failure result of `handle_input_exception`, and the chunks of
`put_data_out`. -/
theorem sent_payloads_sized (c : IOContext) (store : BlobStore) (startedAt outputCreatedAt : Nat)
    (data : Value) (dataFormat : DataFormat) (exc : RaisedException) (startIndex : Nat)
    (messages : List Bytes) :
    (∀ requests store',
      c.pushOutputs codec maxObjectSizeBytes store startedAt outputCreatedAt data dataFormat =
        .ok (requests, store') →
      ∀ item ∈ requests.flatten, ∃ part bytes, item.result.data = some part ∧
        part.Sized maxObjectSizeBytes store' bytes) ∧
    (∃ part, (failureResult maxObjectSizeBytes store exc).1.data = some part ∧
      part.Sized maxObjectSizeBytes (failureResult maxObjectSizeBytes store exc).2 exc.serialized) ∧
    (∀ chunk ∈ (putDataOut maxObjectSizeBytes store startIndex dataFormat messages).1,
      ∃ bytes ∈ messages, chunk.payload.Sized maxObjectSizeBytes
        (putDataOut maxObjectSizeBytes store startIndex dataFormat messages).2 bytes) := by
  refine ⟨?_, ⟨_, rfl, (formatBlobData_sized maxObjectSizeBytes store exc.serialized).1⟩, ?_⟩
  · intro requests store' pushed item member
    cases serialized : c.serializeOutputs codec data dataFormat with
    | error e =>
        rw [(pushOutputs_eq_error codec maxObjectSizeBytes).mpr serialized] at pushed
        cases pushed
    | ok bytes =>
        obtain ⟨requests', store'', pushed', sends⟩ :=
          pushOutputs_sends_outputs codec maxObjectSizeBytes serialized store startedAt outputCreatedAt
        rw [pushed', Except.ok.injEq, Prod.mk.injEq] at pushed
        obtain ⟨rfl, rfl⟩ := pushed
        obtain ⟨i, -, bytes, part, -, found, sized⟩ := sends.forall_mem member
        exact ⟨part, bytes, found, sized⟩
  · intro chunk member
    obtain ⟨i, below, rfl⟩ := List.getElem_of_mem member
    obtain ⟨-, -, bytes, source, sized⟩ :=
      (putDataOut_sized maxObjectSizeBytes dataFormat messages store startIndex).2.2 i _
        (List.getElem?_eq_getElem below)
    exact ⟨bytes, List.getElem?_mem source, sized⟩

end IOContext

def oneInputContext : IOContext :=
  ⟨["in-1"], [0], ["fc-1"], [⟨.args [], "f", false⟩], ⟨"f", ["x"]⟩, false, false, false,
    rfl, rfl, rfl, by simp, fun _ => rfl⟩

/-- `handle_user_exception` puts `serialize_exception(exc)` inline into the task
result whatever its length: here one byte longer than `MAX_OBJECT_SIZE_BYTES`. -/
theorem taskResult_inline_oversize (maxObjectSizeBytes : Nat) :
    (taskResult ⟨"Exception()", "", List.replicate (maxObjectSizeBytes + 1) 0, none, none⟩).data =
      some (.data (List.replicate (maxObjectSizeBytes + 1) 0)) ∧
    maxObjectSizeBytes < (List.replicate (maxObjectSizeBytes + 1) (0 : UInt8)).length :=
  ⟨rfl, by simp⟩

end ContainerIO
