import ContainerIO.Basic

/-!
# Input contexts

`IOContext` bundles the inputs of one fetched unit of work. `IOContext.create`
checks what the rest of the class relies on (a single input unless batched, one
method for the whole batch); the lengths of the parallel lists it builds are
fields of the structure, so no later function checks them again.
-/

namespace ContainerIO

/-- `args_oneof` of a `FunctionInput`. -/
inductive ArgsPayload where
  | args (bytes : Bytes)
  | argsBlobId (blobId : String)
  deriving DecidableEq, Repr

/-- The fields of `api_pb2.FunctionInput` the manager reads. -/
structure FunctionInput where
  args : ArgsPayload
  methodName : String
  finalInput : Bool
  deriving DecidableEq, Repr

/-- A loaded user callable: its `__name__` and its parameter names. -/
structure FinalizedFunction where
  name : String
  paramNames : List String
  deriving DecidableEq, Repr

/-- `(input_id, retry_count, function_call_id, input)` as `_generate_inputs` yields it. -/
structure InputTuple where
  inputId : String
  retryCount : Nat
  functionCallId : String
  input : FunctionInput
  deriving DecidableEq, Repr

structure IOContext where
  inputIds : List String
  retryCounts : List Nat
  functionCallIds : List String
  functionInputs : List FunctionInput
  finalizedFunction : FinalizedFunction
  isBatched : Bool
  cancelIssued : Bool
  hasCancelCallback : Bool
  retryCounts_length : retryCounts.length = inputIds.length
  functionCallIds_length : functionCallIds.length = inputIds.length
  functionInputs_length : functionInputs.length = inputIds.length
  inputIds_ne_nil : inputIds ≠ []
  unbatched_single : isBatched = false → inputIds.length = 1
  deriving DecidableEq, Repr

namespace IOContext

/-- `_populate_input_blobs`: an argument blob is downloaded and inlined. -/
def populateInputBlobs (download : String → Option Bytes) (input : FunctionInput) :
    Except PyError FunctionInput :=
  match input.args with
  | .argsBlobId blobId =>
      match download blobId with
      | some bytes => .ok { input with args := .args bytes }
      | none => .error (.blobDownloadFailed blobId)
  | .args _ => .ok input

/-- `IOContext.create`. The downloads of `asyncio.gather` either all succeed or
the first failure is raised. -/
def create (finalizedFunctions : List (String × FinalizedFunction)) (inputs : List InputTuple)
    (isBatched : Bool) (download : String → Option Bytes) : Except PyError IOContext :=
  if sized : if isBatched then 1 ≤ inputs.length else inputs.length = 1 then
    match hydrated : inputs.mapM (fun t => populateInputBlobs download t.input) with
    | .error e => .error e
    | .ok functionInputs =>
        have count : functionInputs.length = inputs.length := ((mapM_except_eq_ok _).mp hydrated).length_eq.symm
        have nonempty : 0 < inputs.length := by split at sized <;> omega
        let methodName := (functionInputs.head (by
          intro empty; simp [empty] at count; omega)).methodName
        if functionInputs.all (·.methodName == methodName) then
          match finalizedFunctions.lookup methodName with
          | some finalizedFunction =>
              .ok { inputIds := inputs.map (·.inputId)
                    retryCounts := inputs.map (·.retryCount)
                    functionCallIds := inputs.map (·.functionCallId)
                    functionInputs := functionInputs
                    finalizedFunction := finalizedFunction
                    isBatched := isBatched
                    cancelIssued := false
                    hasCancelCallback := false
                    retryCounts_length := by simp
                    functionCallIds_length := by simp
                    functionInputs_length := by simp [count]
                    inputIds_ne_nil := by simp; intro empty; simp [empty] at nonempty
                    unbatched_single := by intro unbatched; simpa [unbatched] using sized }
          | none => .error (.keyError methodName)
        else .error .assertionError
  else .error .assertionError

theorem inputIds_of_create {finalizedFunctions : List (String × FinalizedFunction)}
    {inputs : List InputTuple} {isBatched : Bool} {download : String → Option Bytes}
    {ctx : IOContext} (created : create finalizedFunctions inputs isBatched download = .ok ctx) :
    ctx.inputIds = inputs.map InputTuple.inputId := by
  unfold create at created
  by_cases sized : if isBatched then 1 ≤ inputs.length else inputs.length = 1
  · rw [dif_pos sized] at created
    split at created
    · cases created
    · simp only at created
      split at created
      · split at created
        · cases created
          rfl
        · cases created
      · cases created
  · rw [dif_neg sized] at created
    cases created

/-- A created context holds each input of the batch as `_populate_input_blobs`
returned it. -/
theorem functionInputs_of_create {finalizedFunctions : List (String × FinalizedFunction)}
    {inputs : List InputTuple} {isBatched : Bool} {download : String → Option Bytes}
    {ctx : IOContext} (created : create finalizedFunctions inputs isBatched download = .ok ctx) :
    List.Forall₂ (fun t input => populateInputBlobs download t.input = .ok input) inputs
      ctx.functionInputs := by
  unfold create at created
  by_cases sized : if isBatched then 1 ≤ inputs.length else inputs.length = 1
  · rw [dif_pos sized] at created
    split at created
    · cases created
    · next functionInputs hydrated =>
        simp only at created
        split at created
        · split at created <;> cases created
          exact (mapM_except_eq_ok _).mp hydrated
        · cases created
  · rw [dif_neg sized] at created
    cases created

/-- After `_populate_input_blobs` an input carries its arguments inline. -/
theorem args_of_populateInputBlobs {download : String → Option Bytes} {input input' : FunctionInput}
    (populated : populateInputBlobs download input = .ok input') : ∃ bytes, input'.args = .args bytes := by
  unfold populateInputBlobs at populated
  split at populated
  · split at populated <;> cases populated
    exact ⟨_, rfl⟩
  · next bytes inline =>
      cases populated
      exact ⟨bytes, inline⟩

/-- A created context carries every argument inline. -/
theorem args_of_create {finalizedFunctions : List (String × FinalizedFunction)}
    {inputs : List InputTuple} {isBatched : Bool} {download : String → Option Bytes}
    {ctx : IOContext} (created : create finalizedFunctions inputs isBatched download = .ok ctx) :
    ∀ input ∈ ctx.functionInputs, ∃ bytes, input.args = .args bytes := by
  intro input member
  obtain ⟨i, found⟩ := List.mem_iff_getElem?.mp member
  obtain ⟨t, -, populated⟩ := forall₂_getElem? (functionInputs_of_create created) found
  exact args_of_populateInputBlobs populated

def setCancelCallback (c : IOContext) : IOContext := { c with hasCancelCallback := true }

/-- `cancel`: the context afterwards, and whether the callback was invoked. -/
def cancel (c : IOContext) : IOContext × Bool :=
  if c.cancelIssued then (c, false)
  else if c.hasCancelCallback then ({ c with cancelIssued := true }, true)
  else (c, false)

variable {Value : Type} (codec : Codec Value)

def validateOutputData (c : IOContext) (data : Value) : Except PyError (List Value) :=
  if c.isBatched = false then .ok [data]
  else
    let functionName := c.finalizedFunction.name
    match codec.asList data with
    | none => .error (.invalidError s!"Output of batched function {functionName} must be a list.")
    | some items =>
        if items.length ≠ c.inputIds.length then
          .error (.invalidError
            s!"Output of batched function {functionName} must be a list of equal length as its inputs.")
        else .ok items

/-- What `validate_output_data` accepts: the value itself when not batched, a
list with one element per input when batched; anything else raises
`InvalidError`. -/
theorem validateOutputData_cases (c : IOContext) (data : Value) :
    (c.isBatched = false ∧ c.validateOutputData codec data = .ok [data]) ∨
    (c.isBatched = true ∧ ∃ items, codec.asList data = some items ∧
      items.length = c.inputIds.length ∧ c.validateOutputData codec data = .ok items) ∨
    (c.isBatched = true ∧ (∀ items, codec.asList data = some items →
      items.length ≠ c.inputIds.length) ∧
      ∃ message, c.validateOutputData codec data = .error (.invalidError message)) := by
  unfold validateOutputData
  cases batched : c.isBatched
  · simp
  · cases listed : codec.asList data with
    | none => simp
    | some items => by_cases same : items.length = c.inputIds.length <;> simp [same]

theorem length_validateOutputData {c : IOContext} {data : Value} {outputs : List Value}
    (h : c.validateOutputData codec data = .ok outputs) : outputs.length = c.inputIds.length := by
  rcases validateOutputData_cases codec c data with ⟨b, e⟩ | ⟨-, items, -, same, e⟩ | ⟨-, -, m, e⟩ <;>
    rw [e] at h <;> cases h
  · simp [c.unbatched_single b]
  · exact same

end IOContext

end ContainerIO
