import ContainerIO.Cancellation
import ContainerIO.FetchInvariant

/-!
# Cancel callbacks across the container

`_heartbeat_handle_cancellations` looks each id of a `cancel_input_event` up in
`current_inputs` and calls `cancel()` on the context it maps to, and
`IOContext.cancel` invokes the callback only while `_cancel_issued` is clear.
Beside it, `run_inputs_outputs` registers every new context under each of its
ids, the task running a context attaches its callback with
`set_cancel_callback`, and `exit_context` pops the ids again. The state here is
what these read: `current_inputs` and the contexts not yet exited, each under
its number. A run records, in order, each invocation of a callback and each
exit.

Seen from one live context, a heartbeat acts as `IOContext.cancelListed` of the
single-input model (`handleCancellations_spec`).
-/

namespace ContainerIO

open FetchState (Registry)

/-- What a run records. -/
inductive Occurrence where
  /-- The cancel callback of the context numbered `ref` is invoked. -/
  | invoked (ref : Nat)
  /-- `exit_context` for the context numbered `ref`. -/
  | exited (ref : Nat)
  deriving DecidableEq, Repr

/-- The number of the context an occurrence is about. -/
def Occurrence.ref : Occurrence → Nat
  | .invoked ref | .exited ref => ref

structure CancelState where
  /-- `current_inputs`: each input id maps to the number of its context. -/
  currentInputs : String → Option Nat
  /-- The contexts registered and not yet exited, each with its number. -/
  live : List (Nat × IOContext)
  nextContext : Nat

inductive CancelEvent where
  /-- `run_inputs_outputs` registers a context it has just created. -/
  | register (ctx : IOContext)
  /-- The task running the context numbered `ref` calls `set_cancel_callback`. -/
  | setCancelCallback (ref : Nat)
  /-- A heartbeat response: the ids of its `cancel_input_event`, none when the
  field is absent. -/
  | heartbeat (inputIds : List String)
  | exitContext (ref : Nat)
  deriving DecidableEq, Repr

namespace CancelState

def init : CancelState := ⟨fun _ => none, [], 0⟩

/-- The live contexts, the one numbered `ref` changed by `f`. -/
def updateContext (live : List (Nat × IOContext)) (ref : Nat) (f : IOContext → IOContext) :
    List (Nat × IOContext) :=
  live.map fun entry => (entry.1, if entry.1 = ref then f entry.2 else entry.2)

/-- `current_inputs[input_id].cancel()` for an id mapped to `ref`: the state
afterwards, and whether the callback was invoked. -/
def cancelContext (s : CancelState) (ref : Nat) : CancelState × Bool :=
  match s.live.lookup ref with
  | none => (s, false)
  | some ctx => ({ s with live := updateContext s.live ref fun c => c.cancel.1 }, ctx.cancel.2)

/-- The loop of `_heartbeat_handle_cancellations` over the listed ids: the
state afterwards, and the contexts whose callback it invoked, in order. -/
def handleCancellations (s : CancelState) : List String → CancelState × List Nat
  | [] => (s, [])
  | inputId :: rest =>
      match s.currentInputs inputId with
      | none => s.handleCancellations rest
      | some ref =>
          let cancelled := s.cancelContext ref
          let later := cancelled.1.handleCancellations rest
          (later.1, if cancelled.2 then ref :: later.2 else later.2)

/-- `exit_context` for the context numbered `ref`: its ids leave `current_inputs`. -/
def exitContext (s : CancelState) (ref : Nat) (ctx : IOContext) : CancelState :=
  ⟨(popInputs s.currentInputs ctx.inputIds).1, s.live.filter (·.1 ≠ ref), s.nextContext⟩

def step (s : CancelState) : CancelEvent → Option (CancelState × List Occurrence)
  | .register ctx =>
      some (⟨registerInputs s.currentInputs ctx.inputIds s.nextContext,
        s.live ++ [(s.nextContext, ctx)], s.nextContext + 1⟩, [])
  | .setCancelCallback ref =>
      some ({ s with live := updateContext s.live ref IOContext.setCancelCallback }, [])
  | .heartbeat inputIds =>
      some ((s.handleCancellations inputIds).1, (s.handleCancellations inputIds).2.map .invoked)
  | .exitContext ref => (s.live.lookup ref).map fun ctx => (s.exitContext ref ctx, [.exited ref])

/-- What the environment promises: a new context has pairwise distinct ids,
none of them held by a live context, and its flag clear as `IOContext.create`
leaves it. -/
def Admissible (s : CancelState) : CancelEvent → Prop
  | .register ctx => ctx.inputIds.Nodup ∧
      (∀ entry ∈ s.live, ∀ inputId ∈ ctx.inputIds, inputId ∉ entry.2.inputIds) ∧
      ctx.cancelIssued = false
  | _ => True

instance (s : CancelState) (e : CancelEvent) : Decidable (s.Admissible e) :=
  match e with
  | .register ctx => inferInstanceAs (Decidable (ctx.inputIds.Nodup ∧
      (∀ entry ∈ s.live, ∀ inputId ∈ ctx.inputIds, inputId ∉ entry.2.inputIds) ∧
      ctx.cancelIssued = false))
  | .setCancelCallback _ | .heartbeat _ | .exitContext _ => instDecidableTrue

/-- The admissible events applied one after another: the state, and what they recorded. -/
def run (s : CancelState) : List CancelEvent → Option (CancelState × List Occurrence)
  | [] => some (s, [])
  | e :: rest =>
      if s.Admissible e then
        (s.step e).bind fun next =>
          (next.1.run rest).map fun later => (later.1, next.2 ++ later.2)
      else none

end CancelState

/-- The runs from `s₀` with history `history₀`: each admissible event the
manager accepts adds what it records to the history. -/
inductive CancelRun (s₀ : CancelState) (history₀ : List Occurrence) :
    CancelState → List Occurrence → Prop
  | here : CancelRun s₀ history₀ s₀ history₀
  | step {s s' : CancelState} {history new : List Occurrence} {e : CancelEvent} :
      CancelRun s₀ history₀ s history → s.Admissible e → s.step e = some (s', new) →
      CancelRun s₀ history₀ s' (history ++ new)

namespace CancelRun

variable {s₀ s s' : CancelState} {history₀ history history' : List Occurrence}

theorem trans (first : CancelRun s₀ history₀ s history) (second : CancelRun s history s' history') :
    CancelRun s₀ history₀ s' history' := by
  induction second with
  | here => exact first
  | step _ admissible stepped inductionHypothesis =>
      exact inductionHypothesis.step admissible stepped

theorem history_grows (ran : CancelRun s₀ history₀ s history) : history₀ <+: history := by
  induction ran with
  | here => exact List.prefix_refl _
  | step _ _ _ inductionHypothesis => exact inductionHypothesis.trans (List.prefix_append _ _)

theorem run {s : CancelState} {history : List Occurrence} (ran : CancelRun s₀ history₀ s history) :
    ∀ {events : List CancelEvent} {s' : CancelState} {later : List Occurrence},
      s.run events = some (s', later) → CancelRun s₀ history₀ s' (history ++ later)
  | [], _, _, finished => by
      cases finished
      simpa using ran
  | e :: rest, _, _, finished => by
      simp only [CancelState.run] at finished
      split_ifs at finished with admissible
      obtain ⟨⟨next, new⟩, stepped, continued⟩ := Option.bind_eq_some.mp finished
      obtain ⟨⟨final, later⟩, ranRest, same⟩ := Option.map_eq_some'.mp continued
      cases same
      simpa only [List.append_assoc] using (ran.step admissible stepped).run ranRest

/-- A run computed from the start is a run. -/
theorem of_run (events : List CancelEvent) {history : List Occurrence}
    (ran : (CancelState.init.run events).map Prod.snd = some history) :
    ∃ s, CancelRun .init [] s history := by
  obtain ⟨⟨s, later⟩, found, rfl⟩ := Option.map_eq_some'.mp ran
  exact ⟨s, by simpa using CancelRun.here.run found⟩

end CancelRun

/-- A history in which no callback of a context is invoked after the context's exit. -/
def InvokedBeforeExit (history : List Occurrence) : Prop :=
  ∀ before after ref, history = before ++ .exited ref :: after → .invoked ref ∉ after

theorem InvokedBeforeExit.append {history new : List Occurrence}
    (old : InvokedBeforeExit history) (fresh : InvokedBeforeExit new)
    (apart : ∀ ref, .exited ref ∈ history → .invoked ref ∉ new) :
    InvokedBeforeExit (history ++ new) := by
  intro before after ref split
  rcases List.append_eq_append_iff.mp split with ⟨middle, -, rest⟩ | ⟨middle, rfl, rest⟩
  · exact fresh middle after ref rest
  · cases middle with
    | nil => exact fresh [] after ref (by simpa using rest.symm)
    | cons first middle =>
        simp only [List.cons_append, List.cons.injEq] at rest
        obtain ⟨rfl, rfl⟩ := rest
        rw [List.mem_append, not_or]
        exact ⟨old before middle ref rfl, apart ref (by simp)⟩

theorem invokedBeforeExit_invoked (refs : List Nat) : InvokedBeforeExit (refs.map .invoked) := by
  intro before after ref split
  have exited : Occurrence.exited ref ∈ refs.map .invoked := by simp [split]
  simp at exited

theorem invokedBeforeExit_exited (ref : Nat) : InvokedBeforeExit [.exited ref] := by
  intro before after other split
  cases before with
  | nil =>
      simp only [List.nil_append, List.cons.injEq] at split
      simp [← split.2]
  | cons _ _ => simp at split

namespace CancelState

variable {s : CancelState}

theorem registry_updateContext (registry : Registry s.currentInputs s.live s.nextContext)
    (ref : Nat) {f : IOContext → IOContext} (sameIds : ∀ ctx, (f ctx).inputIds = ctx.inputIds) :
    Registry s.currentInputs (updateContext s.live ref f) s.nextContext :=
  registry.map _ fun entry => by split_ifs <;> simp [sameIds]

theorem cancelContext_eq (registry : Registry s.currentInputs s.live s.nextContext)
    {ref : Nat} {ctx : IOContext} (member : (ref, ctx) ∈ s.live) :
    s.cancelContext ref =
      ({ s with live := updateContext s.live ref fun c => c.cancel.1 }, ctx.cancel.2) := by
  simp only [cancelContext, registry.lookup_of_mem member]

/-- A listed id reaches a live context exactly when `current_inputs` maps it there. -/
theorem cancelListed_cons_live (registry : Registry s.currentInputs s.live s.nextContext)
    {entry : Nat × IOContext} (member : entry ∈ s.live) (inputId : String) (rest : List String) :
    entry.2.cancelListed true (inputId :: rest) =
      (((if s.currentInputs inputId = some entry.1 then entry.2.cancel.1 else entry.2).cancelListed
          true rest).1,
        (decide (s.currentInputs inputId = some entry.1) && entry.2.cancel.2) ||
          ((if s.currentInputs inputId = some entry.1 then entry.2.cancel.1 else entry.2).cancelListed
            true rest).2) := by
  simp only [IOContext.cancelListed, true_and, registry.mem_inputIds_iff member]
  split_ifs with reached <;> simp [reached]

/-- Seen from each live context, a heartbeat is `cancelListed` of the
single-input model: the contexts change in place, a callback is invoked only
for a live context, and for one exactly when `cancelListed` fires, once. -/
theorem handleCancellations_spec (registry : Registry s.currentInputs s.live s.nextContext)
    (inputIds : List String) :
    (s.handleCancellations inputIds).1 =
        { s with live := s.live.map fun entry => (entry.1, (entry.2.cancelListed true inputIds).1) } ∧
      (s.handleCancellations inputIds).2.Nodup ∧
      (∀ ref ∈ (s.handleCancellations inputIds).2, ref ∈ s.live.map Prod.fst) ∧
      ∀ entry ∈ s.live,
        entry.1 ∈ (s.handleCancellations inputIds).2 ↔ (entry.2.cancelListed true inputIds).2 = true := by
  induction inputIds generalizing s with
  | nil => simp [handleCancellations, IOContext.cancelListed]
  | cons inputId rest inductionHypothesis =>
      cases found : s.currentInputs inputId with
      | none =>
          have skipped : ∀ entry ∈ s.live,
              entry.2.cancelListed true (inputId :: rest) = entry.2.cancelListed true rest :=
            fun entry member => by simp [cancelListed_cons_live registry member, found]
          obtain ⟨state, distinct, alive, fired⟩ := inductionHypothesis registry
          simp only [handleCancellations, found]
          refine ⟨?_, distinct, alive, fun entry member => by rw [fired entry member, skipped entry member]⟩
          rw [state]
          congr 1
          exact List.map_congr_left fun entry member => by rw [skipped entry member]
      | some ref =>
          obtain ⟨ctx, member, -⟩ := (registry.current_iff inputId ref).mp found
          let s' : CancelState := { s with live := updateContext s.live ref fun c => c.cancel.1 }
          obtain ⟨state, distinct, alive, fired⟩ :=
            inductionHypothesis (s := s') (registry_updateContext registry ref IOContext.inputIds_cancel)
          have kept : ∀ entry ∈ s.live,
              (entry.1, if entry.1 = ref then entry.2.cancel.1 else entry.2) ∈ s'.live :=
            fun entry member => List.mem_map_of_mem _ member
          have sameRefs : s'.live.map Prod.fst = s.live.map Prod.fst := by
            simp [s', updateContext, List.map_map, Function.comp_def]
          have reached : ∀ entry ∈ s.live, s.currentInputs inputId = some entry.1 ↔ entry.1 = ref :=
            fun entry _ => by rw [found, Option.some.injEq, eq_comm]
          simp only [handleCancellations, found, cancelContext_eq registry member]
          refine ⟨?_, ?_, ?_, fun entry listedEntry => ?_⟩
          · rw [state]
            simp only [s', updateContext, List.map_map]
            congr 1
            exact List.map_congr_left fun entry member => by
              simp only [Function.comp, cancelListed_cons_live registry member, reached entry member]
          · split_ifs with invoked
            · refine List.nodup_cons.mpr ⟨fun again => ?_, distinct⟩
              have refired := (fired _ (kept _ member)).mp (by simpa using again)
              simp only [if_true, IOContext.cancelListed_fired_iff, IOContext.cancelIssued_cancel,
                invoked, Bool.or_true] at refired
              exact Bool.noConfusion refired.1
            · exact distinct
          · intro other mem'
            split_ifs at mem' with invoked
            · rcases List.mem_cons.mp mem' with rfl | later
              · exact List.mem_map_of_mem _ member
              · exact sameRefs ▸ alive other later
            · exact sameRefs ▸ alive other mem'
          · simp only [cancelListed_cons_live registry listedEntry, reached entry listedEntry,
              Bool.or_eq_true, ← fired _ (kept entry listedEntry)]
            by_cases same : entry.1 = ref
            · obtain ⟨first, second⟩ := entry
              obtain ⟨rfl, rfl⟩ : first = ref ∧ second = ctx := Prod.ext_iff.mp
                (List.inj_on_of_nodup_map registry.refs_nodup listedEntry member same)
              split_ifs with invoked <;> simp only [IOContext.cancel_fired] at invoked <;>
                simp [invoked]
            · split_ifs <;> simp [same]

/-- Only a heartbeat invokes callbacks, and only those of live contexts. -/
theorem step_invoked {e : CancelEvent} {s' : CancelState} {new : List Occurrence}
    (registry : Registry s.currentInputs s.live s.nextContext)
    (stepped : s.step e = some (s', new)) {ref : Nat} (invoked : .invoked ref ∈ new) :
    ref ∈ s.live.map Prod.fst := by
  cases e with
  | register ctx | setCancelCallback _ =>
      simp only [step, Option.some.injEq, Prod.mk.injEq] at stepped
      simp [← stepped.2] at invoked
  | heartbeat inputIds =>
      simp only [step, Option.some.injEq, Prod.mk.injEq] at stepped
      rw [← stepped.2, List.mem_map] at invoked
      obtain ⟨_, fired, same⟩ := invoked
      cases same
      exact (handleCancellations_spec registry inputIds).2.2.1 _ fired
  | exitContext _ =>
      obtain ⟨_, -, same⟩ := Option.map_eq_some'.mp stepped
      simp [← (Prod.mk.inj same).2] at invoked

end CancelState

/-- What every run from the start keeps: `current_inputs` agrees with the live
contexts; a live context's flag is set exactly when its callback has been
invoked; no live context has exited; every number recorded has been given
out; and no callback has been invoked twice, nor after its context's exit. -/
structure CancelInvariant (s : CancelState) (history : List Occurrence) : Prop where
  registry : Registry s.currentInputs s.live s.nextContext
  issued_iff : ∀ entry ∈ s.live, entry.2.cancelIssued = true ↔ .invoked entry.1 ∈ history
  not_exited : ∀ entry ∈ s.live, .exited entry.1 ∉ history
  ref_lt : ∀ occurrence ∈ history, occurrence.ref < s.nextContext
  invoked_once : ∀ ref, history.count (.invoked ref) ≤ 1
  invokedBeforeExit : InvokedBeforeExit history

namespace CancelInvariant

variable {s : CancelState} {history : List Occurrence}

theorem init : CancelInvariant .init [] := by
  refine ⟨⟨?_, ?_, ?_, ?_, ?_⟩, ?_, ?_, ?_, ?_, ?_⟩ <;> simp [CancelState.init, InvokedBeforeExit]

theorem register (inv : CancelInvariant s history) {ctx : IOContext}
    (admissible : s.Admissible (.register ctx)) :
    CancelInvariant ⟨registerInputs s.currentInputs ctx.inputIds s.nextContext,
      s.live ++ [(s.nextContext, ctx)], s.nextContext + 1⟩ history := by
  obtain ⟨distinct, fresh, clear⟩ := admissible
  have unrecorded : ∀ occurrence ∈ history, occurrence.ref ≠ s.nextContext :=
    fun occurrence recorded => (inv.ref_lt occurrence recorded).ne
  refine ⟨inv.registry.registerContext distinct fresh, fun entry member => ?_,
    fun entry member => ?_, fun occurrence recorded => Nat.lt_succ_of_lt (inv.ref_lt occurrence recorded),
    inv.invoked_once, inv.invokedBeforeExit⟩
  · rcases List.mem_append.mp member with old | new
    · exact inv.issued_iff entry old
    · obtain rfl := List.mem_singleton.mp new
      dsimp only
      rw [clear]
      exact iff_of_false Bool.false_ne_true fun recorded => unrecorded _ recorded rfl
  · rcases List.mem_append.mp member with old | new
    · exact inv.not_exited entry old
    · obtain rfl := List.mem_singleton.mp new
      exact fun recorded => unrecorded _ recorded rfl

theorem setCancelCallback (inv : CancelInvariant s history) (ref : Nat) :
    CancelInvariant { s with live := CancelState.updateContext s.live ref IOContext.setCancelCallback }
      history := by
  refine ⟨CancelState.registry_updateContext inv.registry ref IOContext.inputIds_setCancelCallback,
    fun entry member => ?_, fun entry member => ?_, inv.ref_lt, inv.invoked_once, inv.invokedBeforeExit⟩
  · obtain ⟨old, kept, rfl⟩ := List.mem_map.mp member
    split_ifs <;> exact inv.issued_iff old kept
  · obtain ⟨old, kept, rfl⟩ := List.mem_map.mp member
    exact inv.not_exited old kept

theorem heartbeat (inv : CancelInvariant s history) (inputIds : List String) :
    CancelInvariant (s.handleCancellations inputIds).1
      (history ++ (s.handleCancellations inputIds).2.map .invoked) := by
  obtain ⟨state, distinct, alive, fired⟩ := CancelState.handleCancellations_spec inv.registry inputIds
  have firedLive : ∀ ref ∈ (s.handleCancellations inputIds).2, ∃ entry ∈ s.live, entry.1 = ref ∧
      Occurrence.invoked ref ∉ history ∧ Occurrence.exited ref ∉ history := by
    intro ref invoked
    obtain ⟨entry, member, rfl⟩ := List.mem_map.mp (alive ref invoked)
    have clear := ((IOContext.cancelListed_fired_iff _ _ _).mp ((fired entry member).mp invoked)).1
    refine ⟨entry, member, rfl, fun recorded => ?_, inv.not_exited entry member⟩
    rw [(inv.issued_iff entry member).mpr recorded] at clear
    exact Bool.noConfusion clear
  rw [state]
  refine ⟨inv.registry.map _ fun entry => IOContext.inputIds_cancelListed _ _ _,
    fun entry member => ?_, fun entry member => ?_, fun occurrence recorded => ?_, fun ref => ?_,
    inv.invokedBeforeExit.append (invokedBeforeExit_invoked _) fun ref exited invoked => ?_⟩
  · obtain ⟨old, kept, rfl⟩ := List.mem_map.mp member
    rw [IOContext.cancelIssued_cancelListed, Bool.or_eq_true, inv.issued_iff old kept,
      ← fired old kept, List.mem_append]
    simp
  · obtain ⟨old, kept, rfl⟩ := List.mem_map.mp member
    simpa using inv.not_exited old kept
  · rcases List.mem_append.mp recorded with old | new
    · exact inv.ref_lt occurrence old
    · obtain ⟨ref, invoked, rfl⟩ := List.mem_map.mp new
      obtain ⟨entry, member, rfl, -⟩ := firedLive ref invoked
      exact inv.registry.ref_lt entry member
  · rw [List.count_append]
    by_cases invoked : ref ∈ (s.handleCancellations inputIds).2
    · obtain ⟨-, -, -, unrecorded, -⟩ := firedLive ref invoked
      rw [List.count_eq_zero_of_not_mem unrecorded, Nat.zero_add]
      exact List.nodup_iff_count_le_one.mp
        (distinct.map fun _ _ same => Occurrence.invoked.inj same) _
    · have absent : Occurrence.invoked ref ∉ (s.handleCancellations inputIds).2.map .invoked := by
        simpa using invoked
      rw [List.count_eq_zero_of_not_mem absent, Nat.add_zero]
      exact inv.invoked_once ref
  · obtain ⟨_, invoked, same⟩ := List.mem_map.mp invoked
    cases same
    obtain ⟨-, -, -, -, unexited⟩ := firedLive ref invoked
    exact unexited exited

theorem exitContext (inv : CancelInvariant s history) {ref : Nat} {ctx : IOContext}
    (found : s.live.lookup ref = some ctx) :
    CancelInvariant (s.exitContext ref ctx) (history ++ [.exited ref]) := by
  have member := FetchState.mem_of_lookup_eq_some found
  have registered : ∀ inputId ∈ ctx.inputIds, s.currentInputs inputId ≠ none :=
    fun inputId mem => Option.ne_none_iff_exists'.mpr
      ⟨ref, (inv.registry.current_iff inputId ref).mpr ⟨ctx, member, mem⟩⟩
  refine ⟨?_, fun entry kept => ?_, fun entry kept => ?_, fun occurrence recorded => ?_,
    fun other => by simpa using inv.invoked_once other,
    inv.invokedBeforeExit.append (invokedBeforeExit_exited ref) (by simp)⟩
  · simp only [CancelState.exitContext,
      FetchState.popInputs_of_registered (inv.registry.inputIds_nodup _ member) registered]
    exact inv.registry.remove member
  · simp only [CancelState.exitContext, List.mem_filter, decide_eq_true_eq] at kept
    simp [inv.issued_iff entry kept.1]
  · simp only [CancelState.exitContext, List.mem_filter, decide_eq_true_eq] at kept
    simp [inv.not_exited entry kept.1, kept.2]
  · rcases List.mem_append.mp recorded with old | new
    · exact inv.ref_lt occurrence old
    · rw [List.mem_singleton.mp new]
      exact inv.registry.ref_lt _ member

theorem step (inv : CancelInvariant s history) {e : CancelEvent} {s' : CancelState}
    {new : List Occurrence} (admissible : s.Admissible e) (stepped : s.step e = some (s', new)) :
    CancelInvariant s' (history ++ new) := by
  cases e with
  | register ctx =>
      simp only [CancelState.step, Option.some.injEq, Prod.mk.injEq] at stepped
      obtain ⟨rfl, rfl⟩ := stepped
      simpa using inv.register admissible
  | setCancelCallback ref =>
      simp only [CancelState.step, Option.some.injEq, Prod.mk.injEq] at stepped
      obtain ⟨rfl, rfl⟩ := stepped
      simpa using inv.setCancelCallback ref
  | heartbeat inputIds =>
      simp only [CancelState.step, Option.some.injEq, Prod.mk.injEq] at stepped
      obtain ⟨rfl, rfl⟩ := stepped
      exact inv.heartbeat inputIds
  | exitContext ref =>
      obtain ⟨ctx, found, same⟩ := Option.map_eq_some'.mp stepped
      obtain ⟨rfl, rfl⟩ := Prod.mk.inj same
      exact inv.exitContext found

/-- A heartbeat listing an id that `current_inputs` maps to a context with its
callback attached leaves that callback invoked. -/
theorem invoked_of_listed (inv : CancelInvariant s history) {inputIds : List String}
    {inputId : String} {ref : Nat} {ctx : IOContext} (listed : inputId ∈ inputIds)
    (found : s.currentInputs inputId = some ref) (live : s.live.lookup ref = some ctx)
    (callback : ctx.hasCancelCallback = true) :
    .invoked ref ∈ history ++ (s.handleCancellations inputIds).2.map .invoked := by
  have member := FetchState.mem_of_lookup_eq_some live
  cases issued : ctx.cancelIssued with
  | true => exact List.mem_append_left _ ((inv.issued_iff _ member).mp issued)
  | false =>
      have fires : (ctx.cancelListed true inputIds).2 = true :=
        (IOContext.cancelListed_fired_iff _ _ _).mpr ⟨issued, callback, rfl,
          inputId, listed, (inv.registry.mem_inputIds_iff member inputId).mpr found⟩
      exact List.mem_append_right _ (List.mem_map_of_mem _
        (((CancelState.handleCancellations_spec inv.registry inputIds).2.2.2 _ member).mpr fires))

end CancelInvariant

theorem CancelRun.invariant {s₀ s : CancelState} {history₀ history : List Occurrence}
    (start : CancelInvariant s₀ history₀) (ran : CancelRun s₀ history₀ s history) :
    CancelInvariant s history := by
  induction ran with
  | here => exact start
  | step _ admissible stepped inductionHypothesis => exact inductionHypothesis.step admissible stepped

/-- Over every run, a context's cancel callback is invoked at most once, never
after the context's exit, and only while `current_inputs` maps every id of the
context to it; and once a heartbeat lists an id that `current_inputs` maps to a
context with its callback attached, the callback has been invoked exactly once
in every continuation of the run. -/
theorem cancel_callback_once {s : CancelState} {history : List Occurrence}
    (reach : CancelRun .init [] s history) :
    (∀ ref, history.count (.invoked ref) ≤ 1) ∧ InvokedBeforeExit history ∧
      (∀ e s' new, s.step e = some (s', new) → ∀ ref, .invoked ref ∈ new →
        ∃ ctx, s.live.lookup ref = some ctx ∧
          ∀ inputId ∈ ctx.inputIds, s.currentInputs inputId = some ref) ∧
      (∀ inputIds inputId ref ctx s' new s'' history'', inputId ∈ inputIds →
        s.currentInputs inputId = some ref → s.live.lookup ref = some ctx →
        ctx.hasCancelCallback = true → s.step (.heartbeat inputIds) = some (s', new) →
        CancelRun s' (history ++ new) s'' history'' → history''.count (.invoked ref) = 1) := by
  have inv := reach.invariant CancelInvariant.init
  refine ⟨inv.invoked_once, inv.invokedBeforeExit, fun e s' new stepped ref invoked => ?_,
    fun inputIds inputId ref ctx s' new s'' history'' listed found live callback stepped later => ?_⟩
  · obtain ⟨entry, member, rfl⟩ :=
      List.mem_map.mp (CancelState.step_invoked inv.registry stepped invoked)
    exact ⟨entry.2, inv.registry.lookup_of_mem member, fun inputId mem =>
      (inv.registry.mem_inputIds_iff member inputId).mp mem⟩
  · have recorded := inv.invoked_of_listed listed found live callback
    simp only [CancelState.step, Option.some.injEq, Prod.mk.injEq] at stepped
    obtain ⟨rfl, rfl⟩ := stepped
    have atMostOnce := ((reach.step (e := .heartbeat inputIds) trivial rfl).trans later).invariant CancelInvariant.init
    have atLeastOnce := List.count_pos_iff.mpr (later.history_grows.subset recorded)
    have := atMostOnce.invoked_once ref
    omega

/-- A batched context of two inputs. -/
def batchContext : IOContext :=
  ⟨["in-1", "in-2"], [0, 0], ["fc-1", "fc-1"], [⟨.args [], "f", false⟩, ⟨.args [], "f", false⟩],
    ⟨"f", ["x"]⟩, true, false, false, rfl, rfl, rfl, by simp, fun batched => by cases batched⟩

/-- An unbatched context. -/
def singleContext : IOContext :=
  ⟨["in-3"], [0], ["fc-1"], [⟨.args [], "f", false⟩], ⟨"f", ["x"]⟩, false, false, false,
    rfl, rfl, rfl, by simp, fun _ => rfl⟩

/-- The batch attaches its callback; a heartbeat lists both of its ids, one
twice, and the unbatched input's id before that input has a callback; a second
heartbeat lists the batch again. The batch exits, the unbatched input attaches
its callback, and a last heartbeat lists an id of the exited batch and the
unbatched input's id. Each callback is invoked once, the batch's before its exit. -/
theorem batch_cancelled_once :
    ∃ s, CancelRun .init [] s [.invoked 0, .exited 0, .invoked 1] ∧
      (∀ ref, [Occurrence.invoked 0, .exited 0, .invoked 1].count (.invoked ref) ≤ 1) ∧
      InvokedBeforeExit [.invoked 0, .exited 0, .invoked 1] ∧
      (∀ e s' new, s.step e = some (s', new) → ∀ ref, .invoked ref ∈ new →
        ∃ ctx, s.live.lookup ref = some ctx ∧
          ∀ inputId ∈ ctx.inputIds, s.currentInputs inputId = some ref) ∧
      (∀ inputIds inputId ref ctx s' new s'' history'', inputId ∈ inputIds →
        s.currentInputs inputId = some ref → s.live.lookup ref = some ctx →
        ctx.hasCancelCallback = true → s.step (.heartbeat inputIds) = some (s', new) →
        CancelRun s' ([.invoked 0, .exited 0, .invoked 1] ++ new) s'' history'' →
        history''.count (.invoked ref) = 1) := by
  obtain ⟨s, reach⟩ : ∃ s, CancelRun .init [] s [.invoked 0, .exited 0, .invoked 1] :=
    CancelRun.of_run [.register batchContext, .register singleContext, .setCancelCallback 0,
      .heartbeat ["in-1", "in-2", "in-1", "in-3"], .heartbeat ["in-2"], .exitContext 0,
      .setCancelCallback 1, .heartbeat ["in-1", "in-3"]] (by decide)
  exact ⟨s, reach, cancel_callback_once reach⟩

end ContainerIO
