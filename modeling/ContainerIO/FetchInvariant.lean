import ContainerIO.Fetch
import Mathlib.Data.List.Nodup

/-!
# What fetching inputs keeps

Over every run of `run_inputs_outputs`, with consumers exiting the contexts it
yields and the concurrency changed at any point, `current_inputs` maps exactly
the input ids of the live contexts, each to its own context, and every held
slot is accounted for: one per live context, one for the generator's current
iteration, and those the loop of `close` acquired.
-/

namespace ContainerIO

namespace FetchPhase

attribute [simp] holding closeHeld isParked woken

/-- How far the loop of `close` got: the iterations done, and all of them. -/
@[simp] def closeProgress : FetchPhase → Option (Nat × Nat)
  | .closing acquired total | .closeParked acquired total => some (acquired, total)
  | .finished total => some (total, total)
  | _ => none

theorem closeHeld_of_closeProgress {phase : FetchPhase} (outside : phase.closeProgress = none) :
    phase.closeHeld = 0 := by
  cases phase <;> first | rfl | cases outside

theorem isParked_cases {phase : FetchPhase} (parked : phase.isParked = true) :
    phase = .parked ∨ ∃ acquired total, phase = .closeParked acquired total := by
  cases phase <;> simp_all [isParked]

@[simp] theorem isParked_woken (phase : FetchPhase) : phase.woken.isParked = false := by
  cases phase <;> rfl

theorem eq_of_woken_eq_creating {phase : FetchPhase} {batch : List InputTuple} {final : Bool}
    (woken : phase.woken = .creating batch final) : phase = .creating batch final := by
  cases phase <;> first | exact woken | cases woken

end FetchPhase

namespace FetchState

/-- `current_inputs` and the live contexts agree, and the contexts are told
apart by their numbers and by their input ids. -/
structure Registry (currentInputs : String → Option Nat) (live : List (Nat × IOContext))
    (nextContext : Nat) : Prop where
  current_iff : ∀ inputId ref,
    currentInputs inputId = some ref ↔ ∃ ctx, (ref, ctx) ∈ live ∧ inputId ∈ ctx.inputIds
  ref_lt : ∀ entry ∈ live, entry.1 < nextContext
  refs_nodup : (live.map Prod.fst).Nodup
  inputIds_nodup : ∀ entry ∈ live, entry.2.inputIds.Nodup
  inputIds_disjoint : ∀ entry ∈ live, ∀ other ∈ live, entry.1 ≠ other.1 →
    ∀ inputId ∈ entry.2.inputIds, inputId ∉ other.2.inputIds

/-- Every held slot is accounted for, `close` counts its own acquisitions, and
the semaphore holds no parked waiter while a slot is free. -/
structure Accounting (s : FetchState) : Prop where
  active_eq : s.slots.active = s.live.length + s.phase.holding + s.phase.closeHeld
  waiter_eq : s.slots.waiter = s.phase.isParked
  parkedFull : s.slots.ParkedFull
  closing : ∀ acquired total, s.phase.closeProgress = some (acquired, total) →
    s.slots.closed ∧ total = s.slots.value.toNat ∧ acquired ≤ total ∧
      (0 < acquired → s.slots.active ≤ s.slots.value)
  parked_lt : ∀ acquired total, s.phase = .closeParked acquired total → acquired < total

structure FetchInvariant (s : FetchState) : Prop where
  registry : Registry s.currentInputs s.live s.nextContext
  accounting : s.Accounting
  creating : ∀ batch final, s.phase = .creating batch final → s.FreshBatch batch

theorem registerInputs_apply (current : String → Option Nat) (inputIds : List String) (ref : Nat)
    (inputId : String) :
    registerInputs current inputIds ref inputId =
      if inputId ∈ inputIds then some ref else current inputId := by
  induction inputIds generalizing current with
  | nil => simp [registerInputs]
  | cons head rest inductionHypothesis =>
      simp only [registerInputs, List.foldl_cons] at inductionHypothesis ⊢
      rw [inductionHypothesis]
      by_cases same : inputId = head <;> simp [same, Function.update_apply]

/-- Popping ids that are all present, each once, raises no `KeyError`. -/
theorem popInputs_of_registered : ∀ {current : String → Option Nat} {inputIds : List String},
    inputIds.Nodup → (∀ inputId ∈ inputIds, current inputId ≠ none) →
    popInputs current inputIds =
      (fun inputId => if inputId ∈ inputIds then none else current inputId, none)
  | current, [], _, _ => by simp [popInputs]
  | current, head :: rest, distinct, registered => by
      obtain ⟨ref, found⟩ := Option.ne_none_iff_exists'.mp (registered head (List.mem_cons_self _ _))
      rw [List.nodup_cons] at distinct
      have rest_registered : ∀ inputId ∈ rest, Function.update current head none inputId ≠ none :=
        fun inputId member => by
          rw [Function.update_noteq (fun (same : inputId = head) => distinct.1 (same ▸ member))]
          exact registered inputId (List.mem_cons_of_mem _ member)
      simp only [popInputs, found, popInputs_of_registered distinct.2 rest_registered,
        Prod.mk.injEq, and_true]
      funext inputId
      by_cases same : inputId = head <;> simp [same, Function.update_apply]

theorem mem_of_lookup_eq_some {live : List (Nat × IOContext)} {ref : Nat} {ctx : IOContext}
    (found : live.lookup ref = some ctx) : (ref, ctx) ∈ live := by
  obtain ⟨before, after, rfl, -⟩ := List.lookup_eq_some_iff.mp found
  simp

namespace Registry

variable {current : String → Option Nat} {live : List (Nat × IOContext)} {next : Nat}

/-- Registering a context of fresh ids under a fresh number. -/
theorem registerContext (registry : Registry current live next) {ctx : IOContext}
    (distinct : ctx.inputIds.Nodup)
    (fresh : ∀ entry ∈ live, ∀ inputId ∈ ctx.inputIds, inputId ∉ entry.2.inputIds) :
    Registry (registerInputs current ctx.inputIds next) (live ++ [(next, ctx)]) (next + 1) := by
  have older : ∀ entry ∈ live, entry.1 ≠ next := fun entry member => (registry.ref_lt entry member).ne
  refine ⟨fun inputId ref => ?_, fun entry member => ?_, ?_, fun entry member => ?_,
    fun entry member other otherMember differ inputId mem => ?_⟩
  · rw [registerInputs_apply]
    by_cases mem : inputId ∈ ctx.inputIds
    · simp only [mem, if_true, Option.some.injEq, List.mem_append, List.mem_singleton,
        Prod.mk.injEq]
      constructor
      · rintro rfl
        exact ⟨ctx, .inr ⟨rfl, rfl⟩, mem⟩
      · rintro ⟨other, member | ⟨rfl, rfl⟩, otherMem⟩
        · exact absurd otherMem (fresh _ member inputId mem)
        · rfl
    · simp only [mem, if_false, registry.current_iff, List.mem_append, List.mem_singleton,
        Prod.mk.injEq]
      constructor
      · rintro ⟨other, member, otherMem⟩
        exact ⟨other, .inl member, otherMem⟩
      · rintro ⟨other, member | ⟨rfl, rfl⟩, otherMem⟩
        · exact ⟨other, member, otherMem⟩
        · exact absurd otherMem mem
  · rw [List.mem_append, List.mem_singleton] at member
    rcases member with member | rfl
    · exact Nat.lt_succ_of_lt (registry.ref_lt entry member)
    · exact Nat.lt_succ_self _
  · rw [List.map_append, List.nodup_append]
    refine ⟨registry.refs_nodup, List.nodup_singleton _, fun ref inOld inNew => ?_⟩
    obtain ⟨entry, member, rfl⟩ := List.mem_map.mp inOld
    exact older entry member (by simpa using inNew)
  · rw [List.mem_append, List.mem_singleton] at member
    rcases member with member | rfl
    · exact registry.inputIds_nodup entry member
    · exact distinct
  · rw [List.mem_append, List.mem_singleton] at member otherMember
    rcases member with member | rfl <;> rcases otherMember with otherMember | rfl
    · exact registry.inputIds_disjoint entry member other otherMember differ inputId mem
    · exact fun inNew => fresh entry member inputId inNew mem
    · exact fresh other otherMember inputId mem
    · exact absurd rfl differ

/-- Registering the context of a fresh batch under a fresh number. -/
theorem register (registry : Registry current live next) {batch : List InputTuple}
    {ctx : IOContext} (distinct : (batch.map InputTuple.inputId).Nodup)
    (unseen : ∀ tuple ∈ batch, ∀ entry ∈ live, tuple.inputId ∉ entry.2.inputIds)
    (inputIds : ctx.inputIds = batch.map InputTuple.inputId) :
    Registry (registerInputs current ctx.inputIds next) (live ++ [(next, ctx)]) (next + 1) := by
  refine registry.registerContext (inputIds ▸ distinct) fun entry member inputId mem => ?_
  rw [inputIds, List.mem_map] at mem
  obtain ⟨tuple, inBatch, rfl⟩ := mem
  exact unseen tuple inBatch entry member

/-- Exiting a live context: its number and its ids leave the registry. -/
theorem remove (registry : Registry current live next) {ref : Nat} {ctx : IOContext}
    (found : (ref, ctx) ∈ live) :
    Registry (fun inputId => if inputId ∈ ctx.inputIds then none else current inputId)
      (live.filter (·.1 ≠ ref)) next := by
  refine ⟨fun inputId other => ?_, fun entry member => ?_, ?_, fun entry member => ?_,
    fun entry member other otherMember => ?_⟩
  · simp only [List.mem_filter, decide_eq_true_eq]
    by_cases mem : inputId ∈ ctx.inputIds
    · simp only [mem, if_true]
      refine iff_of_false (by simp) fun ⟨otherCtx, ⟨member, differ⟩, otherMem⟩ => ?_
      exact registry.inputIds_disjoint _ found _ member (Ne.symm differ) inputId mem otherMem
    · simp only [mem, if_false, registry.current_iff]
      constructor
      · rintro ⟨otherCtx, member, otherMem⟩
        refine ⟨otherCtx, ⟨member, fun same => mem ?_⟩, otherMem⟩
        subst same
        cases List.inj_on_of_nodup_map registry.refs_nodup member found rfl
        exact otherMem
      · rintro ⟨otherCtx, ⟨member, -⟩, otherMem⟩
        exact ⟨otherCtx, member, otherMem⟩
  · exact registry.ref_lt entry (List.mem_of_mem_filter member)
  · exact ((List.filter_sublist live).map Prod.fst).nodup registry.refs_nodup
  · exact registry.inputIds_nodup entry (List.mem_of_mem_filter member)
  · exact registry.inputIds_disjoint entry (List.mem_of_mem_filter member) other
      (List.mem_of_mem_filter otherMember)

/-- Changing the live contexts in place, each keeping its ids, keeps the registry. -/
theorem map (registry : Registry current live next) (f : Nat × IOContext → IOContext)
    (sameIds : ∀ entry, (f entry).inputIds = entry.2.inputIds) :
    Registry current (live.map fun entry => (entry.1, f entry)) next := by
  refine ⟨fun inputId ref => ?_, fun entry member => ?_, ?_, fun entry member => ?_,
    fun entry member other otherMember => ?_⟩
  · simp only [registry.current_iff, List.mem_map, Prod.mk.injEq]
    constructor
    · rintro ⟨ctx, member, mem⟩
      exact ⟨_, ⟨_, member, rfl, rfl⟩, by rwa [sameIds]⟩
    · rintro ⟨-, ⟨entry, member, rfl, rfl⟩, mem⟩
      exact ⟨entry.2, member, by rwa [sameIds] at mem⟩
  · obtain ⟨old, kept, rfl⟩ := List.mem_map.mp member
    exact registry.ref_lt old kept
  · simpa only [List.map_map] using registry.refs_nodup
  · obtain ⟨old, kept, rfl⟩ := List.mem_map.mp member
    simpa only [sameIds] using registry.inputIds_nodup old kept
  · obtain ⟨old, kept, rfl⟩ := List.mem_map.mp member
    obtain ⟨oldOther, otherKept, rfl⟩ := List.mem_map.mp otherMember
    simpa only [sameIds] using registry.inputIds_disjoint old kept oldOther otherKept

/-- A live context holds an id exactly when `current_inputs` maps the id to its number. -/
theorem mem_inputIds_iff (registry : Registry current live next) {ref : Nat} {ctx : IOContext}
    (member : (ref, ctx) ∈ live) (inputId : String) :
    inputId ∈ ctx.inputIds ↔ current inputId = some ref := by
  rw [registry.current_iff]
  refine ⟨fun mem => ⟨ctx, member, mem⟩, fun ⟨other, found, mem⟩ => ?_⟩
  cases List.inj_on_of_nodup_map registry.refs_nodup found member rfl
  exact mem

/-- The context numbered `ref` is the one the live list holds under it. -/
theorem lookup_of_mem (registry : Registry current live next) {ref : Nat} {ctx : IOContext}
    (member : (ref, ctx) ∈ live) : live.lookup ref = some ctx := by
  cases found : live.lookup ref with
  | none =>
      rw [List.lookup_eq_none_iff] at found
      simpa using found _ member
  | some other =>
      cases List.inj_on_of_nodup_map registry.refs_nodup (mem_of_lookup_eq_some found) member rfl
      rfl

/-- Dropping the one entry numbered `ref` shortens the live list by one. -/
theorem length_filter_ne (registry : Registry current live next) {ref : Nat} {ctx : IOContext}
    (found : (ref, ctx) ∈ live) : (live.filter (·.1 ≠ ref)).length + 1 = live.length := by
  have erased := congrArg List.length (registry.refs_nodup.erase_eq_filter ref)
  rw [List.filter_map, List.length_map,
    List.length_erase_of_mem (List.mem_map_of_mem Prod.fst found), List.length_map] at erased
  have same : live.filter ((fun x => x != ref) ∘ Prod.fst) = live.filter (·.1 ≠ ref) :=
    List.filter_congr fun entry _ => by by_cases same : entry.1 = ref <;> simp [same]
  have nonempty := List.length_pos_of_mem found
  rw [same] at erased
  omega

end Registry

variable {s s' : FetchState}

/-- Outside `close` and not parked, the accounting is the slot count alone. -/
theorem Accounting.of_idle (progress : s.phase.closeProgress = none)
    (notParked : s.phase.isParked = false) (waiter : s.slots.waiter = false)
    (active_eq : s.slots.active = s.live.length + s.phase.holding) : s.Accounting where
  active_eq := by rw [FetchPhase.closeHeld_of_closeProgress progress]; exact active_eq
  waiter_eq := waiter.trans notParked.symm
  parkedFull := fun parked => by simp [waiter] at parked
  closing := fun _ _ inClose => by rw [progress] at inClose; cases inClose
  parked_lt := fun _ _ phase => by simp [phase, FetchPhase.closeProgress] at progress

theorem Accounting.idle (acc : s.Accounting) (progress : s.phase.closeProgress = none)
    (notParked : s.phase.isParked = false) :
    s.slots.waiter = false ∧ s.slots.active = s.live.length + s.phase.holding :=
  ⟨acc.waiter_eq.trans notParked,
    by rw [acc.active_eq, FetchPhase.closeHeld_of_closeProgress progress]; rfl⟩

/-- `_wake_waiter` keeps the accounting, given that it holds with the semaphore
`q` it wakes from. -/
theorem accounting_wake {q : InputSlots}
    (active_eq : q.active = s.live.length + s.phase.holding + s.phase.closeHeld)
    (waiter_eq : q.waiter = s.phase.isParked)
    (closing : ∀ acquired total, s.phase.closeProgress = some (acquired, total) →
      q.closed ∧ total = q.value.toNat ∧ acquired ≤ total ∧ (0 < acquired → q.active ≤ q.value))
    (parked_lt : ∀ acquired total, s.phase = .closeParked acquired total → acquired < total) :
    (s.wake q.wakeWaiter).Accounting := by
  rcases InputSlots.wakeWaiter_cases q with ⟨below, parked, woken⟩ | ⟨full, idle⟩
  · rw [woken]
    rcases FetchPhase.isParked_cases (waiter_eq ▸ parked) with phase | ⟨acquired, total, phase⟩
    · rw [phase] at active_eq
      refine ⟨?_, ?_, ?_, ?_, ?_⟩ <;> simp [phase, InputSlots.ParkedFull] at active_eq ⊢
      omega
    · obtain ⟨closed, total_eq, -, -⟩ := closing acquired total (by simp [phase])
      have lt := parked_lt acquired total phase
      rw [phase] at active_eq
      refine ⟨?_, ?_, ?_, ?_, ?_⟩ <;> simp [phase, InputSlots.ParkedFull] at active_eq ⊢
      · omega
      · exact ⟨closed, total_eq, lt, below⟩
  · rw [idle]
    exact ⟨active_eq, waiter_eq, fun waiter => full.resolve_right (by simpa using waiter), closing,
      parked_lt⟩

theorem Accounting.congr (acc : s.Accounting) (slots : s'.slots = s.slots) (live : s'.live = s.live)
    (phase : s'.phase = s.phase) : s'.Accounting := by
  obtain ⟨active_eq, waiter_eq, parkedFull, closing, parked_lt⟩ := acc
  rw [← slots, ← live, ← phase] at *
  exact ⟨active_eq, waiter_eq, parkedFull, closing, parked_lt⟩

/-- `set_value` keeps the accounting: a closed semaphore ignores it, and an
open one is not in `close`. -/
theorem Accounting.setValue (acc : s.Accounting) (value : Int) :
    (s.wake (s.slots.setValue value)).Accounting := by
  unfold InputSlots.setValue
  split
  · exact acc.congr rfl rfl (by simp)
  · rename_i opened
    exact accounting_wake acc.active_eq acc.waiter_eq
      (fun acquired total progress => absurd (acc.closing acquired total progress).1 opened)
      acc.parked_lt

theorem wake_creating (result : Bool × InputSlots) :
    ∀ batch final, (s.wake result).phase = .creating batch final →
      s.phase = .creating batch final := by
  intro batch final phase
  rw [wake_phase] at phase
  split at phase
  · exact FetchPhase.eq_of_woken_eq_creating phase
  · exact phase

/-- A step that leaves the registry alone keeps the invariant when it keeps the
accounting and starts no creation. -/
theorem FetchInvariant.frame (inv : s.FetchInvariant) (current : s'.currentInputs = s.currentInputs)
    (live : s'.live = s.live) (next : s'.nextContext = s.nextContext)
    (creating : ∀ batch final, s'.phase = .creating batch final → s.phase = .creating batch final)
    (accounting : s'.Accounting) : s'.FetchInvariant :=
  ⟨current ▸ live ▸ next ▸ inv.registry, accounting, fun batch final phase => by
    unfold FreshBatch
    rw [live]
    exact inv.creating batch final (creating batch final phase)⟩

theorem release_of_idle (waiter : s.slots.waiter = false) :
    s.release = { s with slots := { s.slots with active := s.slots.active - 1 } } := by
  rcases InputSlots.wakeWaiter_cases { s.slots with active := s.slots.active - 1 } with
    ⟨-, parked, -⟩ | ⟨-, idle⟩
  · simp [waiter] at parked
  · simp [release, wake, InputSlots.release, idle]

/-- The iteration's slot released, the generator goes back to the loop head,
returns or fails. -/
theorem FetchInvariant.released (inv : s.FetchInvariant) (waiter : s.slots.waiter = false)
    (count : s.slots.active = s.live.length + 1) (slots : s'.slots = s.release.slots)
    (current : s'.currentInputs = s.currentInputs) (live : s'.live = s.live)
    (next : s'.nextContext = s.nextContext)
    (phase : s'.phase = .loopHead ∨ s'.phase = .returned ∨ s'.phase = .failed) :
    s'.FetchInvariant := by
  rw [release_of_idle waiter] at slots
  rcases phase with phase | phase | phase <;>
    exact inv.frame current live next (by simp [phase])
      (.of_idle (by simp [phase]) (by simp [phase]) (by simp [slots, waiter])
        (by simp [phase, slots, live, count]))

variable {cfg : FetchConfig}

theorem FetchInvariant.fetch (inv : s.FetchInvariant) (stepped : fetchStep cfg s .fetch = some s') :
    s'.FetchInvariant := by
  simp only [fetchStep] at stepped
  split at stepped
  case h_2 => cases stepped
  rename_i phase
  obtain ⟨waiter, count⟩ := inv.accounting.idle (by simp [phase]) (by simp [phase])
  simp only [phase, FetchPhase.holding] at count
  split at stepped
  · rcases InputSlots.acquire_cases s.slots with ⟨below, result⟩ | ⟨full, -, result⟩ | ⟨-, busy, -⟩
    · simp only [result, Option.some.injEq] at stepped
      subst stepped
      exact inv.frame rfl rfl rfl (by simp) (.of_idle rfl rfl waiter (by simp [count]))
    · simp only [result, Option.some.injEq] at stepped
      subst stepped
      exact inv.frame rfl rfl rfl (by simp)
        ⟨by simp [count], by simp, fun _ => full, by simp, by simp⟩
    · exact absurd busy (by simp [waiter])
  · cases stepped
    exact inv.frame rfl rfl rfl (by simp) (.of_idle rfl rfl waiter (by simp [count]))

theorem FetchInvariant.getInputs (inv : s.FetchInvariant) {response : FunctionGetInputsResponse}
    (admissible : s.Admissible (.getInputs response))
    (stepped : fetchStep cfg s (.getInputs response) = some s') : s'.FetchInvariant := by
  simp only [fetchStep] at stepped
  split at stepped
  case h_2 => cases stepped
  rename_i phase
  obtain ⟨waiter, count⟩ := inv.accounting.idle (by simp [phase]) (by simp [phase])
  simp only [phase, FetchPhase.holding] at count
  split at stepped
  · cases stepped
    exact inv.frame rfl rfl rfl (by simp) (.of_idle rfl rfl waiter (by simp [count]))
  split at stepped
  · cases stepped
    exact inv.released waiter count rfl rfl rfl rfl (.inl rfl)
  split at stepped
  · cases stepped
    exact inv.released waiter count rfl rfl rfl rfl (.inr (.inr rfl))
  split at stepped
  · cases stepped
    exact inv.released waiter count rfl rfl rfl rfl (.inr (.inl rfl))
  · rename_i batch final collected
    cases stepped
    refine ⟨inv.registry, .of_idle rfl rfl waiter (by simp [count]), ?_⟩
    rintro _ _ ⟨⟩
    simpa [Admissible, collected] using admissible

theorem FetchInvariant.congr (inv : s.FetchInvariant) (slots : s'.slots = s.slots)
    (current : s'.currentInputs = s.currentInputs) (live : s'.live = s.live)
    (next : s'.nextContext = s.nextContext) (phase : s'.phase = s.phase) : s'.FetchInvariant :=
  inv.frame current live next (fun _ _ => phase.symm ▸ id) (inv.accounting.congr slots live phase)

theorem FetchInvariant.getInputsFailed (inv : s.FetchInvariant)
    (stepped : fetchStep cfg s .getInputsFailed = some s') : s'.FetchInvariant := by
  simp only [fetchStep] at stepped
  split at stepped
  case h_2 => cases stepped
  rename_i phase
  obtain ⟨waiter, count⟩ := inv.accounting.idle (by simp [phase]) (by simp [phase])
  simp only [phase, FetchPhase.holding] at count
  cases stepped
  exact inv.released waiter count rfl rfl rfl rfl (.inr (.inr rfl))

theorem FetchInvariant.wakeUp (inv : s.FetchInvariant)
    (stepped : fetchStep cfg s .wakeUp = some s') : s'.FetchInvariant := by
  simp only [fetchStep] at stepped
  split at stepped
  case h_2 => cases stepped
  rename_i phase
  obtain ⟨waiter, count⟩ := inv.accounting.idle (by simp [phase]) (by simp [phase])
  simp only [phase, FetchPhase.holding] at count
  cases stepped
  exact inv.released waiter count rfl rfl rfl rfl (.inl rfl)

theorem FetchInvariant.create (inv : s.FetchInvariant) {download : String → Option Bytes}
    (stepped : fetchStep cfg s (.create download) = some s') : s'.FetchInvariant := by
  simp only [fetchStep] at stepped
  split at stepped
  case h_2 => cases stepped
  rename_i batch final phase
  obtain ⟨waiter, count⟩ := inv.accounting.idle (by simp [phase]) (by simp [phase])
  simp only [phase, FetchPhase.holding] at count
  split at stepped
  · rename_i ctx created
    cases stepped
    have fresh := inv.creating batch final phase
    exact ⟨inv.registry.register fresh.1 fresh.2 (IOContext.inputIds_of_create created),
      .of_idle rfl rfl waiter (by simp [count]), by simp⟩
  · cases stepped
    exact inv.frame rfl rfl rfl (by simp) (.of_idle rfl rfl waiter (by simp [count]))

theorem FetchInvariant.resume (inv : s.FetchInvariant)
    (stepped : fetchStep cfg s .resume = some s') : s'.FetchInvariant := by
  simp only [fetchStep] at stepped
  split at stepped
  case h_2 => cases stepped
  rename_i final phase
  obtain ⟨waiter, count⟩ := inv.accounting.idle (by simp [phase]) (by simp [phase])
  simp only [phase, FetchPhase.holding] at count
  cases stepped
  split <;> exact inv.frame rfl rfl rfl (by simp) (.of_idle rfl rfl waiter (by simp [count]))

theorem FetchInvariant.finalize (inv : s.FetchInvariant)
    (stepped : fetchStep cfg s .finalize = some s') : s'.FetchInvariant := by
  simp only [fetchStep] at stepped
  split at stepped
  case h_2 => cases stepped
  rename_i phase
  obtain ⟨waiter, count⟩ := inv.accounting.idle (by simp [phase]) (by simp [phase])
  simp only [phase, FetchPhase.holding] at count
  cases stepped
  exact inv.released waiter count rfl rfl rfl rfl (.inr (.inr rfl))

theorem FetchInvariant.closeStep (inv : s.FetchInvariant)
    (stepped : fetchStep cfg s .closeStep = some s') : s'.FetchInvariant := by
  have acc := inv.accounting
  simp only [fetchStep] at stepped
  split at stepped
  · rename_i phase
    obtain ⟨waiter, count⟩ := acc.idle (by simp [phase]) (by simp [phase])
    cases stepped
    refine inv.frame rfl rfl rfl (by simp) ⟨by simp [InputSlots.closeStart, phase, count],
      by simp [InputSlots.closeStart, waiter],
      fun parked => by simp [InputSlots.closeStart, waiter] at parked,
      fun acquired total progress => ?_, by simp⟩
    simp only [FetchPhase.closeProgress, Option.some.injEq, Prod.mk.injEq] at progress
    obtain ⟨rfl, rfl⟩ := progress
    simp [InputSlots.closeStart]
  · rename_i acquired total phase
    have waiter : s.slots.waiter = false := by simp [acc.waiter_eq, phase]
    obtain ⟨closed, total_eq, le, bound⟩ := acc.closing acquired total (by simp [phase])
    have count := acc.active_eq
    simp only [phase, FetchPhase.holding, FetchPhase.closeHeld] at count
    split at stepped
    · rename_i below
      rcases InputSlots.acquire_cases s.slots with ⟨free, result⟩ | ⟨full, -, result⟩ | ⟨-, busy, -⟩
      · simp only [result, Option.some.injEq] at stepped
        subst stepped
        refine inv.frame rfl rfl rfl (by simp) ⟨by simp [count]; omega, by simp [waiter],
          fun parked => by simp [waiter] at parked, fun acquired' total' progress => ?_, by simp⟩
        simp only [FetchPhase.closeProgress, Option.some.injEq, Prod.mk.injEq] at progress
        obtain ⟨rfl, rfl⟩ := progress
        exact ⟨closed, total_eq, below, fun _ => free⟩
      · simp only [result, Option.some.injEq] at stepped
        subst stepped
        refine inv.frame rfl rfl rfl (by simp) ⟨by simp [count], by simp, fun _ => full,
          fun acquired' total' progress => ?_, fun acquired' total' parked => ?_⟩
        · simp only [FetchPhase.closeProgress, Option.some.injEq, Prod.mk.injEq] at progress
          obtain ⟨rfl, rfl⟩ := progress
          exact ⟨closed, total_eq, le, bound⟩
        · simp only [FetchPhase.closeParked.injEq] at parked
          obtain ⟨rfl, rfl⟩ := parked
          exact below
      · exact absurd busy (by simp [waiter])
    · cases stepped
      have done : acquired = total := by omega
      subst done
      refine inv.frame rfl rfl rfl (by simp) ⟨by simp [count], by simp [waiter],
        fun parked => by simp [waiter] at parked, fun acquired' total' progress => ?_, by simp⟩
      simp only [leave_phase, FetchPhase.closeProgress, Option.some.injEq, Prod.mk.injEq] at progress
      obtain ⟨rfl, rfl⟩ := progress
      exact ⟨closed, total_eq, le, bound⟩
  · cases stepped

theorem FetchInvariant.exitContext (inv : s.FetchInvariant) {ref : Nat}
    (stepped : fetchStep cfg s (.exitContext ref) = some s') : s'.FetchInvariant := by
  simp only [fetchStep, Option.map_eq_some'] at stepped
  obtain ⟨ctx, found, rfl⟩ := stepped
  have member := mem_of_lookup_eq_some found
  have acc := inv.accounting
  have registered : ∀ inputId ∈ ctx.inputIds, s.currentInputs inputId ≠ none :=
    fun inputId mem => Option.ne_none_iff_exists'.mpr
      ⟨ref, (inv.registry.current_iff inputId ref).mpr ⟨ctx, member, mem⟩⟩
  have shorter := inv.registry.length_filter_ne member
  simp only [FetchState.exitContext,
    popInputs_of_registered (inv.registry.inputIds_nodup _ member) registered]
  refine ⟨inv.registry.remove member, accounting_wake ?_ acc.waiter_eq ?_ acc.parked_lt, ?_⟩
  · simp only [acc.active_eq]
    omega
  · intro acquired total progress
    obtain ⟨closed, total_eq, le, bound⟩ := acc.closing acquired total progress
    exact ⟨closed, total_eq, le, fun positive => by have := bound positive; dsimp only; omega⟩
  · intro batch final phase
    obtain ⟨distinct, unseen⟩ := inv.creating batch final (wake_creating _ batch final phase)
    exact ⟨distinct, fun tuple inBatch entry kept =>
      unseen tuple inBatch entry (List.mem_of_mem_filter kept)⟩

theorem FetchInvariant.setInputConcurrency (inv : s.FetchInvariant) {concurrency : Int}
    (stepped : fetchStep cfg s (.setInputConcurrency concurrency) = some s') :
    s'.FetchInvariant := by
  cases stepped
  exact inv.frame rfl rfl rfl (wake_creating _)
    ((show Accounting { s with stopConcurrencyLoop := true } from
      inv.accounting.congr rfl rfl rfl).setValue _)

theorem FetchInvariant.concurrencyReply (inv : s.FetchInvariant) {concurrency : Int}
    (stepped : fetchStep cfg s (.concurrencyReply concurrency) = some s') :
    s'.FetchInvariant := by
  simp only [fetchStep] at stepped
  split at stepped
  case h_2 => cases stepped
  split at stepped <;> cases stepped
  · exact inv.frame rfl rfl rfl (wake_creating _)
      ((show Accounting { s with loop := .sleeping } from
        inv.accounting.congr rfl rfl rfl).setValue _)
  · exact inv.congr rfl rfl rfl rfl rfl

theorem FetchInvariant.step (inv : s.FetchInvariant) {e : FetchEvent} (admissible : s.Admissible e)
    (stepped : fetchStep cfg s e = some s') : s'.FetchInvariant := by
  cases e with
  | fetch => exact inv.fetch stepped
  | getInputs response => exact inv.getInputs admissible stepped
  | getInputsFailed => exact inv.getInputsFailed stepped
  | wakeUp => exact inv.wakeUp stepped
  | create download => exact inv.create stepped
  | resume => exact inv.resume stepped
  | finalize => exact inv.finalize stepped
  | closeStep => exact inv.closeStep stepped
  | exitContext ref => exact inv.exitContext stepped
  | stopFetchingInputs =>
      cases stepped
      exact inv.congr rfl rfl rfl rfl rfl
  | setInputConcurrency concurrency => exact inv.setInputConcurrency stepped
  | concurrencyReply concurrency => exact inv.concurrencyReply stepped
  | concurrencyFetch | concurrencyFailed | concurrencyWake =>
      simp only [fetchStep] at stepped
      split at stepped <;> cases stepped
      exact inv.congr rfl rfl rfl rfl rfl

theorem init_fetchInvariant (cfg : FetchConfig) : (init cfg).FetchInvariant :=
  ⟨⟨by simp [init], by simp [init], by simp [init], by simp [init], by simp [init]⟩,
    .of_idle rfl rfl rfl (by simp [init, InputSlots.init]), by simp [init]⟩

end FetchState

open FetchState

theorem FetchReachable.invariant {cfg : FetchConfig} {s : FetchState} (reach : FetchReachable cfg s) :
    s.FetchInvariant := by
  induction reach with
  | init => exact init_fetchInvariant cfg
  | step _ admissible stepped inductionHypothesis => exact inductionHypothesis.step admissible stepped

/-- One input slot, one input per container, no batching. -/
def singleInputConfig : FetchConfig :=
  ⟨⟨false, 1, 1, 1⟩, [("", ⟨"f", ["x"]⟩)], 0⟩

end ContainerIO
