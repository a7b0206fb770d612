import Mathlib.Data.List.Forall2

/-!
# Shared data of the container I/O manager

Byte strings and payloads, the Python exceptions the manager raises, and
Python's `range(0, stop, step)` as `_push_outputs` iterates it.
-/

namespace ContainerIO

abbrev Bytes := List UInt8

/-- A serialized payload as the protobuf messages carry it: inline, or the id
of an uploaded blob. -/
inductive DataPart where
  | data (bytes : Bytes)
  | dataBlobId (blobId : Nat)
  deriving DecidableEq, Repr

/-- The blob store, modelled by what it holds: blob `i` is the `i`-th upload. -/
abbrev BlobStore := List Bytes

/-- `blob_upload`: the new blob's id and the store holding it. -/
def blobUpload (store : BlobStore) (bytes : Bytes) : Nat × BlobStore :=
  (store.length, store ++ [bytes])

/-- The bytes a payload stands for, read back from the store. -/
def DataPart.Carries (store : BlobStore) (bytes : Bytes) : DataPart → Prop
  | .data inline => inline = bytes
  | .dataBlobId blobId => store[blobId]? = some bytes

/-- The exceptions the modelled code raises. -/
inductive PyError where
  | invalidError (message : String)
  | assertionError
  | keyError (key : String)
  | runtimeError (message : String)
  | indexError
  | blobDownloadFailed (blobId : String)
  /-- What `serialize_data_format` raises for a value it cannot serialize,
  such as pickle's `TypeError`. -/
  | typeError (message : String)
  deriving DecidableEq, Repr

inductive DataFormat where
  | unspecified
  | pickle
  | asgi
  | generatorDone
  | cbor
  deriving DecidableEq, Repr

/-- The external serializer as the manager uses it: whether a user value is a
Python `list`, and `serialize_data_format`, which raises for a value it cannot
serialize. -/
structure Codec (Value : Type) where
  asList : Value → Option (List Value)
  serializeDataFormat : Value → DataFormat → Except PyError Bytes

section MapM

variable {α β ε : Type} (f : α → Except ε β)

/-- `mapM` in `Except` succeeds exactly with the pointwise results. -/
theorem mapM_except_eq_ok :
    ∀ {xs : List α} {ys : List β}, xs.mapM f = .ok ys ↔ List.Forall₂ (fun x y => f x = .ok y) xs ys
  | [], ys => by
      rw [List.mapM_nil]
      cases ys with
      | nil => exact ⟨fun _ => .nil, fun _ => rfl⟩
      | cons y ys => exact ⟨(fun h => by cases h), (fun h => by cases h)⟩
  | x :: xs, ys => by
      rw [List.mapM_cons, List.forall₂_cons_left_iff]
      cases fx : f x with
      | error e => exact ⟨(fun h => by cases h), (fun ⟨_, _, h, _⟩ => by cases h)⟩
      | ok y =>
          cases rest : xs.mapM f with
          | error e =>
              refine ⟨(fun h => by cases h), fun ⟨_, _, _, all, _⟩ => ?_⟩
              rw [mapM_except_eq_ok.mpr all] at rest
              cases rest
          | ok zs =>
              refine ⟨fun h => ?_, fun ⟨b, rest', h, all, same⟩ => ?_⟩
              · cases h
                exact ⟨y, zs, rfl, mapM_except_eq_ok.mp rest, rfl⟩
              · cases h
                rw [mapM_except_eq_ok.mpr all] at rest
                cases rest
                rw [same]
                rfl

theorem mapM_except_error {xs : List α} {e : ε} (failed : xs.mapM f = .error e) :
    ∃ x ∈ xs, f x = .error e := by
  induction xs with
  | nil => rw [List.mapM_nil] at failed; cases failed
  | cons x xs inductionHypothesis =>
      rw [List.mapM_cons] at failed
      cases fx : f x with
      | error e' =>
          rw [fx] at failed
          cases failed
          exact ⟨x, List.mem_cons_self x xs, fx⟩
      | ok y =>
          rw [fx] at failed
          cases rest : xs.mapM f with
          | error e' =>
              rw [rest] at failed
              cases failed
              obtain ⟨z, member, fz⟩ := inductionHypothesis rest
              exact ⟨z, List.mem_cons_of_mem x member, fz⟩
          | ok zs => rw [rest] at failed; cases failed

theorem mapM_except_of_forall {xs : List α} (succeeds : ∀ x ∈ xs, ∃ y, f x = .ok y) :
    ∃ ys, xs.mapM f = .ok ys := by
  cases result : xs.mapM f with
  | ok ys => exact ⟨ys, rfl⟩
  | error e =>
      obtain ⟨x, member, fx⟩ := mapM_except_error f result
      obtain ⟨y, fy⟩ := succeeds x member
      rw [fx] at fy
      cases fy

end MapM

theorem forall₂_getElem? {α β : Type} {R : α → β → Prop} :
    ∀ {xs : List α} {ys : List β}, List.Forall₂ R xs ys → ∀ {i : Nat} {y : β},
      ys[i]? = some y → ∃ x, xs[i]? = some x ∧ R x y
  | _, _, .nil, _, _, found => by simp at found
  | x :: _, _ :: _, .cons related _, 0, _, found => by
      simp only [List.getElem?_cons_zero, Option.some.injEq] at found
      exact ⟨x, List.getElem?_cons_zero, found ▸ related⟩
  | _ :: _, _ :: _, .cons _ rest, i + 1, _, found => by
      simpa only [List.getElem?_cons_succ] using forall₂_getElem? rest (by simpa using found)

theorem forall₂_getElem?_left {α β : Type} {R : α → β → Prop} {xs : List α} {ys : List β}
    (related : List.Forall₂ R xs ys) {i : Nat} {x : α} (found : xs[i]? = some x) :
    ∃ y, ys[i]? = some y ∧ R x y :=
  forall₂_getElem? (R := flip R) (List.Forall₂.flip (R := flip R) related) found

/-- An entry `lookup` finds under a number is in the list. -/
theorem mem_of_lookup {α : Type} {entries : List (Nat × α)} {key : Nat} {value : α}
    (found : entries.lookup key = some value) : (key, value) ∈ entries := by
  obtain ⟨before, after, rfl, -⟩ := List.lookup_eq_some_iff.mp found
  simp

/-- With distinct keys, `lookup` finds every entry of the list. -/
theorem lookup_of_mem {κ β : Type} [BEq κ] [LawfulBEq κ] :
    ∀ {entries : List (κ × β)}, (entries.map Prod.fst).Nodup →
      ∀ {key : κ} {value : β}, (key, value) ∈ entries → entries.lookup key = some value
  | [], _, _, _, member => by simp at member
  | (k, v) :: rest, distinct, key, value, member => by
      simp only [List.map_cons, List.nodup_cons] at distinct
      rcases List.mem_cons.mp member with same | later
      · simp only [Prod.mk.injEq] at same
        obtain ⟨rfl, rfl⟩ := same
        simp
      · have other : key ≠ k := fun same =>
          distinct.1 (same ▸ List.mem_map_of_mem Prod.fst later)
        have differ : (key == k) = false := by simpa using other
        simp [List.lookup_cons, differ, lookup_of_mem distinct.2 later]

/-- Python's `range(0, stop, step)`. The loop gets `stop` as fuel, which a
positive step never exhausts. -/
def rangeStep (stop step : Nat) : List Nat :=
  go stop 0
where
  go : Nat → Nat → List Nat
    | 0, _ => []
    | fuel + 1, start => if start < stop then start :: go fuel (start + step) else []

theorem rangeStep.go_of_lt {stop step fuel start : Nat} (below : start < stop)
    (enough : stop - start ≤ fuel) :
    rangeStep.go stop step fuel start =
      start :: rangeStep.go stop step (fuel - 1) (start + step) := by
  obtain ⟨fuel, rfl⟩ : ∃ f, fuel = f + 1 := ⟨fuel - 1, by omega⟩
  simp [rangeStep.go, below]

theorem rangeStep.go_of_le {stop step fuel start : Nat} (above : stop ≤ start) :
    rangeStep.go stop step fuel start = [] := by
  cases fuel <;> simp [rangeStep.go, Nat.not_lt.mpr above]

/-- The slices `xs[i : i + size]` for `i` in `range(start, len(xs), size)`. -/
def slices {α : Type} (xs : List α) (size : Nat) (indices : List Nat) : List (List α) :=
  indices.map fun i => (xs.drop i).take size

section Slices

variable {α : Type} (xs : List α) (size : Nat)

/-- The slices taken from `start` on cover the rest of the list in order. -/
theorem flatten_slices_go (positive : 0 < size) :
    ∀ fuel start, xs.length - start ≤ fuel →
      (slices xs size (rangeStep.go xs.length size fuel start)).flatten = xs.drop start := by
  intro fuel
  induction fuel with
  | zero =>
      intro start enough
      simp [rangeStep.go, List.drop_eq_nil_of_le (show xs.length ≤ start by omega), slices]
  | succ fuel inductionHypothesis =>
      intro start enough
      by_cases below : start < xs.length
      · rw [rangeStep.go_of_lt below enough]
        simp only [slices, List.map_cons, List.flatten_cons, Nat.add_sub_cancel]
        rw [← slices, inductionHypothesis _ (by omega), ← List.drop_drop size start xs,
          List.take_append_drop]
      · rw [rangeStep.go_of_le (by omega), List.drop_eq_nil_of_le (by omega)]
        rfl

theorem flatten_slices (positive : 0 < size) :
    (slices xs size (rangeStep xs.length size)).flatten = xs :=
  flatten_slices_go xs size positive _ 0 (by omega)

/-- Each slice holds between one and `size` elements. -/
theorem length_slice_mem (positive : 0 < size) :
    ∀ fuel start, ∀ part ∈ slices xs size (rangeStep.go xs.length size fuel start),
      0 < part.length ∧ part.length ≤ size := by
  intro fuel
  induction fuel with
  | zero => simp [rangeStep.go, slices]
  | succ fuel inductionHypothesis =>
      intro start part member
      by_cases below : start < xs.length
      · simp only [rangeStep.go, below, if_true, slices, List.map_cons, List.mem_cons] at member
        rcases member with rfl | rest
        · simp only [List.length_take, List.length_drop]
          constructor <;> omega
        · exact inductionHypothesis _ part rest
      · simp [rangeStep.go, below, slices] at member

end Slices

/-- Python's `range(0, stop, 20)` has `⌈stop / 20⌉` elements. -/
theorem length_rangeStep_go_twenty (stop : Nat) :
    ∀ fuel start, stop - start ≤ fuel →
      (rangeStep.go stop 20 fuel start).length = (stop - start + 19) / 20 := by
  intro fuel
  induction fuel with
  | zero => intro start enough; simp [rangeStep.go]; omega
  | succ fuel inductionHypothesis =>
      intro start enough
      by_cases below : start < stop
      · rw [rangeStep.go_of_lt below enough, List.length_cons, Nat.add_sub_cancel,
          inductionHypothesis _ (by omega)]
        omega
      · rw [rangeStep.go_of_le (by omega)]
        simp only [List.length_nil]
        omega

theorem length_rangeStep_twenty (stop : Nat) :
    (rangeStep stop 20).length = (stop + 19) / 20 :=
  length_rangeStep_go_twenty stop stop 0 (by omega)

end ContainerIO
