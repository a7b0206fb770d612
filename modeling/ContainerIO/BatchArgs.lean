import ContainerIO.IOContext
import Mathlib.Data.List.Nodup
import Mathlib.Data.List.Perm.Subperm

/-!
# Batched arguments

For a batched context, `IOContext._args_and_kwargs` turns the `(args, kwargs)`
of every input into one keyword argument per parameter of the callable, the
list of the values the inputs bind to it. Each input is checked in three steps
(argument count, unknown keyword, keyword repeating a positional argument).
Passing all three is exactly Python's binding rule for parameters that are
positional-or-keyword without defaults, and then no parameter is left unbound.
-/

namespace ContainerIO

/-- A Python `dict` with string keys, in insertion order. -/
structure PyDict (α : Type) where
  entries : List (String × α)
  nodup : (entries.map Prod.fst).Nodup

namespace PyDict

variable {α : Type}

def empty : PyDict α := ⟨[], List.nodup_nil⟩

def keys (d : PyDict α) : List String := d.entries.map Prod.fst

/-- `d[key]`; `none` is a `KeyError`. -/
def get? (d : PyDict α) (key : String) : Option α := d.entries.lookup key

/-- `d[key] = value`: an existing key keeps its place. -/
def set (d : PyDict α) (key : String) (value : α) : PyDict α :=
  if present : key ∈ d.keys then
    ⟨d.entries.map (fun entry => if entry.1 = key then (key, value) else entry), by
      have same : (d.entries.map (fun entry => if entry.1 = key then (key, value) else entry)).map
          Prod.fst = d.keys := by
        simp only [keys, List.map_map]
        congr 1
        funext entry
        by_cases h : entry.1 = key <;> simp [h]
      rw [same]
      exact d.nodup⟩
  else
    ⟨d.entries ++ [(key, value)], by
      rw [List.map_append, List.nodup_append]
      exact ⟨d.nodup, List.nodup_singleton _, by simpa [keys, List.disjoint_singleton] using present⟩⟩

theorem set_of_not_mem {d : PyDict α} {key : String} (fresh : key ∉ d.keys) (value : α) :
    (d.set key value).entries = d.entries ++ [(key, value)] := by
  simp [set, fresh]

/-- `d[key]`, raising `KeyError` for a missing key. -/
def getItem (d : PyDict α) (key : String) : Except PyError α :=
  match d.get? key with
  | some value => .ok value
  | none => .error (.keyError key)

theorem keys_set_of_not_mem {d : PyDict α} {key : String} (fresh : key ∉ d.keys) (value : α) :
    (d.set key value).keys = d.keys ++ [key] := by
  simp [keys, set_of_not_mem fresh]

end PyDict

section Binding

variable {α : Type} (funcName : String) (paramNames : List String)

/-- `for j, arg in enumerate(args): kwargs_by_inputs[i][param_names[j]] = arg`,
with `j` counted from `start`. -/
def bindPositional (d : PyDict α) (start : Nat) : List α → Except PyError (PyDict α)
  | [] => .ok d
  | arg :: rest =>
      match paramNames[start]? with
      | some name => bindPositional (d.set name arg) (start + 1) rest
      | none => .error .indexError

/-- The checks and assignments of `for k, v in kwargs.items()`. -/
def bindKeywords (d : PyDict α) : List (String × α) → Except PyError (PyDict α)
  | [] => .ok d
  | (k, v) :: rest =>
      if k ∉ paramNames then
        .error (.invalidError
          s!"Modal batched function {funcName} got unexpected keyword argument {k} in one invocation in the batch.")
      else if k ∈ d.keys then
        .error (.invalidError
          s!"Modal batched function {funcName} got multiple values for argument {k} in one invocation in the batch.")
      else bindKeywords (d.set k v) rest

/-- One iteration of the loop over `enumerate(deserialized_args)`. -/
def bindInput (args : List α) (kwargs : PyDict α) : Except PyError (PyDict α) :=
  let numParams := args.length + kwargs.entries.length
  let expected := paramNames.length
  if numParams ≠ expected then
    .error (.invalidError
      s!"Modal batched function {funcName} takes {expected} positional arguments, but one invocation in the batch has {numParams}.")
  else do
    let bound ← bindPositional paramNames .empty 0 args
    bindKeywords funcName paramNames bound kwargs.entries

/-- One entry of `formatted_kwargs`: `[kwargs[param_name] for kwargs in kwargs_by_inputs]`. -/
def formatColumn (kwargsByInputs : List (PyDict α)) (paramName : String) :
    Except PyError (String × List α) := do
  let column ← kwargsByInputs.mapM (·.getItem paramName)
  pure (paramName, column)

/-- The batched branch of `_args_and_kwargs`. `kwargs_by_inputs` has one dict
per input id, and a context has one function input per input id, so the loop
fills each of them. -/
def batchedKwargs (deserializedArgs : List (List α × PyDict α)) :
    Except PyError (List (String × List α)) := do
  let kwargsByInputs ← deserializedArgs.mapM fun pair => bindInput funcName paramNames pair.1 pair.2
  paramNames.mapM (formatColumn kwargsByInputs)

/-- Python's rule for binding `f(*args, **kwargs)` to `paramNames`, all
positional-or-keyword without defaults. -/
structure BindsExactly (args : List α) (kwargs : PyDict α) : Prop where
  positional_le : args.length ≤ paramNames.length
  known : ∀ k ∈ kwargs.keys, k ∈ paramNames
  not_positional : ∀ k ∈ kwargs.keys, k ∉ paramNames.take args.length
  complete : ∀ p ∈ paramNames.drop args.length, p ∈ kwargs.keys

/-- The value a parameter receives in such a call: by position when its index
is below the number of positional arguments, by keyword otherwise. -/
def boundValue (args : List α) (kwargs : PyDict α) (paramName : String) : Option α :=
  if paramNames.indexOf paramName < args.length then args[paramNames.indexOf paramName]?
  else kwargs.get? paramName

theorem map_fst_zip_eq_take {β : Type} :
    ∀ (names : List String) (values : List β), (names.zip values).map Prod.fst = names.take values.length
  | [], _ => by simp
  | _ :: _, [] => by simp
  | name :: names, _ :: values => by simp [map_fst_zip_eq_take names values]

theorem getElem_not_mem_take {names : List String} (distinct : names.Nodup) {start : Nat}
    (below : start < names.length) : names[start] ∉ names.take start := by
  have split := List.take_append_drop start names
  rw [List.drop_eq_getElem_cons below] at split
  rw [← split] at distinct
  exact fun member => List.disjoint_of_nodup_append distinct member (List.mem_cons_self _ _)

variable {paramNames}

theorem mem_drop_of_not_mem_take {name : String} {count : Nat} (member : name ∈ paramNames)
    (notTaken : name ∉ paramNames.take count) : name ∈ paramNames.drop count := by
  rw [← List.take_append_drop count paramNames, List.mem_append] at member
  exact member.resolve_left notTaken

/-- The positional loop binds the names from `start` on, one per argument. -/
theorem bindPositional_eq (distinct : paramNames.Nodup) :
    ∀ (args : List α) (d : PyDict α) (start : Nat), d.keys = paramNames.take start →
      start + args.length ≤ paramNames.length →
      ∃ bound, bindPositional paramNames d start args = .ok bound ∧
        bound.entries = d.entries ++ (paramNames.drop start).zip args
  | [], d, _, _, _ => ⟨d, rfl, by simp⟩
  | arg :: rest, d, start, keys, room => by
      have below : start < paramNames.length := by simp at room; omega
      have fresh : paramNames[start] ∉ d.keys := keys ▸ getElem_not_mem_take distinct below
      have keys' : (d.set paramNames[start] arg).keys = paramNames.take (start + 1) := by
        rw [PyDict.keys_set_of_not_mem fresh, keys, List.take_succ,
          List.getElem?_eq_getElem below]
        rfl
      obtain ⟨bound, bound_eq, entries⟩ :=
        bindPositional_eq distinct rest _ (start + 1) keys' (by simp at room; omega)
      refine ⟨bound, by simp [bindPositional, List.getElem?_eq_getElem below, bound_eq], ?_⟩
      rw [entries, PyDict.set_of_not_mem fresh, List.append_assoc]
      conv_rhs => rw [List.drop_eq_getElem_cons below]
      rfl

/-- The keyword loop succeeds, appending every keyword, exactly when each
keyword is a parameter not bound yet; otherwise it raises `InvalidError`. -/
theorem bindKeywords_cases :
    ∀ (keywords : List (String × α)) (d : PyDict α), (keywords.map Prod.fst).Nodup →
      ((∀ k ∈ keywords.map Prod.fst, k ∈ paramNames ∧ k ∉ d.keys) ∧
        ∃ bound, bindKeywords funcName paramNames d keywords = .ok bound ∧
          bound.entries = d.entries ++ keywords) ∨
      ((∃ k ∈ keywords.map Prod.fst, k ∉ paramNames ∨ k ∈ d.keys) ∧
        ∃ message, bindKeywords funcName paramNames d keywords = .error (.invalidError message))
  | [], d, _ => .inl ⟨by simp, d, rfl, by simp⟩
  | (k, v) :: rest, d, distinct => by
      simp only [List.map_cons, List.nodup_cons] at distinct
      by_cases unknown : k ∉ paramNames
      · exact .inr ⟨⟨k, by simp, .inl unknown⟩, _, by unfold bindKeywords; rw [if_pos unknown]⟩
      by_cases repeated : k ∈ d.keys
      · exact .inr ⟨⟨k, by simp, .inr repeated⟩, _, by
          unfold bindKeywords; rw [if_neg unknown, if_pos repeated]⟩
      have step : bindKeywords funcName paramNames d ((k, v) :: rest) =
          bindKeywords funcName paramNames (d.set k v) rest := by
        simp [bindKeywords, unknown, repeated]
      have keys' := PyDict.keys_set_of_not_mem repeated v
      rw [step]
      rcases bindKeywords_cases rest (d.set k v) distinct.2 with
        ⟨fresh, bound, bound_eq, entries⟩ | ⟨⟨k', member, bad⟩, failure⟩
      · refine .inl ⟨?_, bound, bound_eq, by simp [entries, PyDict.set_of_not_mem repeated]⟩
        simp only [List.map_cons, List.mem_cons, forall_eq_or_imp]
        refine ⟨⟨not_not.mp unknown, repeated⟩, fun k' member => ?_⟩
        obtain ⟨known, notBound⟩ := fresh k' member
        exact ⟨known, fun bound => notBound (keys' ▸ List.mem_append_left _ bound)⟩
      · refine .inr ⟨⟨k', List.mem_cons_of_mem _ member, ?_⟩, failure⟩
        rw [keys', List.mem_append, List.mem_singleton] at bad
        rcases bad with bad | bad | rfl
        · exact .inl bad
        · exact .inr bad
        · exact absurd member distinct.1

theorem BindsExactly.count (distinct : paramNames.Nodup) {args : List α} {kwargs : PyDict α}
    (binds : BindsExactly paramNames args kwargs) :
    args.length + kwargs.entries.length = paramNames.length := by
  have perm : kwargs.keys.Perm (paramNames.drop args.length) :=
    (List.perm_ext_iff_of_nodup kwargs.nodup (distinct.sublist (List.drop_sublist _ _))).mpr
      fun k => ⟨fun member => mem_drop_of_not_mem_take (binds.known k member)
        (binds.not_positional k member), binds.complete k⟩
  have lengths := perm.length_eq
  simp only [PyDict.keys, List.length_map, List.length_drop] at lengths
  have := binds.positional_le
  omega

/-- The pigeonhole step: once the count matches, keywords that are parameters
not bound by position cover every remaining parameter. -/
theorem complete_of_checks {args : List α} {kwargs : PyDict α}
    (count : args.length + kwargs.entries.length = paramNames.length)
    (checks : ∀ k ∈ kwargs.keys, k ∈ paramNames ∧ k ∉ paramNames.take args.length) :
    ∀ p ∈ paramNames.drop args.length, p ∈ kwargs.keys := by
  have sub : kwargs.keys.Subperm (paramNames.drop args.length) :=
    kwargs.nodup.subperm fun k member =>
      mem_drop_of_not_mem_take (checks k member).1 (checks k member).2
  have perm := sub.perm_of_length_le (by simp [PyDict.keys]; omega)
  exact fun p member => perm.mem_iff.mpr member

/-- One input passes the three checks exactly when it binds to the parameters,
and then its dict holds the positional bindings followed by the keywords. -/
theorem bindInput_cases (distinct : paramNames.Nodup) (args : List α) (kwargs : PyDict α) :
    (BindsExactly paramNames args kwargs ∧ ∃ bound,
        bindInput funcName paramNames args kwargs = .ok bound ∧
        bound.entries = paramNames.zip args ++ kwargs.entries) ∨
    (¬ BindsExactly paramNames args kwargs ∧
      ∃ message, bindInput funcName paramNames args kwargs = .error (.invalidError message)) := by
  by_cases count : args.length + kwargs.entries.length = paramNames.length
  · obtain ⟨positional, positional_eq, entries⟩ :=
      bindPositional_eq distinct args PyDict.empty 0 rfl (by omega)
    have keys : positional.keys = paramNames.take args.length := by
      simp [PyDict.keys, entries, PyDict.empty, map_fst_zip_eq_take]
    have run : bindInput funcName paramNames args kwargs =
        bindKeywords funcName paramNames positional kwargs.entries := by
      simp only [bindInput, ne_eq, count, not_true_eq_false, if_false, positional_eq]
      rfl
    rw [run]
    rcases bindKeywords_cases funcName kwargs.entries positional kwargs.nodup with
      ⟨checks, bound, bound_eq, bound_entries⟩ | ⟨⟨k, member, bad⟩, failure⟩
    · rw [keys] at checks
      exact .inl ⟨⟨by omega, fun k member => (checks k member).1,
        fun k member => (checks k member).2, complete_of_checks count checks⟩,
        bound, bound_eq, by simp [bound_entries, entries, PyDict.empty]⟩
    · refine .inr ⟨fun binds => ?_, failure⟩
      rw [keys] at bad
      rcases bad with bad | bad
      · exact bad (binds.known k member)
      · exact binds.not_positional k member bad
  · exact .inr ⟨fun binds => count (binds.count distinct), _, by
      simp only [bindInput]; rw [if_pos count]⟩

/-- In the dict of an input that binds exactly, each parameter maps to the
value Python's call binding gives it. -/
theorem lookup_bound (distinct : paramNames.Nodup) {args : List α} {kwargs : PyDict α}
    (binds : BindsExactly paramNames args kwargs) {paramName : String}
    (member : paramName ∈ paramNames) :
    (paramNames.zip args ++ kwargs.entries).lookup paramName =
      boundValue paramNames args kwargs paramName ∧
    (boundValue paramNames args kwargs paramName).isSome := by
  have zipKeys : ((paramNames.zip args).map Prod.fst).Nodup := by
    rw [map_fst_zip_eq_take]
    exact distinct.sublist (List.take_sublist _ _)
  by_cases byPosition : paramNames.indexOf paramName < args.length
  · have found : paramNames.indexOf paramName < paramNames.length :=
      List.indexOf_lt_length.mpr member
    have entry : (paramName, args[paramNames.indexOf paramName]) ∈ paramNames.zip args := by
      have := List.getElem_mem (l := paramNames.zip args) (n := paramNames.indexOf paramName)
        (by simp; omega)
      simpa [List.getElem_zip, List.getElem_indexOf found] using this
    simp [boundValue, byPosition, List.lookup_append, lookup_of_mem zipKeys entry]
  · have notTaken : paramName ∉ paramNames.take args.length := by
      intro taken
      obtain ⟨i, below, same⟩ := List.getElem_of_mem taken
      rw [List.getElem_take] at same
      have index := List.indexOf_getElem distinct i (by simp at below; omega)
      rw [same] at index
      simp at below
      omega
    have none : (paramNames.zip args).lookup paramName = none := by
      rw [List.lookup_eq_none_iff]
      intro entry inZip
      have key := List.mem_map_of_mem Prod.fst inZip
      rw [map_fst_zip_eq_take] at key
      simp only [bne_iff_ne, ne_eq]
      exact fun same => notTaken (same ▸ key)
    have keyword := binds.complete paramName (mem_drop_of_not_mem_take member notTaken)
    simp only [boundValue, byPosition, if_false, List.lookup_append, none, Option.none_or,
      PyDict.get?, true_and]
    simpa [PyDict.keys] using keyword

/-- The column of one parameter over inputs that all bind exactly: every
`kwargs[param_name]` finds the value the input binds. -/
theorem column_of_binds (distinct : paramNames.Nodup) {paramName : String}
    (member : paramName ∈ paramNames) :
    ∀ {pairs : List (List α × PyDict α)} {dicts : List (PyDict α)},
      (∀ pair ∈ pairs, BindsExactly paramNames pair.1 pair.2) →
      List.Forall₂ (fun pair d => bindInput funcName paramNames pair.1 pair.2 = .ok d) pairs dicts →
      ∃ column, dicts.mapM (·.getItem paramName) = .ok column ∧
        List.Forall₂ (fun pair value => boundValue paramNames pair.1 pair.2 paramName = some value)
          pairs column
  | _, _, _, .nil => ⟨[], rfl, .nil⟩
  | pair :: _, d :: _, binds, .cons bound rest => by
      obtain ⟨column, column_eq, related⟩ :=
        column_of_binds distinct member (fun p m => binds p (List.mem_cons_of_mem _ m)) rest
      have exact := binds pair (List.mem_cons_self _ _)
      have entries : d.entries = paramNames.zip pair.1 ++ pair.2.entries := by
        rcases bindInput_cases funcName distinct pair.1 pair.2 with
          ⟨-, d', bound', entries⟩ | ⟨wrong, -⟩
        · rw [bound] at bound'
          cases bound'
          exact entries
        · exact absurd exact wrong
      obtain ⟨lookup, isBound⟩ := lookup_bound distinct exact member
      obtain ⟨value, value_eq⟩ := Option.isSome_iff_exists.mp isBound
      refine ⟨value :: column, ?_, .cons value_eq related⟩
      rw [List.mapM_cons, column_eq]
      simp only [PyDict.getItem, PyDict.get?, entries, lookup, value_eq]
      rfl

theorem map_fst_of_forall₂ {β : Type} :
    ∀ {names : List String} {entries : List (String × β)},
      List.Forall₂ (fun name entry => entry.1 = name) names entries → entries.map Prod.fst = names
  | _, _, .nil => rfl
  | _, _, .cons same rest => by simp [same, map_fst_of_forall₂ rest]

/-- When every input binds exactly, the batched call receives one list per
parameter, in parameter order, whose `i`-th element is what input `i` binds. -/
theorem batchedKwargs_of_binds (distinct : paramNames.Nodup) {pairs : List (List α × PyDict α)}
    (binds : ∀ pair ∈ pairs, BindsExactly paramNames pair.1 pair.2) :
    ∃ formatted, batchedKwargs funcName paramNames pairs = .ok formatted ∧
      formatted.map Prod.fst = paramNames ∧
      ∀ paramName column, (paramName, column) ∈ formatted →
        List.Forall₂ (fun pair value => boundValue paramNames pair.1 pair.2 paramName = some value)
          pairs column := by
  obtain ⟨dicts, dicts_eq⟩ := mapM_except_of_forall
    (fun pair => bindInput funcName paramNames pair.1 pair.2) fun pair (member : pair ∈ pairs) => by
      rcases bindInput_cases funcName distinct pair.1 pair.2 with ⟨-, d, bound, -⟩ | ⟨wrong, -⟩
      · exact ⟨d, bound⟩
      · exact absurd (binds pair member) wrong
  have dictsRelated := (mapM_except_eq_ok _).mp dicts_eq
  obtain ⟨formatted, formatted_eq⟩ := mapM_except_of_forall (formatColumn dicts)
    fun paramName (member : paramName ∈ paramNames) => by
      obtain ⟨column, column_eq, -⟩ := column_of_binds funcName distinct member binds dictsRelated
      exact ⟨(paramName, column), by simp only [formatColumn, column_eq]; rfl⟩
  have formattedRelated := (mapM_except_eq_ok _).mp formatted_eq
  refine ⟨formatted, by simp only [batchedKwargs, dicts_eq]; exact formatted_eq, ?_, ?_⟩
  · refine map_fst_of_forall₂ (formattedRelated.imp fun paramName entry formatted => ?_)
    cases column : dicts.mapM (·.getItem paramName) with
    | error e => simp only [formatColumn, column] at formatted; cases formatted
    | ok values => simp only [formatColumn, column] at formatted; cases formatted; rfl
  · intro paramName column member
    obtain ⟨i, found⟩ := List.mem_iff_getElem?.mp member
    obtain ⟨name, nameFound, formattedName⟩ := forall₂_getElem? formattedRelated found
    have nameMember := List.getElem?_mem nameFound
    obtain ⟨column', column_eq, related⟩ :=
      column_of_binds funcName distinct nameMember binds dictsRelated
    simp only [formatColumn, column_eq] at formattedName
    cases formattedName
    exact related

variable (paramNames) in
/-- The batched branch on `pairs`: `InvalidError` exactly when an input does
not bind to the parameters, and otherwise one list per parameter, in
parameter order, whose `i`-th element is what input `i` binds. -/
structure BatchSpec (pairs : List (List α × PyDict α)) : Prop where
  invalid_iff : (∃ message, batchedKwargs funcName paramNames pairs = .error (.invalidError message)) ↔
    ∃ pair ∈ pairs, ¬ BindsExactly paramNames pair.1 pair.2
  formatted : (∀ pair ∈ pairs, BindsExactly paramNames pair.1 pair.2) →
    ∃ formatted, batchedKwargs funcName paramNames pairs = .ok formatted ∧
      formatted.map Prod.fst = paramNames ∧
      ∀ paramName column, (paramName, column) ∈ formatted →
        column.length = pairs.length ∧
        ∀ (i : Nat) (pair : List α × PyDict α), pairs[i]? = some pair →
          column[i]? = boundValue paramNames pair.1 pair.2 paramName

theorem batchedKwargs_spec (distinct : paramNames.Nodup) (pairs : List (List α × PyDict α)) :
    BatchSpec funcName paramNames pairs := by
  refine ⟨⟨fun ⟨message, failed⟩ => ?_, fun ⟨pair, member, wrong⟩ => ?_⟩, fun binds => ?_⟩
  · by_contra allBind
    push_neg at allBind
    obtain ⟨formatted, ok, -⟩ := batchedKwargs_of_binds funcName distinct allBind
    rw [ok] at failed
    cases failed
  · cases dicts : pairs.mapM (fun pair => bindInput funcName paramNames pair.1 pair.2) with
    | ok dicts' =>
        obtain ⟨i, found⟩ := List.mem_iff_getElem?.mp member
        obtain ⟨d, -, bound⟩ := forall₂_getElem?_left ((mapM_except_eq_ok _).mp dicts) found
        rcases bindInput_cases funcName distinct pair.1 pair.2 with
          ⟨binds, _⟩ | ⟨_, message, failed⟩
        · exact absurd binds wrong
        · rw [bound] at failed
          cases failed
    | error e =>
        obtain ⟨pair', -, failed⟩ := mapM_except_error _ dicts
        rcases bindInput_cases funcName distinct pair'.1 pair'.2 with
          ⟨_, d, bound, _⟩ | ⟨_, message, failed'⟩
        · rw [bound] at failed
          cases failed
        · rw [failed'] at failed
          cases failed
          exact ⟨message, by simp only [batchedKwargs, dicts]; rfl⟩
  · obtain ⟨formatted, ok, keys, columns⟩ := batchedKwargs_of_binds funcName distinct binds
    refine ⟨formatted, ok, keys, fun paramName column member => ?_⟩
    have related := columns paramName column member
    refine ⟨related.length_eq.symm, fun i pair found => ?_⟩
    obtain ⟨value, valueFound, bound⟩ := forall₂_getElem?_left related found
    rw [valueFound, bound]

/-- Two inputs of a two-parameter function, one all positional and one with a
keyword. -/
theorem two_inputs_batchSpec :
    (["x", "y"] : List String).Nodup ∧
    BatchSpec "f" ["x", "y"] [([10, 5], PyDict.empty), ([10], ⟨[("y", (5 : Nat))], by decide⟩)] :=
  ⟨by decide, batchedKwargs_spec "f" (by decide) _⟩

end Binding

/-- What `_args_and_kwargs` returns: the call arguments of the single input,
or one keyword argument per parameter for a batched context. -/
inductive CallArguments (α : Type) where
  | single (args : List α) (kwargs : PyDict α)
  | batched (kwargs : List (String × List α))

/-- `IOContext._args_and_kwargs`. An input whose `args` is empty, or was a blob
id, deserializes to `((), {})`. -/
def IOContext.argsAndKwargs {α : Type} (deserialize : Bytes → Except PyError (List α × PyDict α))
    (c : IOContext) : Except PyError (CallArguments α) := do
  let deserializedArgs ← c.functionInputs.mapM fun input =>
    match input.args with
    | .args bytes => if bytes.isEmpty then pure ([], .empty) else deserialize bytes
    | .argsBlobId _ => pure ([], .empty)
  if c.isBatched = false then
    match deserializedArgs with
    | (args, kwargs) :: _ => pure (.single args kwargs)
    | [] => throw .indexError
  else
    let formatted ← batchedKwargs c.finalizedFunction.name c.finalizedFunction.paramNames
      deserializedArgs
    pure (.batched formatted)

end ContainerIO
