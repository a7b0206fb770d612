import ContainerIO.Basic
import ContainerIO.VolumeCli
import Mathlib.Tactic.Ring

/-!
# The listing of `modal volume ls`

`ls` prints the paths `vol.listdir(path)` returns one per line when stdout is
not a terminal and `--json` is off, and otherwise a table with one row per
entry: the path through `encode("unicode_escape").decode("utf-8")`, the file
type, the localized modification time and `humanize_filesize(entry.size)`.

The codec is CPython's `unicode_escape`: printable ASCII as it is with the
backslash doubled, tab, newline and carriage return as `\t`, `\n` and `\r`,
any other character below 256 as `\xhh`, one below 65536 as `\uhhhh` and the
rest as `\U00hhhhhh`, in lowercase hex. Its output is ASCII, which UTF-8
decodes character for character.
-/

namespace ContainerIO

inductive FileType where
  | unspecified
  | file
  | directory
  | symlink
  | fifo
  | socket
  deriving DecidableEq, Repr

/-- The fields of `api_pb2.FileEntry` that `ls` reads; `size` is a `uint64`. -/
structure FileEntry where
  path : String
  type : FileType
  mtime : Nat
  size : Nat
  size_lt : size < 2 ^ 64

inductive GrpcStatus where
  | invalidArgument
  | notFound
  | other (code : Nat)
  deriving DecidableEq, Repr

structure GrpcError where
  status : GrpcStatus
  message : String
  deriving DecidableEq, Repr

inductive LsError where
  /-- `click.UsageError(exc.message)`. -/
  | usageError (message : String)
  /-- The `GRPCError` of `listdir`, re-raised. -/
  | grpcError (error : GrpcError)
  | humanize (error : HumanizeError)
  deriving DecidableEq, Repr

inductive LsOutput where
  /-- `print(entry.path)` for each entry. -/
  | paths (paths : List String)
  /-- `display_table(columns, rows, json, title)`. -/
  | table (columns : List String) (rows : List (String × String × String × String)) (json : Bool)
      (title : String)
  deriving DecidableEq, Repr

def filetype : FileType → String
  | .directory => "dir"
  | .symlink => "link"
  | .fifo => "fifo"
  | .socket => "socket"
  | .unspecified | .file => "file"

/-- The low `width` hex digits of `n`, most significant first, as
`Py_hexdigits` spells them. -/
def hexDigits (n : Nat) : Nat → List Char
  | 0 => []
  | width + 1 => Nat.digitChar (n / 16 ^ width % 16) :: hexDigits n width

def escapeChar (ch : Char) : List Char :=
  if ch.toNat < 0x100 then
    if 0x20 ≤ ch.toNat ∧ ch.toNat < 0x7f then
      if ch = '\\' then ['\\', '\\'] else [ch]
    else if ch = '\t' then ['\\', 't']
    else if ch = '\n' then ['\\', 'n']
    else if ch = '\r' then ['\\', 'r']
    else '\\' :: 'x' :: hexDigits ch.toNat 2
  else if ch.toNat < 0x10000 then '\\' :: 'u' :: hexDigits ch.toNat 4
  else '\\' :: 'U' :: '0' :: '0' :: hexDigits ch.toNat 6

/-- `text.encode("unicode_escape").decode("utf-8")`. -/
def unicodeEscape (text : String) : String :=
  ⟨text.data.flatMap escapeChar⟩

section Escape

def hexValue (c : Char) : Option Nat :=
  (List.range 16).find? fun d => Nat.digitChar d = c

def readHex : Nat → Nat → List Char → Option (Nat × List Char)
  | 0, acc, rest => some (acc, rest)
  | _ + 1, _, [] => none
  | width + 1, acc, c :: rest => (hexValue c).bind fun d => readHex width (16 * acc + d) rest

def unescapeAfterBackslash : List Char → Option (Char × List Char)
  | 'U' :: rest => (readHex 8 0 rest).map fun read => (Char.ofNat read.1, read.2)
  | 'u' :: rest => (readHex 4 0 rest).map fun read => (Char.ofNat read.1, read.2)
  | 'x' :: rest => (readHex 2 0 rest).map fun read => (Char.ofNat read.1, read.2)
  | 't' :: rest => some ('\t', rest)
  | 'n' :: rest => some ('\n', rest)
  | 'r' :: rest => some ('\r', rest)
  | '\\' :: rest => some ('\\', rest)
  | _ => none

def unescapeOne : List Char → Option (Char × List Char)
  | [] => none
  | c :: rest => if c = '\\' then unescapeAfterBackslash rest else some (c, rest)

theorem hexValue_digitChar : ∀ d < 16, hexValue (Nat.digitChar d) = some d := by
  decide

theorem digitChar_printable : ∀ d < 16, 0x20 ≤ (Nat.digitChar d).toNat ∧ (Nat.digitChar d).toNat < 0x7f := by
  decide

theorem readHex_hexDigits (n : Nat) (rest : List Char) :
    ∀ width acc, readHex width acc (hexDigits n width ++ rest) = some (acc * 16 ^ width + n % 16 ^ width, rest)
  | 0, acc => by simp [readHex, hexDigits, Nat.mod_one]
  | width + 1, acc => by
      rw [hexDigits, List.cons_append, readHex.eq_3, hexValue_digitChar _ (Nat.mod_lt _ (by decide)),
        Option.some_bind, readHex_hexDigits n rest width, Nat.mod_pow_succ, Nat.pow_succ]
      congr 2
      ring

theorem hexDigits_printable (n : Nat) :
    ∀ width, ∀ c ∈ hexDigits n width, 0x20 ≤ c.toNat ∧ c.toNat < 0x7f
  | 0 => by simp [hexDigits]
  | width + 1 => by
      simp only [hexDigits, List.mem_cons, forall_eq_or_imp]
      exact ⟨digitChar_printable _ (Nat.mod_lt _ (by decide)), hexDigits_printable n width⟩

theorem toNat_lt (ch : Char) : ch.toNat < 0x110000 := by
  have valid := ch.valid
  unfold UInt32.isValidChar Nat.isValidChar at valid
  simp only [Char.toNat]
  omega

theorem unescapeOne_hex {ch : Char} {width : Nat} (fits : ch.toNat < 16 ^ width) (rest : List Char) :
    (readHex width 0 (hexDigits ch.toNat width ++ rest)).map (fun read => (Char.ofNat read.1, read.2)) =
      some (ch, rest) := by
  rw [readHex_hexDigits, Nat.zero_mul, Nat.zero_add, Nat.mod_eq_of_lt fits]
  simp [Char.ofNat_toNat]

theorem unescapeOne_of_ne {ch : Char} (plain : ch ≠ '\\') (rest : List Char) :
    unescapeOne (ch :: rest) = some (ch, rest) := by
  rw [unescapeOne, if_neg plain]

theorem unescapeOne_escapeChar (ch : Char) (rest : List Char) :
    unescapeOne (escapeChar ch ++ rest) = some (ch, rest) := by
  have bound := toNat_lt ch
  unfold escapeChar
  split_ifs with small printable backslash tab newline carriage wide
  · subst backslash
    rfl
  · exact unescapeOne_of_ne backslash rest
  · subst tab
    rfl
  · subst newline
    rfl
  · subst carriage
    rfl
  · exact unescapeOne_hex (by norm_num; omega) rest
  · exact unescapeOne_hex (by norm_num; omega) rest
  · show (readHex 8 0 ('0' :: '0' :: hexDigits ch.toNat 6 ++ rest)).map _ = _
    simp only [readHex, List.cons_append, show hexValue '0' = some 0 from rfl, Option.some_bind]
    exact @unescapeOne_hex ch 6 (by norm_num; omega) rest

theorem escapeChar_printable (ch : Char) : ∀ c ∈ escapeChar ch, 0x20 ≤ c.toNat ∧ c.toNat < 0x7f := by
  unfold escapeChar
  split_ifs with small printable
  all_goals simp only [List.mem_cons, List.mem_singleton, List.not_mem_nil, or_false, forall_eq_or_imp,
    forall_eq]
  all_goals first
    | exact fun c member => hexDigits_printable _ _ c member
    | exact ⟨by decide, by decide, fun c member => hexDigits_printable _ _ c member⟩
    | exact ⟨by decide, by decide, by decide, by decide, fun c member => hexDigits_printable _ _ c member⟩
    | exact printable
    | decide

theorem flatMap_escapeChar_injective :
    ∀ {xs ys : List Char}, xs.flatMap escapeChar = ys.flatMap escapeChar → xs = ys
  | [], [], _ => rfl
  | [], _ :: _, same | _ :: _, [], same => by
      have read := congrArg unescapeOne same
      rw [List.flatMap_cons, unescapeOne_escapeChar] at read
      cases read
  | x :: xs, y :: ys, same => by
      have read := congrArg unescapeOne same
      rw [List.flatMap_cons, List.flatMap_cons, unescapeOne_escapeChar, unescapeOne_escapeChar] at read
      simp only [Option.some.injEq, Prod.mk.injEq] at read
      rw [read.1, flatMap_escapeChar_injective read.2]

/-- The `Filename` column is printable ASCII, and tells any two paths apart. -/
theorem names_printable_and_distinct :
    (∀ text, ∀ c ∈ (unicodeEscape text).data, 0x20 ≤ c.toNat ∧ c.toNat < 0x7f) ∧
      Function.Injective unicodeEscape := by
  refine ⟨fun text c member => ?_, fun text text' same => ?_⟩
  · obtain ⟨ch, -, escaped⟩ := List.mem_flatMap.mp member
    exact escapeChar_printable ch c escaped
  · obtain ⟨data⟩ := text
    obtain ⟨data'⟩ := text'
    exact congrArg String.mk (flatMap_escapeChar_injective (congrArg String.data same))

end Escape

section Listing

variable (localize : Nat → String)

/-- One row of the table; `localize` is `timestamp_to_localized_str(_, False)`. -/
def lsRow (entry : FileEntry) : Except HumanizeError (String × String × String × String) := do
  let size ← humanizeFilesize entry.size
  pure (unicodeEscape entry.path, filetype entry.type, localize entry.mtime, size)

def lsColumns : List String := ["Filename", "Type", "Created/Modified", "Size"]

/-- `ls` once `vol.listdir(path)` has answered `listed`. -/
def ls (volumeName path : String) (json isatty : Bool) (listed : Except GrpcError (List FileEntry)) :
    Except LsError LsOutput :=
  match listed with
  | .error exc =>
      match exc.status with
      | .invalidArgument | .notFound => .error (.usageError exc.message)
      | .other _ => .error (.grpcError exc)
  | .ok entries =>
      if !json && !isatty then .ok (.paths (entries.map (·.path)))
      else
        match entries.mapM (lsRow localize) with
        | .error e => .error (.humanize e)
        | .ok rows =>
            .ok (.table lsColumns rows json
              s!"Directory listing of \x27{path}\x27 in \x27{volumeName}\x27")

set_option exponentiation.threshold 1024 in
/-- `humanize_filesize` prints every `uint64` size: it is far below where
`float` overflows. -/
theorem humanizeFilesize_uint64 {size : Nat} (small : size < 2 ^ 64) :
    ∃ text, humanizeFilesize size = .ok text := by
  have rounded := nearestDouble_le (m := 11) small
  unfold humanizeFilesize
  rw [if_neg (by omega), Int.toNat_ofNat, pyFloat_eq, if_pos (by rw [doubleLimit]; omega)]
  dsimp only
  split_ifs <;> exact ⟨_, rfl⟩

/-- `modal volume ls` on any listing: its rows, one per entry and in order, are
the path through `unicode_escape`, the file type, the localized time and
`humanize_filesize(entry.size)`, which never raises for a `uint64` size; `ls`
prints them as a table in a terminal or with `--json`, and the raw paths
otherwise. -/
theorem ls_lists_every_entry (volumeName path : String) (json isatty : Bool) (entries : List FileEntry) :
    ∃ rows, List.Forall₂ (fun entry row => ∃ size, humanizeFilesize entry.size = .ok size ∧
        row = (unicodeEscape entry.path, filetype entry.type, localize entry.mtime, size)) entries rows ∧
      ls localize volumeName path json isatty (.ok entries) =
        .ok (if !json && !isatty then .paths (entries.map (·.path))
          else .table lsColumns rows json s!"Directory listing of \x27{path}\x27 in \x27{volumeName}\x27") := by
  obtain ⟨rows, listed⟩ := mapM_except_of_forall (lsRow localize) fun entry _ => by
    obtain ⟨text, printed⟩ := humanizeFilesize_uint64 entry.size_lt
    exact ⟨_, by simp only [lsRow, printed]; rfl⟩
  refine ⟨rows, ((mapM_except_eq_ok _).mp listed).imp fun entry row built => ?_, ?_⟩
  · obtain ⟨text, printed⟩ := humanizeFilesize_uint64 entry.size_lt
    simp only [lsRow, printed] at built
    cases built
    exact ⟨text, printed, rfl⟩
  · unfold ls
    dsimp only
    split_ifs
    · rfl
    · rw [listed]

end Listing

end ContainerIO
