import Mathlib.Algebra.Order.Ring.Int
import Mathlib.Data.Nat.Dist

/-!
# File sizes in `modal volume ls`

`humanize_filesize` prints a size below 1 KiB in bytes, and otherwise in the
unit `base ** (i + 1)` where its loop over the suffixes breaks, with one
decimal. The size goes through `float(value)`, so it is rounded to a double
first; scaling a double by powers of two is exact, and `"%.1f"` prints the
exact value of the double rounded to tenths, ties to even. Past the doubles,
`float(value)` raises `OverflowError`, and below that `base * bytes_` can be
`inf`.
-/

namespace ContainerIO

/-- The exceptions `humanize_filesize` raises. -/
inductive HumanizeError where
  | valueError (message : String)
  /-- `float(value)` past the largest double. -/
  | overflowError (message : String)
  deriving DecidableEq, Repr

/-- The quotient `n / d` rounded to an integer: up when twice the remainder
exceeds the divisor, or equals it and the quotient is odd. -/
def roundHalfEven (n d : Nat) : Nat :=
  if 2 * (n % d) > d ∨ (2 * (n % d) = d ∧ n / d % 2 = 1) then n / d + 1 else n / d

/-- `2 ^ 1024`: every finite double is below it. -/
def doubleLimit : Nat := 2 ^ 1024

/-- `float(n)` for `n ≥ 0`: the double nearest `n`, ties to the even
significand, as the integer it is; `none` where it passes the largest double
and CPython raises `OverflowError`. -/
def pyFloat (n : Nat) : Option Nat :=
  let shift := n.log2 + 1 - 53
  let rounded := roundHalfEven n (2 ^ shift) * 2 ^ shift
  if rounded < doubleLimit then some rounded else none

/-- `"%.1f" % x` for `x = numerator / denominator`. -/
def formatTenths (numerator denominator : Nat) : String :=
  let tenths := roundHalfEven (10 * numerator) denominator
  s!"{tenths / 10}.{tenths % 10}"

def suffix : List String := [" KiB", " MiB", " GiB", " TiB", " PiB", " EiB", " ZiB"]

/-- `for i, s in enumerate(suffix)`: the index where `bytes_ < base ** (i + 2)`
breaks the loop, or the last index when it runs out. -/
def suffixIndex (bytes : Nat) : Nat :=
  ((List.range suffix.length).find? fun i => bytes < 1024 ^ (i + 2)).getD (suffix.length - 1)

def humanizeFilesize (value : Int) : Except HumanizeError String :=
  if value < 0 then .error (.valueError "value should be >= 0")
  else
    match pyFloat value.toNat with
    | none => .error (.overflowError "int too large to convert to float")
    | some bytes =>
        if bytes < 1024 then .ok s!"{bytes} B"
        else
          let i := suffixIndex bytes
          -- `base * bytes_` is `inf` past the largest double, and `"%.1f"` prints it as `inf`
          let mantissa :=
            if 1024 * bytes < doubleLimit then formatTenths (1024 * bytes) (1024 ^ (i + 2)) else "inf"
          .ok (mantissa ++ suffix.getD i "")

section Rounding

variable (n d : Nat)

theorem roundHalfEven_one : roundHalfEven n 1 = n := by
  simp [roundHalfEven, Nat.mod_one]

theorem roundHalfEven_mul_left {k : Nat} (positive : 0 < k) :
    roundHalfEven (k * n) (k * d) = roundHalfEven n d := by
  have larger : 2 * (k * (n % d)) > k * d ↔ 2 * (n % d) > d := by
    rw [Nat.mul_left_comm]
    exact Nat.mul_lt_mul_left positive
  have equal : 2 * (k * (n % d)) = k * d ↔ 2 * (n % d) = d := by
    rw [Nat.mul_left_comm]
    exact Nat.mul_right_inj positive.ne'
  simp only [roundHalfEven, Nat.mul_div_mul_left _ _ positive, Nat.mul_mod_mul_left, larger, equal]

theorem roundHalfEven_bounds : n / d ≤ roundHalfEven n d ∧ roundHalfEven n d ≤ n / d + 1 := by
  unfold roundHalfEven
  split_ifs <;> omega

/-- `roundHalfEven n d` is an integer nearest `n / d`. -/
theorem roundHalfEven_nearest (positive : 0 < d) (k : Nat) :
    Nat.dist (roundHalfEven n d * d) n ≤ Nat.dist (k * d) n := by
  have split := Nat.div_add_mod n d
  have remainder := Nat.mod_lt n positive
  have near : k * d ≤ n / d * d ∨ (n / d + 1) * d ≤ k * d := by
    rcases Nat.lt_or_ge (n / d) k with above | below
    · exact .inr (Nat.mul_le_mul_right d above)
    · exact .inl (Nat.mul_le_mul_right d below)
  have up : (n / d + 1) * d = n / d * d + d := Nat.succ_mul _ _
  rw [Nat.mul_comm d] at split
  unfold roundHalfEven Nat.dist
  split_ifs <;> omega

end Rounding

theorem formatTenths_mul_left (numerator denominator : Nat) {k : Nat} (positive : 0 < k) :
    formatTenths (k * numerator) (k * denominator) = formatTenths numerator denominator := by
  simp only [formatTenths, Nat.mul_left_comm 10 k, roundHalfEven_mul_left _ _ positive]

set_option exponentiation.threshold 1024 in
theorem doubleLimit_gt : 2 ^ 63 < doubleLimit := by
  unfold doubleLimit
  exact Nat.pow_lt_pow_right Nat.one_lt_two (by decide)

/-- Below `2 ^ 53` a size is a double, unrounded. -/
theorem pyFloat_of_lt {n : Nat} (exact : n < 2 ^ 53) : pyFloat n = some n := by
  have digits : n.log2 + 1 - 53 = 0 := by
    rcases Nat.eq_zero_or_pos n with rfl | positive
    · simp [Nat.log2_zero]
    · have := (Nat.log2_lt positive.ne').mpr exact
      omega
  have finite : n < doubleLimit := by
    have := doubleLimit_gt
    omega
  simp only [pyFloat, digits, Nat.pow_zero, roundHalfEven_one, Nat.mul_one, finite, if_true]

/-- The loop breaks at the unit just above the size. -/
theorem suffixIndex_spec {bytes : Nat} (low : 1024 ≤ bytes) (high : bytes < 1024 ^ 8) :
    suffixIndex bytes < 7 ∧ 1024 ^ (suffixIndex bytes + 1) ≤ bytes ∧
      bytes < 1024 ^ (suffixIndex bytes + 2) := by
  have range : List.range suffix.length = [0, 1, 2, 3, 4, 5, 6] := rfl
  simp only [suffixIndex, range, List.find?_cons, List.find?_nil]
  repeat' split
  all_goals simp only [Option.getD_some, Option.getD_none, decide_eq_true_eq,
    decide_eq_false_iff_not, Nat.not_lt, Nat.reduceAdd] at *
  all_goals omega

/-- Below `2 ^ 53`, where `float(value)` is exact, a size of at least 1 KiB is
printed as `"%.1f"` of itself over the unit below the one where the loop breaks. -/
theorem humanizeFilesize_eq {value : Nat} (low : 1024 ≤ value) (exact : value < 2 ^ 53) :
    humanizeFilesize value = .ok (formatTenths value (1024 ^ (suffixIndex value + 1)) ++
      suffix.getD (suffixIndex value) "") := by
  have scaled : 1024 * value < doubleLimit := by
    have := doubleLimit_gt
    omega
  have unit : 1024 ^ (suffixIndex value + 2) = 1024 * 1024 ^ (suffixIndex value + 1) :=
    Nat.pow_succ'
  unfold humanizeFilesize
  rw [if_neg (Int.not_lt.mpr (Int.natCast_nonneg value)), Int.toNat_ofNat, pyFloat_of_lt exact]
  dsimp only
  rw [if_neg (Nat.not_lt.mpr low), if_pos scaled, unit, formatTenths_mul_left _ _ (by decide)]

/-- The unit `1024 ^ (i + 1)` with the next unit above the size is the one the loop picks. -/
theorem suffixIndex_eq {bytes i : Nat} (index : i < 7) (lower : 1024 ^ (i + 1) ≤ bytes)
    (upper : bytes < 1024 ^ (i + 2)) : suffixIndex bytes = i := by
  have low : 1024 ≤ bytes := le_trans (Nat.le_self_pow (Nat.succ_ne_zero i) 1024) lower
  have high : bytes < 1024 ^ 8 :=
    lt_of_lt_of_le upper (Nat.pow_le_pow_right (by decide) (by omega))
  obtain ⟨-, lower', upper'⟩ := suffixIndex_spec low high
  have grows : ∀ {a b : Nat}, a + 1 ≤ b → 1024 ^ (a + 2) ≤ 1024 ^ (b + 1) :=
    fun le => Nat.pow_le_pow_right (by decide) (by omega)
  rcases Nat.lt_trichotomy (suffixIndex bytes) i with smaller | same | larger
  · exact absurd (lt_of_lt_of_le upper' (le_trans (grows smaller) lower)) (lt_irrefl _)
  · exact same
  · exact absurd (lt_of_lt_of_le upper (le_trans (grows larger) lower')) (lt_irrefl _)

/-- A size from one unit up to the next shows a mantissa from 1.0 to 1024.0. -/
theorem tenths_bounds {value unit : Nat} (lower : unit ≤ value) (upper : value < 1024 * unit) :
    10 ≤ roundHalfEven (10 * value) unit ∧ roundHalfEven (10 * value) unit ≤ 10240 := by
  have positive : 0 < unit := by omega
  have atLeast : 10 ≤ 10 * value / unit := (Nat.le_div_iff_mul_le positive).mpr (by omega)
  have below : 10 * value / unit < 10240 := (Nat.div_lt_iff_lt_mul positive).mpr (by omega)
  have := roundHalfEven_bounds (10 * value) unit
  omega

/-- Within a twentieth of a unit below the next unit the tenths round up to 1024.0. -/
theorem tenths_full_unit {value unit : Nat} (near : 20479 * unit ≤ 20 * value)
    (upper : value < 1024 * unit) : roundHalfEven (10 * value) unit = 10240 := by
  have quotient : 10 * value / unit = 10239 :=
    Nat.div_eq_of_lt_le (by omega) (by omega)
  have remainder := Nat.div_add_mod (10 * value) unit
  rw [quotient] at remainder
  unfold roundHalfEven
  rw [if_pos (by omega), quotient]

/-- Below 2^53, a size of at least 1 KiB is shown in the unit `1024 ^ (i + 1)`
it reaches with the next unit above it, as the mantissa rounded to the nearest
tenth, between 1.0 and 1024.0. -/
theorem humanize_picks_unit (value : Int) (low : 1024 ≤ value) (exact : value < 2 ^ 53) :
    ∃ i < 7, 1024 ^ (i + 1) ≤ value ∧ value < 1024 ^ (i + 2) ∧
      humanizeFilesize value = .ok (formatTenths value.toNat (1024 ^ (i + 1)) ++ suffix.getD i "") ∧
      10 ≤ roundHalfEven (10 * value.toNat) (1024 ^ (i + 1)) ∧
      roundHalfEven (10 * value.toNat) (1024 ^ (i + 1)) ≤ 10240 ∧
      ∀ k, Nat.dist (roundHalfEven (10 * value.toNat) (1024 ^ (i + 1)) * 1024 ^ (i + 1))
          (10 * value.toNat) ≤ Nat.dist (k * 1024 ^ (i + 1)) (10 * value.toNat) := by
  obtain ⟨n, rfl⟩ := Int.eq_ofNat_of_zero_le (le_trans (by decide) low)
  have low' : 1024 ≤ n := by exact_mod_cast low
  have exact' : n < 2 ^ 53 := by exact_mod_cast exact
  have high : n < 1024 ^ 8 := lt_trans exact' (by decide)
  obtain ⟨index, lower, upper⟩ := suffixIndex_spec low' high
  have unit : 1024 ^ (suffixIndex n + 2) = 1024 * 1024 ^ (suffixIndex n + 1) := Nat.pow_succ'
  refine ⟨suffixIndex n, index, by exact_mod_cast lower, by exact_mod_cast upper, ?_, ?_⟩
  · rw [Int.toNat_ofNat]
    exact humanizeFilesize_eq low' exact'
  · rw [Int.toNat_ofNat]
    exact ⟨(tenths_bounds lower (unit ▸ upper)).1, (tenths_bounds lower (unit ▸ upper)).2,
      roundHalfEven_nearest _ _ (Nat.pos_pow_of_pos _ (by decide))⟩

/-- 1536 bytes: one and a half KiB. -/
theorem kibibyte_and_a_half : 1024 ≤ (1536 : Int) ∧ (1536 : Int) < 2 ^ 53 ∧
    ∃ i < 7, 1024 ^ (i + 1) ≤ (1536 : Int) ∧ (1536 : Int) < 1024 ^ (i + 2) ∧
      humanizeFilesize 1536 =
        .ok (formatTenths (1536 : Int).toNat (1024 ^ (i + 1)) ++ suffix.getD i "") ∧
      10 ≤ roundHalfEven (10 * (1536 : Int).toNat) (1024 ^ (i + 1)) ∧
      roundHalfEven (10 * (1536 : Int).toNat) (1024 ^ (i + 1)) ≤ 10240 ∧
      ∀ k, Nat.dist (roundHalfEven (10 * (1536 : Int).toNat) (1024 ^ (i + 1)) * 1024 ^ (i + 1))
          (10 * (1536 : Int).toNat) ≤ Nat.dist (k * 1024 ^ (i + 1)) (10 * (1536 : Int).toNat) :=
  ⟨by decide, by decide, humanize_picks_unit 1536 (by decide) (by decide)⟩

/-- From a twentieth of a unit below the next unit up to it, a size is shown
as 1024.0 of the smaller unit: 1048525 to 1048575 bytes as `1024.0 KiB`, and
likewise below 1 GiB, 1 TiB and 1 PiB. The loop picks the unit before the
mantissa is rounded. -/
theorem humanize_shows_full_unit (i : Nat) (below : i < 4) (value : Int)
    (near : 20479 * 1024 ^ (i + 1) ≤ 20 * value) (upper : value < 1024 ^ (i + 2)) :
    humanizeFilesize value = .ok ("1024.0" ++ suffix.getD i "") := by
  have positive : (0 : Int) ≤ 1024 ^ (i + 1) := by exact_mod_cast Nat.zero_le (1024 ^ (i + 1))
  obtain ⟨n, rfl⟩ := Int.eq_ofNat_of_zero_le (show 0 ≤ value by omega)
  have near' : 20479 * 1024 ^ (i + 1) ≤ 20 * n := by exact_mod_cast near
  have upper' : n < 1024 ^ (i + 2) := by exact_mod_cast upper
  have unit : 1024 ^ (i + 2) = 1024 * 1024 ^ (i + 1) := Nat.pow_succ'
  have large : 1024 ≤ 1024 ^ (i + 1) := Nat.le_self_pow (Nat.succ_ne_zero i) 1024
  have exact : n < 2 ^ 53 := lt_of_lt_of_le upper'
    (le_trans (Nat.pow_le_pow_right (by decide) (show i + 2 ≤ 5 by omega)) (by decide))
  have shown : formatTenths n (1024 ^ (i + 1)) = "1024.0" := by
    simp only [formatTenths, tenths_full_unit near' (unit ▸ upper')]
    rfl
  rw [humanizeFilesize_eq (by omega) exact, suffixIndex_eq (by omega) (by omega) upper', shown]

/-- One byte short of 1 MiB is shown as 1024.0 KiB. -/
theorem one_byte_short_of_mebibyte :
    0 < 4 ∧ 20479 * 1024 ^ (0 + 1) ≤ 20 * (1048575 : Int) ∧ (1048575 : Int) < 1024 ^ (0 + 2) ∧
      humanizeFilesize 1048575 = .ok ("1024.0" ++ suffix.getD 0 "") :=
  ⟨by decide, by decide, by decide,
    humanize_shows_full_unit 0 (by decide) 1048575 (by decide) (by decide)⟩

section LargeSizes

/-- `float(n)` before the overflow test: `n` rounded to 53 significant bits,
ties to the even significand. -/
def nearestDouble (n : Nat) : Nat :=
  roundHalfEven n (2 ^ (n.log2 + 1 - 53)) * 2 ^ (n.log2 + 1 - 53)

theorem pyFloat_eq (n : Nat) :
    pyFloat n = if nearestDouble n < doubleLimit then some (nearestDouble n) else none := rfl

/-- Rounding a number below `2 ^ (m + 53)` moves it by at most `2 ^ m`. -/
theorem nearestDouble_le {m n : Nat} (small : n < 2 ^ (m + 53)) : nearestDouble n ≤ n + 2 ^ m := by
  have shift : 2 ^ (n.log2 + 1 - 53) ≤ 2 ^ m := by
    apply Nat.pow_le_pow_right (by decide)
    rcases Nat.eq_zero_or_pos n with rfl | positive
    · simp
    · have := (Nat.log2_lt positive.ne').mpr small
      omega
  have rounded := (roundHalfEven_bounds n (2 ^ (n.log2 + 1 - 53))).2
  calc nearestDouble n
      ≤ (n / 2 ^ (n.log2 + 1 - 53) + 1) * 2 ^ (n.log2 + 1 - 53) := Nat.mul_le_mul_right _ rounded
    _ = n / 2 ^ (n.log2 + 1 - 53) * 2 ^ (n.log2 + 1 - 53) + 2 ^ (n.log2 + 1 - 53) := Nat.succ_mul _ _
    _ ≤ n + 2 ^ m := Nat.add_le_add (Nat.div_mul_le_self _ _) shift

/-- From `2 ^ (m + 54)` on, rounding keeps a number at least that power. -/
theorem pow_le_nearestDouble {m n : Nat} (huge : 2 ^ (m + 54) ≤ n) : 2 ^ (m + 54) ≤ nearestDouble n := by
  have positive : n ≠ 0 := by have := Nat.one_le_two_pow (n := m + 54); omega
  have log : m + 54 ≤ n.log2 := (Nat.le_log2 positive).mpr huge
  have divides : 2 ^ (n.log2 + 1 - 53) ∣ 2 ^ n.log2 := Nat.pow_dvd_pow 2 (by omega)
  calc 2 ^ (m + 54)
      ≤ 2 ^ n.log2 := Nat.pow_le_pow_right (by decide) log
    _ = 2 ^ n.log2 / 2 ^ (n.log2 + 1 - 53) * 2 ^ (n.log2 + 1 - 53) := (Nat.div_mul_cancel divides).symm
    _ ≤ n / 2 ^ (n.log2 + 1 - 53) * 2 ^ (n.log2 + 1 - 53) :=
        Nat.mul_le_mul_right _ (Nat.div_le_div_right (Nat.log2_self_le positive))
    _ ≤ nearestDouble n := Nat.mul_le_mul_right _ (roundHalfEven_bounds _ _).1

/-- Rounding to 53 bits reaches `2 ^ (m + 54)` exactly from `2 ^ (m + 54) - 2 ^ m`
on: there lies the midpoint between that power and the double below it, whose
significand is odd, so it rounds up. -/
theorem pow_le_nearestDouble_iff (m n : Nat) :
    2 ^ (m + 54) ≤ nearestDouble n ↔ 2 ^ (m + 54) - 2 ^ m ≤ n := by
  have top : 2 ^ (m + 54) = 2 ^ 54 * 2 ^ m := by rw [Nat.pow_add, Nat.mul_comm]
  have half : 2 ^ (m + 53) = 2 ^ 53 * 2 ^ m := by rw [Nat.pow_add, Nat.mul_comm]
  have unit : 0 < 2 ^ m := Nat.pos_pow_of_pos m (by decide)
  rcases Nat.lt_or_ge n (2 ^ (m + 53)) with small | big
  · have := nearestDouble_le small
    omega
  rcases Nat.lt_or_ge n (2 ^ (m + 54)) with binade | huge
  · have log : n.log2 = m + 53 :=
      le_antisymm (by have := (Nat.log2_lt (by omega)).mpr binade; omega) ((Nat.le_log2 (by omega)).mpr big)
    have step : 2 ^ (n.log2 + 1 - 53) = 2 * 2 ^ m := by
      rw [log, show m + 53 + 1 - 53 = m + 1 by omega, Nat.pow_succ, Nat.mul_comm]
    have split := Nat.div_add_mod n (2 * 2 ^ m)
    have remainder := Nat.mod_lt n (show 0 < 2 * 2 ^ m by omega)
    have below : n / (2 * 2 ^ m) < 2 ^ 53 := (Nat.div_lt_iff_lt_mul (by omega)).mpr (by omega)
    have scale : ∀ r, 2 * 2 ^ m * 2 ^ 53 ≤ 2 * 2 ^ m * r ↔ 2 ^ 53 ≤ r :=
      fun r => ⟨fun le => Nat.le_of_mul_le_mul_left le (by omega), Nat.mul_le_mul_left _⟩
    rw [nearestDouble, step, top, Nat.mul_comm (roundHalfEven _ _),
      show 2 ^ 54 * 2 ^ m = 2 * 2 ^ m * 2 ^ 53 by omega, scale]
    unfold roundHalfEven
    rcases Nat.lt_or_ge (n / (2 * 2 ^ m)) (2 ^ 53 - 1) with early | last
    · have : 2 * 2 ^ m * (n / (2 * 2 ^ m)) + 2 * 2 ^ m ≤ 2 * 2 ^ m * (2 ^ 53 - 1) := by
        rw [← Nat.mul_succ]
        exact Nat.mul_le_mul_left _ early
      split_ifs <;> omega
    · have last : n / (2 * 2 ^ m) = 2 ^ 53 - 1 := by omega
      rw [last] at split ⊢
      split_ifs <;> omega
  · have := pow_le_nearestDouble huge
    omega

theorem toString_string (s : String) : toString s = s := rfl

/-- Past `1024 ** 8` the loop over the suffixes runs out and keeps the last, ` ZiB`. -/
theorem suffixIndex_of_le {bytes : Nat} (huge : 1024 ^ 8 ≤ bytes) : suffixIndex bytes = 6 := by
  have range : List.range suffix.length = [0, 1, 2, 3, 4, 5, 6] := rfl
  have length : suffix.length = 7 := rfl
  simp only [suffixIndex, range, List.find?_cons, List.find?_nil]
  repeat' split
  all_goals simp only [Option.getD_some, Option.getD_none, decide_eq_true_eq, Nat.reduceAdd,
    length] at *
  all_goals omega

/-- A size printed in bytes or with one decimal is never `inf ZiB`. -/
theorem finite_text_ne (bytes : Nat) (numerator denominator : Nat) (unit : String) :
    s!"{bytes} B" ≠ "inf ZiB" ∧ formatTenths numerator denominator ++ unit ≠ "inf ZiB" := by
  constructor <;> intro same
  · have := congrArg (fun text : String => text.data.reverse.take 2) same
    simp [toString_string] at this
  · have := congrArg (fun text : String => '.' ∈ text.data) same
    simp [formatTenths, toString_string] at this

set_option exponentiation.threshold 1024 in
/-- On a size, `humanize_filesize` overflows exactly when `float(value)` rounds
to `2 ^ 1024` or more, and prints `inf ZiB` exactly when the double is at least
`2 ^ 1014`, where `base * bytes_` is `inf`. -/
theorem humanizeFilesize_natCast_past (n : Nat) :
    (humanizeFilesize n = .error (.overflowError "int too large to convert to float") ↔
      doubleLimit ≤ nearestDouble n) ∧
    (humanizeFilesize n = .ok "inf ZiB" ↔ 2 ^ 1014 ≤ nearestDouble n ∧ nearestDouble n < doubleLimit) := by
  unfold humanizeFilesize
  rw [if_neg (Int.not_lt.mpr (Int.natCast_nonneg n)), Int.toNat_ofNat, pyFloat_eq]
  by_cases finite : nearestDouble n < doubleLimit
  · rw [if_pos finite]
    dsimp only
    split_ifs with small scaled <;> refine ⟨iff_of_false (by simp) (by omega), ?_⟩
    · exact iff_of_false (fun same => (finite_text_ne _ 0 0 "").1 (Except.ok.inj same)) (by omega)
    · rw [doubleLimit] at scaled
      exact iff_of_false (fun same => (finite_text_ne 0 _ _ _).2 (Except.ok.inj same)) (by omega)
    · rw [doubleLimit] at scaled
      rw [suffixIndex_of_le (by omega)]
      exact iff_of_true rfl ⟨by omega, finite⟩
  · rw [if_neg finite]
    exact ⟨iff_of_true rfl (by omega), iff_of_false (fun same => by cases same) (by omega)⟩

set_option exponentiation.threshold 1024 in
/-- Past the doubles `humanize_filesize` fails: `float(value)` raises
`OverflowError` exactly from `2 ^ 1024 - 2 ^ 970`, whence the value rounds up to
`2 ^ 1024`; and from `2 ^ 1014 - 2 ^ 960` up to there, the double is at least
`2 ^ 1014`, so `base * bytes_` is `inf` and the size is shown as `inf ZiB`. -/
theorem humanize_past_doubles (value : Int) :
    (humanizeFilesize value = .error (.overflowError "int too large to convert to float") ↔
      2 ^ 1024 - 2 ^ 970 ≤ value) ∧
    (humanizeFilesize value = .ok "inf ZiB" ↔ 2 ^ 1014 - 2 ^ 960 ≤ value ∧ value < 2 ^ 1024 - 2 ^ 970) := by
  rcases Int.lt_or_le value 0 with negative | nonneg
  · simp only [humanizeFilesize, if_pos negative, reduceCtorEq, false_iff, Except.error.injEq,
      HumanizeError.overflowError.injEq]
    constructor <;> omega
  · obtain ⟨n, rfl⟩ := Int.eq_ofNat_of_zero_le nonneg
    have overflow := pow_le_nearestDouble_iff 970 n
    have infinite := pow_le_nearestDouble_iff 960 n
    rw [humanizeFilesize_natCast_past n |>.1, humanizeFilesize_natCast_past n |>.2, doubleLimit]
    constructor <;> omega

end LargeSizes

end ContainerIO
