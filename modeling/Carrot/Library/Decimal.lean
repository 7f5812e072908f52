import Mathlib.Data.Nat.Digits.Defs
import Mathlib.Tactic

/-!
# Signed decimal numbers as bytes

Reading and writing integers in base ten.  The reader may be bound to numbers
of a fixed width and has two kinds of failure; it stops at the first digit
that overflows, so an overflow hides any later malformed byte.
-/

namespace Decimal

inductive NumError where
  | invalidSyntax
  | outOfRange
  deriving DecidableEq, Repr

/-- Whether a number is below a power of two; an absent width is no bound. -/
def fits (bits : Option Nat) (number : Nat) : Bool := bits.all fun width => number < 2 ^ width

def digitValue (byte : UInt8) : Option Nat :=
  if 48 ≤ byte.toNat ∧ byte.toNat ≤ 57 then some (byte.toNat - 48) else none

/-- Read the remaining digits of an unsigned number, which has one bit more
than the signed one. -/
def parseDigits (bits : Option Nat) : List UInt8 → Nat → Except NumError Nat
  | [], number => .ok number
  | byte :: rest, number =>
      match digitValue byte with
      | none => .error .invalidSyntax
      | some digit =>
          if fits (bits.map (· + 1)) (number * 10 + digit) then
            parseDigits bits rest (number * 10 + digit)
          else .error .outOfRange

def parseUint (bits : Option Nat) (text : List UInt8) : Except NumError Nat :=
  if text = [] then .error .invalidSyntax else parseDigits bits text 0

/-- Apply a sign; the least number has no opposite. -/
def applySign (bits : Option Nat) (negative : Bool) (magnitude : Nat) : Except NumError Int :=
  if negative then
    if fits bits (magnitude - 1) then .ok (-magnitude) else .error .outOfRange
  else if fits bits magnitude then .ok magnitude
  else .error .outOfRange

/-- Read an optional sign and a number. -/
def parseSigned (bits : Option Nat) : List UInt8 → Except NumError Int
  | [] => .error .invalidSyntax
  | first :: rest =>
      if first = 43 then parseUint bits rest >>= applySign bits false
      else if first = 45 then parseUint bits rest >>= applySign bits true
      else parseUint bits (first :: rest) >>= applySign bits false

/-- Read a signed 64-bit number. -/
def parseInt (text : List UInt8) : Except NumError Int := parseSigned (some 63) text

def digitByte (digit : Nat) : UInt8 := UInt8.ofNat (48 + digit)

def formatNat (number : Nat) : List UInt8 :=
  if number = 0 then [48] else (Nat.digits 10 number).reverse.map digitByte

def formatInt (number : Int) : List UInt8 :=
  if number < 0 then 45 :: formatNat number.natAbs else formatNat number.natAbs

/-! ## Reading back what was written -/

theorem fits_mono {bits : Option Nat} {smaller larger : Nat} (ordered : smaller ≤ larger)
    (bounded : fits bits larger = true) : fits bits smaller = true := by
  cases bits with
  | none => rfl
  | some width =>
      simp only [fits, Option.all_some, decide_eq_true_eq] at bounded ⊢
      omega

theorem fits_succ {bits : Option Nat} {number : Nat} (bounded : fits bits number = true) :
    fits (bits.map (· + 1)) number = true := by
  cases bits with
  | none => rfl
  | some width =>
      simp only [fits, Option.map_some, Option.all_some, decide_eq_true_eq] at bounded ⊢
      rw [pow_succ]
      omega

theorem digitValue_digitByte {digit : Nat} (small : digit < 10) :
    digitValue (digitByte digit) = some digit := by
  have value : (digitByte digit).toNat = 48 + digit := by
    simp only [digitByte, UInt8.toNat_ofNat']
    omega
  simp only [digitValue, value]
  rw [if_pos (by omega)]
  congr 1
  omega

/-- The number with the given digits after a leading part, most significant
digit first. -/
def accumulate (number : Nat) (digits : List Nat) : Nat :=
  digits.foldl (fun value digit => value * 10 + digit) number

theorem le_accumulate (number : Nat) (digits : List Nat) : number ≤ accumulate number digits := by
  induction digits generalizing number with
  | nil => exact Nat.le_refl number
  | cons digit digits inductionHypothesis =>
      have grown : number ≤ number * 10 + digit := by omega
      exact Nat.le_trans grown (inductionHypothesis _)

theorem parseDigits_map {bits : Option Nat} {digits : List Nat}
    (small : ∀ digit ∈ digits, digit < 10) (number : Nat)
    (bounded : fits (bits.map (· + 1)) (accumulate number digits) = true) :
    parseDigits bits (digits.map digitByte) number = .ok (accumulate number digits) := by
  induction digits generalizing number with
  | nil => rfl
  | cons digit digits inductionHypothesis =>
      change fits _ (accumulate (number * 10 + digit) digits) = true at bounded
      have next := fits_mono (le_accumulate (number * 10 + digit) digits) bounded
      simp only [List.map_cons, parseDigits, digitValue_digitByte (small digit List.mem_cons_self),
        if_pos next]
      exact inductionHypothesis
        (fun other membership => small other (List.mem_cons_of_mem _ membership)) _ bounded

theorem accumulate_digits (number : Nat) :
    accumulate 0 (Nat.digits 10 number).reverse = number := by
  rw [accumulate, List.foldl_reverse]
  conv_rhs => rw [← Nat.ofDigits_digits 10 number, Nat.ofDigits_eq_foldr]
  congr 1
  funext digit value
  simp only [Nat.cast_id]
  ring

theorem formatNat_ne_nil (number : Nat) : formatNat number ≠ [] := by
  unfold formatNat
  split
  next => simp
  next positive => simpa [Nat.digits_ne_nil_iff_ne_zero] using positive

/-- A number below a power of ten has at most so many digits. -/
theorem formatNat_length {number digits : Nat} (small : number < 10 ^ digits)
    (positive : 0 < digits) : (formatNat number).length ≤ digits := by
  unfold formatNat
  split
  next => exact positive
  next =>
    rw [List.length_map, List.length_reverse]
    exact (Nat.digits_length_le_iff (by decide) number).mpr small

theorem parseUint_formatNat {bits : Option Nat} {number : Nat}
    (bounded : fits (bits.map (· + 1)) number = true) :
    parseUint bits (formatNat number) = .ok number := by
  rw [parseUint, if_neg (formatNat_ne_nil number)]
  by_cases zero : number = 0
  · subst number
    have read : digitValue 48 = some 0 := by decide
    simp only [formatNat, if_true, parseDigits, read, Nat.zero_mul, Nat.zero_add, bounded]
  · rw [formatNat, if_neg zero, parseDigits_map, accumulate_digits]
    · intro digit membership
      exact Nat.digits_lt_base (by decide) (List.mem_reverse.mp membership)
    · rwa [accumulate_digits]

/-- The bytes of a number are digits. -/
theorem mem_formatNat {number : Nat} {byte : UInt8} (membership : byte ∈ formatNat number) :
    48 ≤ byte.toNat ∧ byte.toNat ≤ 57 := by
  unfold formatNat at membership
  split at membership
  next =>
    rw [List.mem_singleton] at membership
    subst membership
    decide
  next =>
    obtain ⟨digit, inside, rfl⟩ := List.mem_map.mp membership
    have small : digit < 10 := Nat.digits_lt_base (by decide) (List.mem_reverse.mp inside)
    simp only [digitByte, UInt8.toNat_ofNat']
    omega

theorem parseSigned_of_digit {bits : Option Nat} {first : UInt8} {rest : List UInt8}
    (digit : 48 ≤ first.toNat) :
    parseSigned bits (first :: rest) =
      (parseUint bits (first :: rest) >>= applySign bits false) := by
  have notPlus : first ≠ 43 := by
    rintro rfl
    exact absurd digit (by decide)
  have notMinus : first ≠ 45 := by
    rintro rfl
    exact absurd digit (by decide)
  rw [parseSigned, if_neg notPlus, if_neg notMinus]

theorem parseSigned_formatNat {bits : Option Nat} {number : Nat}
    (bounded : fits bits number = true) :
    parseSigned bits (formatNat number) = .ok (number : Int) := by
  have nonempty := formatNat_ne_nil number
  have parsed := parseUint_formatNat (fits_succ bounded)
  have digits : ∀ byte ∈ formatNat number, 48 ≤ byte.toNat :=
    fun byte membership => (mem_formatNat membership).1
  revert nonempty parsed digits
  cases formatNat number with
  | nil => exact fun nonempty => absurd rfl nonempty
  | cons first rest =>
      intro _ parsed digits
      rw [parseSigned_of_digit (digits first List.mem_cons_self), parsed]
      change applySign bits false number = _
      simp [applySign, bounded]

theorem parseInt_formatInt {number : Int} (low : -2 ^ 63 ≤ number) (high : number < 2 ^ 63) :
    parseInt (formatInt number) = .ok number := by
  by_cases negative : number < 0
  · have magnitude : fits ((some 63).map (· + 1)) number.natAbs = true := by
      simp only [fits, Option.map_some, Option.all_some, decide_eq_true_eq]
      omega
    have bounded : fits (some 63) (number.natAbs - 1) = true := by
      simp only [fits, Option.all_some, decide_eq_true_eq]
      omega
    rw [formatInt, if_pos negative, parseInt]
    change (parseUint (some 63) (formatNat number.natAbs) >>= applySign (some 63) true) = _
    rw [parseUint_formatNat magnitude]
    change applySign (some 63) true number.natAbs = _
    rw [applySign, if_pos rfl, if_pos bounded]
    congr 1
    omega
  · have bounded : fits (some 63) number.natAbs = true := by
      simp only [fits, Option.all_some, decide_eq_true_eq]
      omega
    rw [formatInt, if_neg negative, parseInt, parseSigned_formatNat bounded]
    congr 1
    omega

/-- A number that was read is a signed 64-bit number. -/
theorem parseInt_bounds {text : List UInt8} {number : Int} (parsed : parseInt text = .ok number) :
    -2 ^ 63 ≤ number ∧ number < 2 ^ 63 := by
  have signed : ∀ (source : Except NumError Nat) (negative : Bool),
      (source >>= applySign (some 63) negative) = .ok number →
        -2 ^ 63 ≤ number ∧ number < 2 ^ 63 := by
    intro source negative result
    cases source with
    | error _ => cases result
    | ok magnitude =>
        change applySign (some 63) negative magnitude = .ok number at result
        cases negative <;> simp only [applySign, Bool.false_eq_true, if_false, if_true, fits,
          Option.all_some, decide_eq_true_eq] at result
        all_goals
          split at result
          · cases result
            omega
          · cases result
  cases text with
  | nil => cases parsed
  | cons first rest =>
      simp only [parseInt, parseSigned] at parsed
      split_ifs at parsed
      all_goals exact signed _ _ parsed

example : formatInt (-1024) = [45, 49, 48, 50, 52] := by decide

end Decimal
