import Mathlib.Data.Int.Log
import Mathlib.Data.Rat.Floor
import Mathlib.Tactic

/-!
# Strings, instants and clock readings

Go strings are byte strings.  Instants are counted in nanoseconds from the
zero `time.Time`, so that the zero value of a deadline is the number zero.
-/

namespace Carrot

/-- A Go string. -/
abbrev Bytes := List UInt8

abbrev Key := Bytes

/-- The value of an `int64` computation. -/
def int64 (value : Int) : Int := (value + 2 ^ 63) % 2 ^ 64 - 2 ^ 63

theorem int64_of_bounds {value : Int} (low : -2 ^ 63 ≤ value) (high : value < 2 ^ 63) :
    int64 value = value := by
  simp only [int64]
  omega

/-! ## Instants

An instant is an `Int`: nanoseconds since January 1 of year 1, UTC. -/

namespace Time

def millisecond : Int := 1000000

def second : Int := 1000000000

/-- January 1, 1970 UTC. -/
def unixEpoch : Int := 62135596800 * second

/-- `time.UnixMilli`. -/
def unixMilli (milliseconds : Int) : Int := unixEpoch + milliseconds * millisecond

/-- The method `Time.UnixMilli`, which rounds down. -/
def toUnixMilli (time : Int) : Int := (time - unixEpoch) / millisecond

@[simp]
theorem toUnixMilli_unixMilli (milliseconds : Int) :
    toUnixMilli (unixMilli milliseconds) = milliseconds := by
  simp [toUnixMilli, unixMilli, millisecond]

end Time

/-- A value returned by `time.Now()`.  The operating system keeps it as a
signed 64-bit number of nanoseconds since the Unix epoch, which is also what
`UnixNano` needs. -/
structure Clock where
  unixNano : Nat
  bounded : unixNano < 2 ^ 63
  deriving DecidableEq

namespace Clock

/-- The instant of a reading. -/
def now (clock : Clock) : Int := Time.unixEpoch + clock.unixNano

instance : LE Clock := ⟨fun first second => first.unixNano ≤ second.unixNano⟩

instance (first second : Clock) : Decidable (first ≤ second) :=
  inferInstanceAs (Decidable (first.unixNano ≤ second.unixNano))

instance : Preorder Clock where
  le_refl clock := Nat.le_refl clock.unixNano
  le_trans _ _ _ first second := Nat.le_trans first second

theorem now_le_now {first second : Clock} (ordered : first ≤ second) :
    first.now ≤ second.now := by
  have bound : first.unixNano ≤ second.unixNano := ordered
  simp only [now]
  omega

/-- Clock readings come after the zero instant. -/
theorem now_pos (clock : Clock) : 0 < clock.now := by
  simp only [now, Time.unixEpoch, Time.second]
  omega

end Clock

/-! ## Durations as floating-point seconds -/

/-- Round to the nearest integer, ties to even. -/
def roundTiesEven (value : ℚ) : Int :=
  let below := ⌊value⌋
  let rest := value - below
  if rest < 1 / 2 then below
  else if 1 / 2 < rest then below + 1
  else if below % 2 = 0 then below
  else below + 1

/-- The `float64` nearest to a non-negative rational of ordinary magnitude. -/
def float64 (value : ℚ) : ℚ :=
  let exponent := Int.log 2 value - 52
  roundTiesEven (value / 2 ^ exponent) * 2 ^ exponent

/-- The largest `time.Duration`, at which `Time.Sub` saturates. -/
def maxDuration : Int := 2 ^ 63 - 1

/-- `int64(deadline.Sub(now).Seconds())` for a deadline after `now`. -/
def remainingSeconds (deadline now : Int) : Int :=
  let duration := min (deadline - now) maxDuration
  let seconds := duration / Time.second
  let fraction := float64 (((duration % Time.second : Int) : ℚ) / 1000000000)
  ⌊float64 ((seconds : ℚ) + fraction)⌋

end Carrot
