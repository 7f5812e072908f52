import Mathlib.Tactic

/-!
# UTF-8 text as bytes

Code points and their encoding.  Decoding is total: a byte that does not start
a well-formed sequence stands for the replacement character.
-/

namespace Utf8

/-- The replacement character. -/
def runeError : Nat := 0xFFFD

/-- A continuation byte. -/
def isTail (byte : UInt8) : Bool := 0x80 ≤ byte.toNat && byte.toNat ≤ 0xBF

/-- The second bytes allowed after a leading byte. -/
def acceptsSecond (lead second : UInt8) : Bool :=
  if lead.toNat = 0xE0 then 0xA0 ≤ second.toNat && second.toNat ≤ 0xBF
  else if lead.toNat = 0xED then 0x80 ≤ second.toNat && second.toNat ≤ 0x9F
  else if lead.toNat = 0xF0 then 0x90 ≤ second.toNat && second.toNat ≤ 0xBF
  else if lead.toNat = 0xF4 then 0x80 ≤ second.toNat && second.toNat ≤ 0x8F
  else isTail second

/-- The number of bytes announced by a leading byte, zero when it is invalid. -/
def sequenceLength (lead : UInt8) : Nat :=
  if lead.toNat < 0x80 then 1
  else if 0xC2 ≤ lead.toNat ∧ lead.toNat ≤ 0xDF then 2
  else if 0xE0 ≤ lead.toNat ∧ lead.toNat ≤ 0xEF then 3
  else if 0xF0 ≤ lead.toNat ∧ lead.toNat ≤ 0xF4 then 4
  else 0

/-- The first code point after a leading byte and the number of bytes it
takes besides that byte. -/
def decodeRune (lead : UInt8) (rest : List UInt8) : Nat × Nat :=
  match sequenceLength lead, rest with
  | 1, _ => (lead.toNat, 0)
  | 2, second :: _ =>
      if acceptsSecond lead second then
        ((lead.toNat % 32) * 64 + second.toNat % 64, 1)
      else (runeError, 0)
  | 3, second :: third :: _ =>
      if acceptsSecond lead second && isTail third then
        (((lead.toNat % 16) * 64 + second.toNat % 64) * 64 + third.toNat % 64, 2)
      else (runeError, 0)
  | 4, second :: third :: fourth :: _ =>
      if acceptsSecond lead second && isTail third && isTail fourth then
        ((((lead.toNat % 8) * 64 + second.toNat % 64) * 64 + third.toNat % 64) * 64 +
          fourth.toNat % 64, 3)
      else (runeError, 0)
  | _, _ => (runeError, 0)

/-- The code points of a text, each with the bytes it was decoded from.  The
first argument counts bytes that belong to the code point before. -/
def scan : Nat → List UInt8 → List (Nat × List UInt8)
  | _, [] => []
  | pending + 1, _ :: rest => scan pending rest
  | 0, lead :: rest =>
      let (rune, extra) := decodeRune lead rest
      (rune, lead :: rest.take extra) :: scan extra rest

def runes (text : List UInt8) : List (Nat × List UInt8) := scan 0 text

/-- The encoding of a code point; what is not a code point becomes the
replacement character. -/
def encodeRune (rune : Nat) : List UInt8 :=
  if rune < 0x80 then [UInt8.ofNat rune]
  else if rune < 0x800 then
    [UInt8.ofNat (0xC0 + rune / 64), UInt8.ofNat (0x80 + rune % 64)]
  else if 0xD800 ≤ rune ∧ rune ≤ 0xDFFF ∨ 0x10FFFF < rune then [0xEF, 0xBF, 0xBD]
  else if rune < 0x10000 then
    [UInt8.ofNat (0xE0 + rune / 4096), UInt8.ofNat (0x80 + rune / 64 % 64),
      UInt8.ofNat (0x80 + rune % 64)]
  else
    [UInt8.ofNat (0xF0 + rune / 262144), UInt8.ofNat (0x80 + rune / 4096 % 64),
      UInt8.ofNat (0x80 + rune / 64 % 64), UInt8.ofNat (0x80 + rune % 64)]

/-- Replace every code point of a text. -/
def mapRunes (change : Nat → Nat) (text : List UInt8) : List UInt8 :=
  (runes text).flatMap fun entry => encodeRune (change entry.1)

/-- The code points of a text were decoded from all of its bytes. -/
theorem flatMap_scan (pending : Nat) (text : List UInt8) :
    (scan pending text).flatMap Prod.snd = text.drop pending := by
  induction text generalizing pending with
  | nil => cases pending <;> rfl
  | cons lead rest inductionHypothesis =>
      cases pending with
      | zero => simp [scan, inductionHypothesis]
      | succ pending => exact inductionHypothesis pending

/-! ## ASCII -/

theorem decodeRune_ascii {lead : UInt8} (ascii : lead.toNat < 0x80) (rest : List UInt8) :
    decodeRune lead rest = (lead.toNat, 0) := by
  have length : sequenceLength lead = 1 := if_pos ascii
  simp [decodeRune, length]

theorem encodeRune_ascii {rune : Nat} (ascii : rune < 0x80) :
    encodeRune rune = [UInt8.ofNat rune] := if_pos ascii

theorem runes_cons_ascii {lead : UInt8} (ascii : lead.toNat < 0x80) (rest : List UInt8) :
    runes (lead :: rest) = (lead.toNat, [lead]) :: runes rest := by
  simp [runes, scan, decodeRune_ascii ascii]

/-- Text in ASCII is mapped byte by byte. -/
theorem mapRunes_ascii {change : Nat → Nat} {text : List UInt8}
    (ascii : ∀ byte ∈ text, byte.toNat < 0x80)
    (closed : ∀ rune, rune < 0x80 → change rune < 0x80) :
    mapRunes change text = text.map fun byte => UInt8.ofNat (change byte.toNat) := by
  induction text with
  | nil => rfl
  | cons lead rest inductionHypothesis =>
      have leadAscii := ascii lead List.mem_cons_self
      have restMapped := inductionHypothesis
        fun byte membership => ascii byte (List.mem_cons_of_mem _ membership)
      rw [mapRunes] at restMapped ⊢
      rw [runes_cons_ascii leadAscii, List.flatMap_cons, restMapped,
        encodeRune_ascii (closed _ leadAscii)]
      rfl

/-! ## Line feeds

An ASCII byte occurs in a text exactly when its code point does. -/

theorem notMem_of_high {byte : UInt8} (ascii : byte.toNat < 0x80) {encoded : List UInt8}
    (high : ∀ other ∈ encoded, 0x80 ≤ other.toNat) : byte ∉ encoded := by
  intro membership
  have bound := high byte membership
  omega

theorem mem_encodeRune_ascii {byte : UInt8} (ascii : byte.toNat < 0x80) (rune : Nat) :
    byte ∈ encodeRune rune ↔ rune = byte.toNat := by
  by_cases small : rune < 0x80
  · rw [encodeRune_ascii small, List.mem_singleton]
    constructor
    · rintro rfl
      simp only [UInt8.toNat_ofNat']
      omega
    · rintro rfl
      exact (UInt8.ofNat_toNat).symm
  · have high : ∀ other ∈ encodeRune rune, 0x80 ≤ other.toNat := by
      intro other membership
      unfold encodeRune at membership
      split_ifs at membership
      all_goals
        simp only [List.mem_cons, List.not_mem_nil, or_false] at membership
        rcases membership with rfl | rfl | rfl | rfl <;>
          simp only [UInt8.toNat_ofNat', UInt8.toNat_ofNat] <;> omega
    constructor
    · exact fun membership => absurd membership (notMem_of_high ascii high)
    · intro same
      omega

theorem isTail_bounds {byte : UInt8} (tail : isTail byte = true) :
    0x80 ≤ byte.toNat ∧ byte.toNat ≤ 0xBF := by
  simpa [isTail] using tail

theorem acceptsSecond_bounds {lead second : UInt8} (accepted : acceptsSecond lead second = true) :
    0x80 ≤ second.toNat ∧ second.toNat ≤ 0xBF ∧ (lead.toNat = 0xE0 → 0xA0 ≤ second.toNat) ∧
      (lead.toNat = 0xF0 → 0x90 ≤ second.toNat) := by
  unfold acceptsSecond isTail at accepted
  split_ifs at accepted <;> simp only [Bool.and_eq_true, decide_eq_true_eq] at accepted <;> omega

/-- A byte outside ASCII starts a code point outside ASCII, and the bytes that
belong to it are outside ASCII as well. -/
theorem decodeRune_high {lead : UInt8} (high : 0x80 ≤ lead.toNat) (rest : List UInt8) :
    0x80 ≤ (decodeRune lead rest).1 ∧
      ∀ byte ∈ rest.take (decodeRune lead rest).2, 0x80 ≤ byte.toNat := by
  have replaced : 0x80 ≤ runeError := by decide
  have announced : sequenceLength lead =
      if 0xC2 ≤ lead.toNat ∧ lead.toNat ≤ 0xDF then 2
      else if 0xE0 ≤ lead.toNat ∧ lead.toNat ≤ 0xEF then 3
      else if 0xF0 ≤ lead.toNat ∧ lead.toNat ≤ 0xF4 then 4
      else 0 := if_neg (by omega)
  unfold decodeRune
  split
  next one =>
    rw [announced] at one
    exfalso
    split_ifs at one <;> omega
  next second _ two =>
    have range : 0xC2 ≤ lead.toNat ∧ lead.toNat ≤ 0xDF := by
      rw [announced] at two
      split_ifs at two <;> omega
    split
    next accepted =>
      obtain ⟨low, _, _, _⟩ := acceptsSecond_bounds accepted
      exact ⟨by omega, by simpa using low⟩
    next => exact ⟨replaced, by simp⟩
  next second third _ three =>
    have range : 0xE0 ≤ lead.toNat ∧ lead.toNat ≤ 0xEF := by
      rw [announced] at three
      split_ifs at three <;> omega
    split
    next accepted =>
      rw [Bool.and_eq_true] at accepted
      obtain ⟨low, top, shortest, _⟩ := acceptsSecond_bounds accepted.1
      obtain ⟨thirdLow, _⟩ := isTail_bounds accepted.2
      exact ⟨by omega, by simpa using ⟨low, thirdLow⟩⟩
    next => exact ⟨replaced, by simp⟩
  next second third fourth _ four =>
    have range : 0xF0 ≤ lead.toNat ∧ lead.toNat ≤ 0xF4 := by
      rw [announced] at four
      split_ifs at four <;> omega
    split
    next accepted =>
      rw [Bool.and_eq_true, Bool.and_eq_true] at accepted
      obtain ⟨low, top, _, shortest⟩ := acceptsSecond_bounds accepted.1.1
      obtain ⟨thirdLow, _⟩ := isTail_bounds accepted.1.2
      obtain ⟨fourthLow, _⟩ := isTail_bounds accepted.2
      exact ⟨by omega, by simpa using ⟨low, thirdLow, fourthLow⟩⟩
    next => exact ⟨replaced, by simp⟩
  next => exact ⟨replaced, by simp⟩

theorem mem_scan_ascii {byte : UInt8} (ascii : byte.toNat < 0x80) (pending : Nat)
    (text : List UInt8) (high : ∀ other ∈ text.take pending, 0x80 ≤ other.toNat) :
    (∃ entry ∈ scan pending text, entry.1 = byte.toNat) ↔ byte ∈ text := by
  induction text generalizing pending with
  | nil => simp [scan]
  | cons lead rest inductionHypothesis =>
      cases pending with
      | succ pending =>
          have leadHigh := high lead (by simp)
          have different : byte ≠ lead := by
            rintro rfl
            omega
          rw [scan, inductionHypothesis pending fun other membership =>
            high other (by simp [membership]), List.mem_cons]
          simp [different]
      | zero =>
          have continued : ∀ other ∈ rest.take (decodeRune lead rest).2, 0x80 ≤ other.toNat := by
            by_cases leadAscii : lead.toNat < 0x80
            · simp [decodeRune_ascii leadAscii]
            · exact (decodeRune_high (by omega) rest).2
          have first : (decodeRune lead rest).1 = byte.toNat ↔ byte = lead := by
            by_cases leadAscii : lead.toNat < 0x80
            · rw [decodeRune_ascii leadAscii]
              exact ⟨fun same => (UInt8.toNat_inj.mp same).symm, fun same => by rw [same]⟩
            · have highLead : 0x80 ≤ lead.toNat := by omega
              have leadHigh := (decodeRune_high highLead rest).1
              constructor
              · intro same
                omega
              · rintro rfl
                omega
          rw [List.mem_cons, ← inductionHypothesis _ continued, ← first, scan]
          simp only [List.mem_cons, or_and_right, exists_or, exists_eq_left]

/-- A code point is in ASCII exactly where its byte is. -/
theorem mem_mapRunes_ascii {byte : UInt8} (ascii : byte.toNat < 0x80) {change : Nat → Nat}
    (fixed : ∀ rune, change rune = byte.toNat ↔ rune = byte.toNat) (text : List UInt8) :
    byte ∈ mapRunes change text ↔ byte ∈ text := by
  rw [← mem_scan_ascii ascii 0 text (by simp), mapRunes, List.mem_flatMap]
  simp only [mem_encodeRune_ascii ascii, fixed, runes]

end Utf8
