import Carrot.Library.Decimal
import Carrot.Library.Utf8
import Carrot.Storage.Clock

/-!
# Go strings

The functions of the packages `strings` and `strconv` that commands and the
protocol use.  Go keeps the case mappings of code points outside ASCII and
the choice of printable characters in tables; they are a parameter here.
-/

namespace Carrot

/-- The bytes of a string constant. -/
def bytes (text : String) : Bytes := text.toUTF8.data.toList

/-- The tables of the standard library: `unicode.ToUpper` and
`unicode.ToLower` outside ASCII, whether two code points, not both in ASCII,
are equal under case folding, and `strconv.Quote`. -/
class GoTables where
  upper : Nat → Nat
  lower : Nat → Nat
  sameFold : Nat → Nat → Bool
  quote : Bytes → Bytes
  lower_ne_lineFeed : ∀ rune, 0x80 ≤ rune → lower rune ≠ 10

/-- Tables that leave everything outside ASCII alone. -/
@[reducible]
def GoTables.ascii : GoTables where
  upper rune := rune
  lower rune := rune
  sameFold _ _ := false
  quote text := [34] ++ text ++ [34]
  lower_ne_lineFeed rune high := by omega

variable [GoTables]

def upperRune (rune : Nat) : Nat :=
  if rune < 0x80 then if 97 ≤ rune ∧ rune ≤ 122 then rune - 32 else rune
  else GoTables.upper rune

def lowerRune (rune : Nat) : Nat :=
  if rune < 0x80 then if 65 ≤ rune ∧ rune ≤ 90 then rune + 32 else rune
  else GoTables.lower rune

/-- `strings.ToUpper`. -/
def toUpper (text : Bytes) : Bytes := Utf8.mapRunes upperRune text

/-- `strings.ToLower`. -/
def toLower (text : Bytes) : Bytes := Utf8.mapRunes lowerRune text

def foldsTo (first second : Nat) : Bool :=
  first = second ||
    if first < 0x80 ∧ second < 0x80 then lowerRune first = lowerRune second
    else GoTables.sameFold first second

/-- `strings.EqualFold`. -/
def equalFold (first second : Bytes) : Bool :=
  let left := (Utf8.runes first).map Prod.fst
  let right := (Utf8.runes second).map Prod.fst
  left.length = right.length && (left.zip right).all fun pair => foldsTo pair.1 pair.2

omit [GoTables] in
/-- `unicode.IsSpace`. -/
def isSpace (rune : Nat) : Bool :=
  (9 ≤ rune && rune ≤ 13) || rune = 32 || rune = 0x85 || rune = 0xA0 || rune = 0x1680 ||
    (0x2000 ≤ rune && rune ≤ 0x200A) || rune = 0x2028 || rune = 0x2029 || rune = 0x202F ||
    rune = 0x205F || rune = 0x3000

omit [GoTables] in
def fieldsLoop : List (Nat × Bytes) → Bytes → List Bytes
  | [], current => if current = [] then [] else [current]
  | (rune, source) :: rest, current =>
      if isSpace rune then
        if current = [] then fieldsLoop rest [] else current :: fieldsLoop rest []
      else fieldsLoop rest (current ++ source)

omit [GoTables] in
/-- `strings.Fields`. -/
def fields (text : Bytes) : List Bytes := fieldsLoop (Utf8.runes text) []

/-! ## What is used about them -/

/-- An ASCII text without lower-case letters is in upper case. -/
theorem toUpper_eq_self {text : Bytes}
    (upper : ∀ byte ∈ text, byte.toNat < 0x80 ∧ ¬ (97 ≤ byte.toNat ∧ byte.toNat ≤ 122)) :
    toUpper text = text := by
  have ascii : ∀ byte ∈ text, byte.toNat < 0x80 := fun byte membership => (upper byte membership).1
  have closed : ∀ rune, rune < 0x80 → upperRune rune < 0x80 := by
    intro rune small
    unfold upperRune
    split_ifs <;> omega
  rw [toUpper, Utf8.mapRunes_ascii ascii closed]
  conv_rhs => rw [← List.map_id text]
  apply List.map_congr_left
  intro byte membership
  obtain ⟨small, notLower⟩ := upper byte membership
  rw [upperRune, if_pos small, if_neg notLower]
  exact UInt8.ofNat_toNat

theorem lowerRune_eq_lineFeed (rune : Nat) : lowerRune rune = 10 ↔ rune = 10 := by
  unfold lowerRune
  split_ifs with small letter
  · omega
  · rfl
  · have high := GoTables.lower_ne_lineFeed rune (by omega)
    constructor
    · exact fun same => absurd same high
    · intro same
      omega

/-- Changing case neither adds nor removes line feeds. -/
theorem lineFeed_mem_toLower (text : Bytes) : 10 ∈ toLower text ↔ 10 ∈ text :=
  Utf8.mem_mapRunes_ascii (by decide) lowerRune_eq_lineFeed text

omit [GoTables] in
theorem fieldsLoop_length (entries : List (Nat × Bytes)) (current : Bytes) :
    ((fieldsLoop entries current).map List.length).sum ≤
      current.length + (entries.flatMap Prod.snd).length := by
  induction entries generalizing current with
  | nil =>
      unfold fieldsLoop
      split <;> simp
  | cons entry entries inductionHypothesis =>
      obtain ⟨rune, source⟩ := entry
      have skipped := inductionHypothesis []
      have extended := inductionHypothesis (current ++ source)
      simp only [List.length_append, List.length_nil] at skipped extended
      simp only [fieldsLoop, List.flatMap_cons, List.length_append]
      split_ifs
      · omega
      · rw [List.map_cons, List.sum_cons]
        omega
      · omega

omit [GoTables] in
/-- The words of a text are not longer than the text. -/
theorem fields_length (text : Bytes) :
    ((fields text).map List.length).sum ≤ text.length := by
  have bound := fieldsLoop_length (Utf8.runes text) []
  rwa [Utf8.runes, Utf8.flatMap_scan, List.length_nil, Nat.zero_add, List.drop_zero] at bound

end Carrot
