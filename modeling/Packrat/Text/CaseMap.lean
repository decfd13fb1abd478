import Packrat.Text.Bytes
import Packrat.Text.CaseTable

/-!
# Case mappings

A character maps to one or more characters.  A text is mapped character by character, save that a
capital sigma becomes a final sigma where it ends a word.
-/

namespace Packrat.Text

/-- Where a run of the table sends a code point that it covers. -/
def CaseRun.image? (run : CaseRun) (n : Nat) : Option Nat :=
  if run.first ≤ n ∧ n ≤ run.last ∧ (n - run.first) % run.stride = 0 then
    some (n + run.offset).toNat
  else none

/-- The single character that a table of runs gives for a character, or the character itself. -/
def mapByRuns (runs : List CaseRun) (c : Char) : Char :=
  match runs.findSome? (·.image? c.toNat) with
  | some n => Char.ofNat n
  | none => c

/-- The lowercase form of a character.  Only the capital I with a dot takes two characters. -/
def lowerChar (c : Char) : Text :=
  if c.toNat = 0x130 then ['i', Char.ofNat 0x307] else [mapByRuns lowerRuns c]

/-- The uppercase form of a character. -/
def upperChar (c : Char) : Text :=
  match upperExpansions.lookup c.toNat with
  | some codes => codes.map Char.ofNat
  | none => [mapByRuns upperRuns c]

/-- Whether the first character that is not looked through is a letter with a case. -/
def meetsCased (cs : Text) : Bool :=
  match cs.dropWhile (inRanges caseIgnorableRanges) with
  | c :: _ => inRanges casedRanges c
  | [] => false

/-- The lowercase form of a text, given the characters before it, the nearest first. -/
def lowerAfter : Text → Text → Text
  | _, [] => []
  | before, c :: cs =>
    (if c.toNat = 0x3A3 then
      [Char.ofNat (if meetsCased before && !meetsCased cs then 0x3C2 else 0x3C3)]
    else lowerChar c) ++ lowerAfter (c :: before) cs

/-- The lowercase form of a text. -/
def lower (cs : Text) : Text :=
  lowerAfter [] cs

end Packrat.Text
