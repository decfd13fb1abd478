import Packrat.Text.Bytes

/-!
# UTF-16 code units

Targets whose strings are sequences of 16-bit units count a character beyond the Basic Multilingual
Plane twice, once for each half of its surrogate pair.
-/

namespace Packrat.Text

/-- The code units that encode a character: itself, or the two halves of its surrogate pair. -/
def codeUnits (c : Char) : List Nat :=
  if c.toNat < 0x10000 then [c.toNat]
  else
    let offset := c.toNat - 0x10000
    [0xD800 + offset / 0x400, 0xDC00 + offset % 0x400]

theorem length_codeUnits_pos (c : Char) : 0 < (codeUnits c).length := by
  unfold codeUnits
  split <;> simp

theorem codeUnits_lt (c : Char) : ∀ unit ∈ codeUnits c, unit < 0x10000 := by
  have hc : c.toNat < 0x110000 := by
    have hvalid := c.valid
    simp only [UInt32.isValidChar, Nat.isValidChar] at hvalid
    simp only [Char.toNat]
    omega
  intro unit hunit
  unfold codeUnits at hunit
  split at hunit
  · simp only [List.mem_singleton] at hunit
    omega
  · simp only [List.mem_cons, List.not_mem_nil, or_false] at hunit
    omega

/-- The UTF-16 encoding of a text. -/
def utf16 (cs : Text) : List Nat :=
  cs.flatMap codeUnits

@[simp] theorem utf16_nil : utf16 [] = [] := rfl

@[simp] theorem utf16_cons (c : Char) (cs : Text) : utf16 (c :: cs) = codeUnits c ++ utf16 cs := rfl

@[simp] theorem utf16_append (left right : Text) :
    utf16 (left ++ right) = utf16 left ++ utf16 right := by
  simp [utf16]

end Packrat.Text
