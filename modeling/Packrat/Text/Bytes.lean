/-!
# Byte positions in a text

A text is a list of characters, and a position in it counts the bytes of the UTF-8 encoding before
it.  Only some positions fall between two characters.  Main statement: cutting a text at a position
succeeds exactly at those, and the two pieces join to the text (`splitBytes?_eq_some_iff`).
-/

namespace Packrat

/-- A text is read as its list of characters. -/
abbrev Text := List Char

namespace Text

/-- The number of bytes that encode a text in UTF-8. -/
def byteLength : Text → Nat
  | [] => 0
  | c :: cs => c.utf8Size + byteLength cs

@[simp] theorem byteLength_nil : byteLength [] = 0 := rfl

@[simp] theorem byteLength_cons (c : Char) (cs : Text) :
    byteLength (c :: cs) = c.utf8Size + byteLength cs := rfl

@[simp] theorem byteLength_append (left right : Text) :
    byteLength (left ++ right) = byteLength left + byteLength right := by
  induction left with
  | nil => simp
  | cons c cs ih => simp [ih, Nat.add_assoc]

/-- A text is empty exactly when it takes no bytes. -/
theorem byteLength_eq_zero_iff {cs : Text} : byteLength cs = 0 ↔ cs = [] := by
  cases cs with
  | nil => simp
  | cons c cs =>
    have := c.utf8Size_pos
    simp only [byteLength_cons, reduceCtorEq, iff_false]
    omega

/-- The texts before and after a byte position, if the position falls between two characters. -/
def splitBytes? : Nat → Text → Option (Text × Text)
  | 0, cs => some ([], cs)
  | _ + 1, [] => none
  | n + 1, c :: cs =>
    if c.utf8Size ≤ n + 1 then
      (splitBytes? (n + 1 - c.utf8Size) cs).map fun (before, after) => (c :: before, after)
    else none

theorem splitBytes?_append (left right : Text) :
    splitBytes? (byteLength left) (left ++ right) = some (left, right) := by
  induction left with
  | nil => simp [splitBytes?]
  | cons c cs ih =>
    have hpos := c.utf8Size_pos
    obtain ⟨n, hn⟩ : ∃ n, byteLength (c :: cs) = n + 1 :=
      ⟨c.utf8Size + byteLength cs - 1, by simp only [byteLength_cons]; omega⟩
    have hsize : n + 1 - c.utf8Size = byteLength cs := by
      simp only [byteLength_cons] at hn
      omega
    have hle : c.utf8Size ≤ n + 1 := by
      simp only [byteLength_cons] at hn
      omega
    rw [hn, List.cons_append]
    simp only [splitBytes?, if_pos hle, hsize, ih, Option.map_some]

theorem eq_append_of_splitBytes? {n : Nat} {cs before after : Text}
    (h : splitBytes? n cs = some (before, after)) :
    cs = before ++ after ∧ byteLength before = n := by
  fun_induction splitBytes? n cs generalizing before after with
  | case1 cs =>
    simp only [Option.some.injEq, Prod.mk.injEq] at h
    obtain ⟨rfl, rfl⟩ := h
    simp
  | case2 => simp at h
  | case3 n c cs hle ih =>
    simp only [Option.map_eq_some_iff, Prod.exists, Prod.mk.injEq] at h
    obtain ⟨b, a, hsplit, rfl, rfl⟩ := h
    obtain ⟨rfl, hlen⟩ := ih hsplit
    exact ⟨rfl, by simp only [byteLength_cons, hlen]; omega⟩
  | case4 => simp at h

/-- Cutting succeeds exactly where the text is a piece of that many bytes and a rest. -/
theorem splitBytes?_eq_some_iff {n : Nat} {cs before after : Text} :
    splitBytes? n cs = some (before, after) ↔ cs = before ++ after ∧ byteLength before = n := by
  constructor
  · exact eq_append_of_splitBytes?
  · rintro ⟨rfl, rfl⟩
    exact splitBytes?_append before after

/-- Whether a byte position lies within a text and falls between two characters. -/
def isBoundary (n : Nat) (cs : Text) : Bool :=
  (splitBytes? n cs).isSome

/-- The text after a byte position. -/
def dropBytes? (n : Nat) (cs : Text) : Option Text :=
  (splitBytes? n cs).map Prod.snd

/-- The text from one byte position to another that does not precede it. -/
def sliceBytes? (start stop : Nat) (cs : Text) : Option Text :=
  if start ≤ stop then do
    let rest ← dropBytes? start cs
    let (slice, _) ← splitBytes? (stop - start) rest
    some slice
  else none

/-- Whether a text occurs as one piece within another. -/
def occursIn (needle : Text) : Text → Bool
  | [] => needle.isEmpty
  | c :: cs => needle.isPrefixOf (c :: cs) || occursIn needle cs

/-- The only character of a text of length one. -/
def single? : Text → Option Char
  | [c] => some c
  | _ => none

end Text

end Packrat
