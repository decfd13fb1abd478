import Packrat.CharClass.Bracket
import Packrat.Proofs.CharClass.Canonical
import Packrat.Proofs.JavaScript.StringLiteral
import Packrat.Text.CodeRange

/-!
# Reading bracket expressions

The body of a bracket expression is read in three passes: escapes give code points and code units,
two units that form a surrogate pair are joined, and a dash between two characters makes a range.
Main statement: what is written for merged ranges is read to its end and denotes just those, so that
no two lists of merged ranges are written alike (`read_bracketBody`).
-/

namespace Packrat.Bracket

open Text JavaScript

/-- What is read first between brackets. -/
inductive Mark where
  /-- A character by its code point. -/
  | char (n : Nat)
  /-- A code unit, perhaps half of a surrogate pair. -/
  | unit (n : Nat)
  /-- A dash that is not escaped. -/
  | dash
  deriving DecidableEq, Repr

/-- The code point that a letter stands for behind a backslash. -/
def named? (letter : Char) : Option Nat :=
  match letter with
  | '0' => some 0x00
  | 'b' => some 0x08
  | 't' => some 0x09
  | 'n' => some 0x0A
  | 'f' => some 0x0C
  | 'r' => some 0x0D
  | '\\' | '/' | ']' | '^' | '-' => some letter.toNat
  | _ => none

/-- The number that hexadecimal digits write. -/
def hexNumber? (digits : Text) : Option Nat :=
  digits.foldlM (fun n digit => (hexValue? digit).map (16 * n + ·)) 0

/-- Characters that are not read unless they are escaped. -/
def isReserved (c : Char) : Bool :=
  c == '\\' || c == '/' || c == ']' || c == '^'

/-- Reads the escapes of a text from left to right. -/
def readMarks : Text → Option (List Mark)
  | [] => some []
  | '\\' :: 'x' :: d₁ :: d₀ :: cs =>
    (hexNumber? [d₁, d₀]).bind fun n => (readMarks cs).map (.char n :: ·)
  | '\\' :: 'u' :: d₃ :: d₂ :: d₁ :: d₀ :: cs =>
    (hexNumber? [d₃, d₂, d₁, d₀]).bind fun n => (readMarks cs).map (.unit n :: ·)
  | '\\' :: letter :: cs =>
    (named? letter).bind fun n => (readMarks cs).map (.char n :: ·)
  | '-' :: cs => (readMarks cs).map (.dash :: ·)
  | c :: cs => if isReserved c then none else (readMarks cs).map (.char c.toNat :: ·)

/-- A character, by its code point, or a dash that is not escaped. -/
inductive Sign where
  | char (n : Nat)
  | dash
  deriving DecidableEq, Repr

/-- Whether two code units form a surrogate pair. -/
def isPair (high low : Nat) : Bool :=
  0xD800 ≤ high && high ≤ 0xDBFF && 0xDC00 ≤ low && low ≤ 0xDFFF

/-- Joins the code units that form surrogate pairs. -/
def joinUnits : List Mark → List Sign
  | .unit high :: .unit low :: marks =>
    if isPair high low then
      .char (0x10000 + 0x400 * (high - 0xD800) + (low - 0xDC00)) :: joinUnits marks
    else .char high :: joinUnits (.unit low :: marks)
  | .unit n :: marks => .char n :: joinUnits marks
  | .char n :: marks => .char n :: joinUnits marks
  | .dash :: marks => .dash :: joinUnits marks
  | [] => []

/-- Reads ranges: two characters with a dash between them, or a single one. -/
def readRanges : List Sign → Option (List CodeRange)
  | .char first :: .dash :: .char last :: signs => (readRanges signs).map (⟨first, last⟩ :: ·)
  | .char n :: signs => (readRanges signs).map (⟨n, n⟩ :: ·)
  | .dash :: _ => none
  | [] => some []

/-- Reads the characters of a text and the dashes between them. -/
def readSigns (cs : Text) : Option (List Sign) :=
  (readMarks cs).map joinUnits

/-- Reads the body of a bracket expression: the ranges that it denotes. -/
def read (cs : Text) : Option (List CodeRange) :=
  (readSigns cs).bind readRanges

/-- The dash behind the backslash is a character, the one behind it makes a range. -/
example : read "\\--\\/\\0\\uD83D\\uDE00".toList =
    some [⟨0x2D, 0x2F⟩, ⟨0, 0⟩, ⟨0x1F600, 0x1F600⟩] := rfl

/-- A code point is denoted by some ranges. -/
def Denotes (ranges : List CodeRange) (n : Nat) : Prop :=
  ∃ r ∈ ranges, r.first ≤ n ∧ n ≤ r.last

/-! ### One character -/

theorem hexNumber?_hexDigits (count n : Nat) :
    hexNumber? (hexDigits count n) = some (n % 16 ^ count) := by
  induction count generalizing n with
  | zero => simp [hexDigits, hexNumber?, Nat.mod_one]
  | succ count ih =>
      have hdigit : hexValue? (hexDigit (n % 16)) = some (n % 16) :=
        hexValue?_hexDigit _ (Nat.mod_lt _ (by decide))
      have hsplit : n % 16 ^ (count + 1) = 16 * (n / 16 % 16 ^ count) + n % 16 := by
        rw [Nat.pow_succ', Nat.mod_mul, Nat.add_comm]
      have hlead := ih (n / 16)
      unfold hexNumber? at hlead ⊢
      rw [hexDigits, List.foldlM_append, hlead, hsplit]
      simp [hdigit]

theorem readMarks_of_plain {c : Char} (hreserved : isReserved c = false) (hdash : c ≠ '-')
    (cs : Text) : readMarks (c :: cs) = (readMarks cs).map (.char c.toNat :: ·) := by
  have hslash : c ≠ '\\' := by
    rintro rfl
    cases hreserved
  rw [readMarks] <;> simp_all

theorem readMarks_of_named {letter : Char} {n : Nat} (h : named? letter = some n) (cs : Text) :
    readMarks ('\\' :: letter :: cs) = (readMarks cs).map (.char n :: ·) := by
  have hx : letter ≠ 'x' := by
    rintro rfl
    cases h
  have hu : letter ≠ 'u' := by
    rintro rfl
    cases h
  rw [readMarks] <;> simp_all

/-- A character below U+0100 is read from the two digits it is written with. -/
theorem readMarks_escapeByte {n : Nat} (h : n < 0x100) (cs : Text) :
    readMarks ('\\' :: 'x' :: (hexDigits 2 n ++ cs)) = (readMarks cs).map (.char n :: ·) := by
  have hread : readMarks ('\\' :: 'x' :: (hexDigits 2 n ++ cs)) =
      (hexNumber? (hexDigits 2 n)).bind fun n => (readMarks cs).map (.char n :: ·) := rfl
  rw [hread, hexNumber?_hexDigits, Nat.mod_eq_of_lt (by omega), Option.bind_some]

/-- A code unit is read from the four digits it is written with. -/
theorem readMarks_escapeUnit {unit : Nat} (h : unit < 0x10000) (cs : Text) :
    readMarks ('\\' :: 'u' :: (hexDigits 4 unit ++ cs)) =
      (readMarks cs).map (.unit unit :: ·) := by
  have hread : readMarks ('\\' :: 'u' :: (hexDigits 4 unit ++ cs)) =
      (hexNumber? (hexDigits 4 unit)).bind fun n => (readMarks cs).map (.unit n :: ·) := rfl
  rw [hread, hexNumber?_hexDigits, Nat.mod_eq_of_lt (by omega), Option.bind_some]

theorem readMarks_escapeUnits {units : List Nat} (h : ∀ unit ∈ units, unit < 0x10000) (cs : Text) :
    readMarks ((units.flatMap fun unit => '\\' :: 'u' :: hexDigits 4 unit) ++ cs) =
      (readMarks cs).map (units.map .unit ++ ·) := by
  induction units with
  | nil => simp
  | cons unit units ih =>
      obtain ⟨hunit, hunits⟩ := List.forall_mem_cons.1 h
      simp only [List.flatMap_cons, List.cons_append, List.append_assoc]
      rw [readMarks_escapeUnit hunit, ih hunits, Option.map_map]
      rfl

theorem named?_of_shortEscape? {c letter : Char} (h : shortEscape? c = some letter) :
    named? letter = some c.toNat := by
  unfold shortEscape? at h
  split at h
  case h_8 => cases h
  all_goals
    rename_i hn
    cases h
    rw [hn]
    rfl

theorem joinUnits_unit_of_not_high {n : Nat} (h : n < 0xD800 ∨ 0xDBFF < n) (marks : List Mark) :
    joinUnits (.unit n :: marks) = .char n :: joinUnits marks := by
  have hpair (low : Nat) : isPair n low = false := by
    simp only [isPair, Bool.and_eq_false_iff, decide_eq_false_iff_not]
    omega
  cases marks with
  | nil => rfl
  | cons mark marks =>
      cases mark with
      | unit low => rw [joinUnits, if_neg (by simp [hpair])]
      | _ => rfl

/-- The code units of a character are joined to the character, whatever follows. -/
theorem joinUnits_codeUnits (c : Char) (marks : List Mark) :
    joinUnits ((codeUnits c).map .unit ++ marks) = .char c.toNat :: joinUnits marks := by
  have hvalid : c.toNat < 0xD800 ∨ 0xDFFF < c.toNat ∧ c.toNat < 0x110000 := c.valid
  unfold codeUnits
  split
  · exact joinUnits_unit_of_not_high (by omega) marks
  · have hpair : isPair (0xD800 + (c.toNat - 0x10000) / 0x400)
        (0xDC00 + (c.toNat - 0x10000) % 0x400) = true := by
      simp only [isPair, Bool.and_eq_true, decide_eq_true_eq]
      omega
    have hjoin : 0x10000 + 0x400 * (0xD800 + (c.toNat - 0x10000) / 0x400 - 0xD800) +
        (0xDC00 + (c.toNat - 0x10000) % 0x400 - 0xDC00) = c.toNat := by
      omega
    simp only [List.map_cons, List.map_nil, List.cons_append, List.nil_append, joinUnits, hpair,
      if_true, hjoin]

theorem readSigns_of_readMarks {written cs : Text} (marks : List Mark) {n : Nat}
    (hread : readMarks (written ++ cs) = (readMarks cs).map (marks ++ ·))
    (hjoin : ∀ rest, joinUnits (marks ++ rest) = .char n :: joinUnits rest) :
    readSigns (written ++ cs) = (readSigns cs).map (.char n :: ·) := by
  simp only [readSigns, hread, Option.map_map, Function.comp_def, hjoin]

/-- A character is read from what it is written as, whatever follows. -/
theorem readSigns_escapeBracketed (c : Char) (cs : Text) :
    readSigns (escapeBracketed c ++ cs) = (readSigns cs).map (.char c.toNat :: ·) := by
  have hchar {written : Text}
      (hread : readMarks (written ++ cs) = (readMarks cs).map (.char c.toNat :: ·)) :
      readSigns (written ++ cs) = (readSigns cs).map (.char c.toNat :: ·) :=
    readSigns_of_readMarks [.char c.toNat] hread fun _ => rfl
  unfold escapeBracketed
  split
  case isTrue hspecial =>
    apply hchar
    obtain rfl | rfl | rfl | rfl := hspecial <;> rfl
  case isFalse hspecial =>
    unfold escape
    split
    case h_1 letter hletter => exact hchar (readMarks_of_named (named?_of_shortEscape? hletter) cs)
    case h_2 hletter =>
      split
      case isTrue hplain =>
        apply hchar
        simp only [not_or] at hspecial
        apply readMarks_of_plain _ hspecial.2.2.2
        have hslash : c ≠ '\\' := by
          rintro rfl
          cases hletter
        simp [isReserved, hslash, hspecial]
      case isFalse =>
        split
        case isTrue hsmall => exact hchar (readMarks_escapeByte hsmall cs)
        case isFalse =>
          exact readSigns_of_readMarks _ (readMarks_escapeUnits (codeUnits_lt c) cs)
            (joinUnits_codeUnits c)

theorem readSigns_dash (cs : Text) :
    readSigns ('-' :: cs) = (readSigns cs).map (.dash :: ·) := by
  simp only [readSigns, readMarks, Option.map_map, Function.comp_def, joinUnits]

/-! ### Ranges -/

/-- A range as it is written, read into characters and dashes. -/
def signsOf (r : CharRange) : List Sign :=
  match r.span with
  | 0 => [.char r.first.toNat]
  | 1 => [.char r.first.toNat, .char r.last.toNat]
  | _ => [.char r.first.toNat, .dash, .char r.last.toNat]

/-- The ranges that are read for a range. -/
def rangesOf (r : CharRange) : List CodeRange :=
  match r.span with
  | 0 => [⟨r.first.toNat, r.first.toNat⟩]
  | 1 => [⟨r.first.toNat, r.first.toNat⟩, ⟨r.last.toNat, r.last.toNat⟩]
  | _ => [⟨r.first.toNat, r.last.toNat⟩]

theorem readSigns_bracketed (r : CharRange) (cs : Text) :
    readSigns (r.bracketed ++ cs) = (readSigns cs).map (signsOf r ++ ·) := by
  unfold CharRange.bracketed signsOf
  split <;>
    simp only [*, List.append_assoc, List.cons_append, List.nil_append, readSigns_escapeBracketed,
      readSigns_dash, Option.map_map, Function.comp_def]

theorem readSigns_bracketBody (ranges : List CharRange) :
    readSigns (bracketBody ranges) = some (ranges.flatMap signsOf) := by
  unfold bracketBody
  induction ranges with
  | nil => rfl
  | cons r ranges ih => rw [List.flatMap_cons, readSigns_bracketed, ih, List.flatMap_cons]; rfl

/-- No range starts with a dash, so that a character before it stands alone. -/
theorem head?_signs_ne_dash (ranges : List CharRange) :
    (ranges.flatMap signsOf).head? ≠ some .dash := by
  cases ranges with
  | nil => simp
  | cons r ranges =>
      rw [List.flatMap_cons, signsOf]
      split <;> simp

theorem readRanges_char {signs : List Sign} (h : signs.head? ≠ some .dash) (n : Nat) :
    readRanges (.char n :: signs) = (readRanges signs).map (⟨n, n⟩ :: ·) := by
  cases signs with
  | nil => rfl
  | cons sign signs =>
      cases sign with
      | char m => rfl
      | dash => exact absurd rfl h

theorem readRanges_signs (ranges : List CharRange) :
    readRanges (ranges.flatMap signsOf) = some (ranges.flatMap rangesOf) := by
  induction ranges with
  | nil => rfl
  | cons r ranges ih =>
      have hlater := head?_signs_ne_dash ranges
      rw [List.flatMap_cons, List.flatMap_cons, signsOf, rangesOf]
      split
      · rw [List.singleton_append, readRanges_char hlater, ih]
        rfl
      · rw [List.cons_append, List.singleton_append, readRanges_char (by simp),
          readRanges_char hlater, ih]
        rfl
      · simp only [List.cons_append, List.nil_append, readRanges, ih, Option.map_some]

theorem read_bracketBody_eq (ranges : List CharRange) :
    read (bracketBody ranges) = some (ranges.flatMap rangesOf) := by
  rw [read, readSigns_bracketBody, Option.bind_some, readRanges_signs]

theorem denotes_rangesOf_iff {r : CharRange} (h : r.first.toNat ≤ r.last.toNat) (n : Nat) :
    Denotes (rangesOf r) n ↔ r.first.toNat ≤ n ∧ n ≤ r.last.toNat := by
  unfold Denotes rangesOf CharRange.span
  split <;> simp <;> omega

/-- The ranges that are read denote what was to be written. -/
theorem denotes_iff_covers {ranges : List CharRange} (h : CharRange.Ordered ranges) (n : Nat) :
    Denotes (ranges.flatMap rangesOf) n ↔ CharRange.Covers ranges n := by
  constructor
  · rintro ⟨read, hread, hn⟩
    obtain ⟨r, hr, hmem⟩ := List.mem_flatMap.1 hread
    exact ⟨r, hr, (denotes_rangesOf_iff (h r hr) n).1 ⟨read, hmem, hn⟩⟩
  · rintro ⟨r, hr, hn⟩
    obtain ⟨read, hmem, hn⟩ := (denotes_rangesOf_iff (h r hr) n).2 hn
    exact ⟨read, List.mem_flatMap.2 ⟨r, hr, hmem⟩, hn⟩

/-! ### Characters that are escaped -/

/-- The characters of a text without each backslash and the one behind it. -/
def unescaped : Text → Text
  | '\\' :: _ :: cs => unescaped cs
  | c :: cs => c :: unescaped cs
  | [] => []

theorem isReserved_of_hexValue? {c : Char} {n : Nat} (h : hexValue? c = some n) :
    isReserved c = false := by
  rw [Bool.eq_false_iff]
  intro hreserved
  simp only [isReserved, Bool.or_eq_true, beq_iff_eq] at hreserved
  obtain ((rfl | rfl) | rfl) | rfl := hreserved <;> cases h

theorem isReserved_of_hexNumber? {digits : Text} {n : Nat} (h : hexNumber? digits = some n) :
    ∀ digit ∈ digits, isReserved digit = false := by
  unfold hexNumber? at h
  generalize 0 = value at h
  induction digits generalizing value with
  | nil => simp
  | cons digit digits ih =>
      rw [List.foldlM_cons] at h
      obtain ⟨next, hnext, hlater⟩ := Option.bind_eq_some_iff.1 h
      obtain ⟨d, hdigit, -⟩ := Option.map_eq_some_iff.1 hnext
      exact List.forall_mem_cons.2 ⟨isReserved_of_hexValue? hdigit, ih next hlater⟩

theorem unescaped_cons {c : Char} (h : isReserved c = false) (cs : Text) :
    unescaped (c :: cs) = c :: unescaped cs := by
  have hslash : c ≠ '\\' := by
    rintro rfl
    cases h
  rw [unescaped]
  simp_all

theorem unescaped_append {plain : Text} (h : ∀ c ∈ plain, isReserved c = false) (cs : Text) :
    unescaped (plain ++ cs) = plain ++ unescaped cs := by
  induction plain with
  | nil => rfl
  | cons c plain ih =>
      obtain ⟨hc, hplain⟩ := List.forall_mem_cons.1 h
      rw [List.cons_append, unescaped_cons hc, ih hplain, List.cons_append]

/-- A text that is read has no slash, closing bracket or caret without a backslash. -/
theorem isReserved_of_mem_unescaped {cs : Text} {marks : List Mark}
    (h : readMarks cs = some marks) :
    ∀ c ∈ unescaped cs, isReserved c = false := by
  have hdigits {digits cs : Text} {n : Nat} (hnumber : hexNumber? digits = some n)
      (hcs : ∀ c ∈ unescaped cs, isReserved c = false) :
      ∀ c ∈ unescaped (digits ++ cs), isReserved c = false := by
    have hplain := isReserved_of_hexNumber? hnumber
    rw [unescaped_append hplain]
    exact List.forall_mem_append.2 ⟨hplain, hcs⟩
  fun_induction readMarks cs generalizing marks with
  | case1 => simp [unescaped]
  | case2 d₁ d₀ cs ih =>
      obtain ⟨n, hnumber, hmarks⟩ := Option.bind_eq_some_iff.1 h
      obtain ⟨later, hlater, -⟩ := Option.map_eq_some_iff.1 hmarks
      exact hdigits hnumber (ih hlater)
  | case3 d₃ d₂ d₁ d₀ cs ih =>
      obtain ⟨n, hnumber, hmarks⟩ := Option.bind_eq_some_iff.1 h
      obtain ⟨later, hlater, -⟩ := Option.map_eq_some_iff.1 hmarks
      exact hdigits hnumber (ih hlater)
  | case4 letter cs _ _ ih =>
      obtain ⟨n, -, hmarks⟩ := Option.bind_eq_some_iff.1 h
      obtain ⟨later, hlater, -⟩ := Option.map_eq_some_iff.1 hmarks
      exact ih hlater
  | case5 cs ih =>
      obtain ⟨later, hlater, -⟩ := Option.map_eq_some_iff.1 h
      rw [unescaped_cons (by decide)]
      exact List.forall_mem_cons.2 ⟨by decide, ih hlater⟩
  | case6 => cases h
  | case7 c cs _ _ _ _ hreserved ih =>
      have hplain : isReserved c = false := by simpa using hreserved
      obtain ⟨later, hlater, -⟩ := Option.map_eq_some_iff.1 h
      rw [unescaped_cons hplain]
      exact List.forall_mem_cons.2 ⟨hplain, ih hlater⟩

/-- What is written for merged ranges is read to its end and denotes them, with every slash, closing
bracket and caret escaped, and no other merged ranges are written alike. -/
theorem read_bracketBody {parts : List CharRange} (h : CharRange.Ordered parts) :
    (∃ ranges, read (bracketBody (CharRange.merge parts)) = some ranges ∧
        ∀ n, Denotes ranges n ↔ CharRange.Covers (CharRange.merge parts) n) ∧
      (∀ c ∈ unescaped (bracketBody (CharRange.merge parts)), c ≠ '/' ∧ c ≠ ']' ∧ c ≠ '^') ∧
      ∀ others, CharRange.Ordered others →
        bracketBody (CharRange.merge others) = bracketBody (CharRange.merge parts) →
          CharRange.merge others = CharRange.merge parts := by
  have hmerged := CharRange.ordered_merge h
  refine ⟨⟨_, read_bracketBody_eq _, denotes_iff_covers hmerged⟩, ?_, ?_⟩
  · intro c hc
    have hsigns := readSigns_bracketBody (CharRange.merge parts)
    obtain ⟨marks, hmarks, -⟩ := Option.map_eq_some_iff.1 hsigns
    have hplain := isReserved_of_mem_unescaped hmarks c hc
    refine ⟨?_, ?_, ?_⟩ <;>
      · rintro rfl
        cases hplain
  · intro others hothers hsame
    have hothersMerged := CharRange.ordered_merge hothers
    have hread : some ((CharRange.merge others).flatMap rangesOf) =
        some ((CharRange.merge parts).flatMap rangesOf) := by
      rw [← read_bracketBody_eq, ← read_bracketBody_eq, hsame]
    apply CharRange.eq_of_covers_iff (CharRange.gapped_merge others) (CharRange.gapped_merge parts)
      hothersMerged hmerged
    intro n
    rw [← denotes_iff_covers hothersMerged, ← denotes_iff_covers hmerged, Option.some.inj hread]

namespace BracketWitness

/-- Faces, punctuation around the dash, two letters and NUL, out of order. -/
def parts : List CharRange := [⟨'😀', '😂'⟩, ⟨',', '/'⟩, ⟨'b', 'b'⟩, ⟨'a', 'a'⟩, ⟨'\x00', '\x00'⟩]

theorem read_parts :
    CharRange.Ordered parts ∧
      bracketBody (CharRange.merge parts) = "\\0,-\\/ab\\uD83D\\uDE00-\\uD83D\\uDE02".toList ∧
      (∃ ranges, read (bracketBody (CharRange.merge parts)) = some ranges ∧ Denotes ranges 0x2D) ∧
      ∀ c ∈ unescaped (bracketBody (CharRange.merge parts)), c ≠ '/' := by
  have hordered : CharRange.Ordered parts := by
    unfold CharRange.Ordered
    decide
  obtain ⟨⟨ranges, hread, hdenotes⟩, hescaped, -⟩ := read_bracketBody hordered
  have hdash : CharRange.Covers (CharRange.merge parts) 0x2D :=
    ⟨⟨',', '/'⟩, by decide, by decide, by decide⟩
  exact ⟨hordered, by decide, ⟨ranges, hread, (hdenotes _).2 hdash⟩, fun c hc => (hescaped c hc).1⟩

end BracketWitness

end Packrat.Bracket
