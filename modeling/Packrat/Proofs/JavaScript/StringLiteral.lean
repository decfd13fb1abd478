import Mathlib.Tactic.Ring
import Packrat.Text.Escape

/-!
# String literals in JavaScript

A string literal is read from its opening quote to its closing one, character by character, and
denotes a sequence of UTF-16 code units.  Octal escapes are read as in code that is not strict.
Characters are written one by one, but an octal escape goes on as long as digits follow.  Main
statement: a text that is written as a string literal is read to the closing quote, and the literal
denotes it if and only if no NUL stands directly before an octal digit (`readString_quote`).
-/

namespace Packrat.JavaScript

open Text

/-- The value of a hexadecimal digit. -/
def hexValue? (c : Char) : Option Nat :=
  let n := c.toNat
  if 0x30 ≤ n ∧ n ≤ 0x39 then some (n - 0x30)
  else if 0x41 ≤ n ∧ n ≤ 0x46 then some (n - 0x37)
  else if 0x61 ≤ n ∧ n ≤ 0x66 then some (n - 0x57)
  else none

/-- The value of an octal digit. -/
def octalValue? (c : Char) : Option Nat :=
  if 0x30 ≤ c.toNat ∧ c.toNat ≤ 0x37 then some (c.toNat - 0x30) else none

/-- The code units that encode a code point, which may be half of a surrogate pair. -/
def encodePoint (n : Nat) : List Nat :=
  if n < 0x10000 then [n]
  else [0xD800 + (n - 0x10000) / 0x400, 0xDC00 + (n - 0x10000) % 0x400]

/-- Where a reader stands in a string literal. -/
inductive Reading where
  /-- Between two characters of the string. -/
  | plain
  /-- Behind a backslash. -/
  | escape
  /-- In a hexadecimal escape, with the value so far.  So many digits follow the next. -/
  | hex (more value : Nat)
  /-- Behind the letter of a Unicode escape. -/
  | unicode
  /-- In a Unicode escape in braces, which needs a digit. -/
  | braced (value : Option Nat)
  /-- In an octal escape that takes at most so many digits more. -/
  | octal (more value : Nat)
  /-- Behind an escaped carriage return, which takes a line feed with it. -/
  | lineEnd
  /-- Behind the closing quote. -/
  | closed
  deriving DecidableEq, Repr

namespace Reading

/-- Reads a character that is not escaped. -/
def stepPlain (c : Char) : Option (Reading × List Nat) :=
  if c = '"' then some (closed, [])
  else if c = '\\' then some (escape, [])
  else if c = '\n' ∨ c = '\r' then none
  else some (plain, codeUnits c)

/-- Reads the character behind a backslash.  A character without a meaning there stands for itself,
and the end of a line for nothing. -/
def stepEscape (c : Char) : Option (Reading × List Nat) :=
  match octalValue? c with
  | some value => some (octal (if value ≤ 3 then 2 else 1) value, [])
  | none =>
    match c with
    | 'x' => some (hex 1 0, [])
    | 'u' => some (unicode, [])
    | 'b' => some (plain, [0x08])
    | 't' => some (plain, [0x09])
    | 'n' => some (plain, [0x0A])
    | 'v' => some (plain, [0x0B])
    | 'f' => some (plain, [0x0C])
    | 'r' => some (plain, [0x0D])
    | '\r' => some (lineEnd, [])
    | '\n' | '\u2028' | '\u2029' => some (plain, [])
    | c => some (plain, codeUnits c)

/-- Reads a digit of an escape. -/
def stepHex (more value : Nat) (c : Char) : Option (Reading × List Nat) :=
  (hexValue? c).map fun digit =>
    match more with
    | 0 => (plain, [16 * value + digit])
    | more + 1 => (hex more (16 * value + digit), [])

/-- Reads a digit of an octal escape, or the character behind it. -/
def stepOctal (more value : Nat) (c : Char) : Option (Reading × List Nat) :=
  match more, octalValue? c with
  | more + 1, some digit => some (octal more (8 * value + digit), [])
  | _, _ => (stepPlain c).map fun (next, units) => (next, value :: units)

/-- Reads a character of an escape in braces. -/
def stepBraced (value : Option Nat) (c : Char) : Option (Reading × List Nat) :=
  if c = '\x7d' then
    value.bind fun n => if n ≤ 0x10FFFF then some (plain, encodePoint n) else none
  else (hexValue? c).map fun digit => (braced (some (16 * value.getD 0 + digit)), [])

/-- Reads a character: where the reader stands then, and the code units that are complete. -/
def step : Reading → Char → Option (Reading × List Nat)
  | plain, c => stepPlain c
  | escape, c => stepEscape c
  | hex more value, c => stepHex more value c
  | unicode, c => if c = '\x7b' then some (braced none, []) else stepHex 3 0 c
  | braced value, c => stepBraced value c
  | octal more value, c => stepOctal more value c
  | lineEnd, c => if c = '\n' then some (plain, []) else stepPlain c
  | closed, _ => none

end Reading

/-- Code units before those that are read. -/
def emit (units : List Nat) (read : Option (List Nat × Text)) : Option (List Nat × Text) :=
  read.map fun (more, rest) => (units ++ more, rest)

/-- Reads on to the closing quote: the code units, and the text behind the quote. -/
def readBody : Reading → Text → Option (List Nat × Text)
  | .closed, cs => some ([], cs)
  | _, [] => none
  | reading, c :: cs =>
    (reading.step c).bind fun (next, units) => emit units (readBody next cs)

/-- Reads a double-quoted string literal: the code units, and the text behind it. -/
def readString : Text → Option (List Nat × Text)
  | '"' :: cs => readBody .plain cs
  | _ => none

/-- A digit behind an octal escape belongs to it if the value stays small and the digit is octal. -/
example : readString "\"a\\x41\\0018\\08\" + b".toList =
    some ([0x61, 0x41, 1, 0x38, 0, 0x38], " + b".toList) := by decide

section Emit

variable {units more : List Nat} {read : Option (List Nat × Text)}

@[simp] theorem emit_nil : emit [] read = read := by
  cases read <;> rfl

@[simp] theorem emit_emit : emit units (emit more read) = emit (units ++ more) read := by
  cases read <;> simp [emit]

@[simp] theorem emit_some {rest : Text} :
    emit units (some (more, rest)) = some (units ++ more, rest) :=
  rfl

end Emit

theorem hexValue?_hexDigit : ∀ n < 16, hexValue? (hexDigit n) = some n := by decide

/-- The first digit is the most significant one. -/
theorem hexDigits_succ (count n : Nat) :
    hexDigits (count + 1) n = hexDigit (n / 16 ^ count % 16) :: hexDigits count n := by
  induction count generalizing n with
  | zero => simp [hexDigits]
  | succ count ih =>
      have hquotient : n / 16 / 16 ^ count = n / 16 ^ (count + 1) := by
        rw [Nat.div_div_eq_div_mul, ← Nat.pow_succ']
      calc hexDigits (count + 2) n
          = hexDigits (count + 1) (n / 16) ++ [hexDigit (n % 16)] := rfl
        _ = hexDigit (n / 16 ^ (count + 1) % 16) ::
              (hexDigits count (n / 16) ++ [hexDigit (n % 16)]) := by
            rw [ih, hquotient, List.cons_append]

theorem readBody_cons {reading : Reading} (h : reading ≠ .closed) (c : Char) (cs : Text) :
    readBody reading (c :: cs) =
      (reading.step c).bind fun (next, units) => emit units (readBody next cs) := by
  cases reading with
  | closed => exact absurd rfl h
  | _ => rfl

theorem readBody_quote (cs : Text) : readBody .plain ('"' :: cs) = some ([], cs) := by
  cases cs <;> rfl

/-- Behind a backslash the meaning of a character changes. -/
theorem readBody_backslash (letter : Char) (cs : Text) :
    readBody .plain ('\\' :: letter :: cs) =
      (Reading.stepEscape letter).bind fun (next, units) => emit units (readBody next cs) := by
  simp [readBody_cons, Reading.step, Reading.stepPlain]

/-- The digits of a number are read as its value. -/
theorem readBody_hexDigits (more value n : Nat) (cs : Text) :
    readBody (.hex more value) (hexDigits (more + 1) n ++ cs) =
      emit [value * 16 ^ (more + 1) + n % 16 ^ (more + 1)] (readBody .plain cs) := by
  have hdigit (count : Nat) : hexValue? (hexDigit (n / 16 ^ count % 16)) =
      some (n / 16 ^ count % 16) := hexValue?_hexDigit _ (Nat.mod_lt _ (by decide))
  induction more generalizing value with
  | zero =>
      rw [hexDigits_succ, List.cons_append, readBody_cons (by simp), Reading.step, Reading.stepHex,
        hdigit]
      simp [hexDigits, Nat.mul_comm]
  | succ more ih =>
      rw [hexDigits_succ, List.cons_append, readBody_cons (by simp), Reading.step, Reading.stepHex,
        hdigit]
      simp only [Option.map_some, Option.bind_some, emit_nil, ih]
      rw [Nat.mod_pow_succ (x := n) (b := 16) (k := more + 1)]
      congr 2
      ring

theorem hexDigit_ne_brace : ∀ n < 16, hexDigit n ≠ '\x7b' := by decide

/-- A character below U+0100 is read from the two digits it is written with. -/
theorem readBody_escapeByte {n : Nat} (h : n < 0x100) (cs : Text) :
    readBody .plain ('\\' :: 'x' :: (hexDigits 2 n ++ cs)) = emit [n] (readBody .plain cs) := by
  have hread := readBody_hexDigits 1 0 n cs
  rw [Nat.mod_eq_of_lt (by omega), Nat.zero_mul, Nat.zero_add] at hread
  rw [readBody_backslash, ← hread]
  simp [Reading.stepEscape, octalValue?]

/-- A code unit is read from the four digits it is written with. -/
theorem readBody_escapeUnit {unit : Nat} (h : unit < 0x10000) (cs : Text) :
    readBody .plain ('\\' :: 'u' :: (hexDigits 4 unit ++ cs)) =
      emit [unit] (readBody .plain cs) := by
  have hread := readBody_hexDigits 3 0 unit cs
  rw [Nat.mod_eq_of_lt (by omega), Nat.zero_mul, Nat.zero_add] at hread
  -- A brace behind the letter would begin another escape.
  have hbrace := hexDigit_ne_brace (unit / 16 ^ 3 % 16) (Nat.mod_lt _ (by decide))
  rw [readBody_backslash, ← hread, hexDigits_succ, List.cons_append]
  generalize hexDigit (unit / 16 ^ 3 % 16) = digit at hbrace
  simp [Reading.stepEscape, octalValue?, readBody_cons, Reading.step, hbrace]

theorem readBody_escapeUnits {units : List Nat} (h : ∀ unit ∈ units, unit < 0x10000) (cs : Text) :
    readBody .plain ((units.flatMap fun unit => '\\' :: 'u' :: hexDigits 4 unit) ++ cs) =
      emit units (readBody .plain cs) := by
  induction units with
  | nil => simp
  | cons unit units ih =>
      obtain ⟨hunit, hunits⟩ := List.forall_mem_cons.1 h
      simp only [List.flatMap_cons, List.cons_append, List.append_assoc]
      rw [readBody_escapeUnit hunit, ih hunits, emit_emit, List.singleton_append]

/-- A character that stands for itself. -/
theorem readBody_plain {c : Char} (hquote : c ≠ '"') (hplain : isPlain c = true) (cs : Text) :
    readBody .plain (c :: cs) = emit (codeUnits c) (readBody .plain cs) := by
  have hne (other : Char) (hother : isPlain other = false) : c ≠ other := by
    rintro rfl
    simp [hplain] at hother
  have hslash := hne '\\' (by decide)
  have hline := hne '\n' (by decide)
  have hreturn := hne '\r' (by decide)
  simp [readBody_cons, Reading.step, Reading.stepPlain, hquote, hslash, hline, hreturn]

/-- A short escape is read as the character it is written for, but that of NUL is an octal digit. -/
theorem stepEscape_of_shortEscape? {c letter : Char} (hc : c ≠ '\x00')
    (h : shortEscape? c = some letter) :
    Reading.stepEscape letter = some (.plain, codeUnits c) := by
  have hchar {n : Nat} (hn : c.toNat = n) : c = Char.ofNat n := by
    rw [← hn, Char.ofNat_toNat]
  unfold shortEscape? at h
  split at h
  case h_2 _ hn => exact absurd (hchar hn) hc
  case h_8 => cases h
  all_goals
    rename_i hn
    cases h
    rw [hchar hn]
    rfl

/-- A character other than NUL is read as it was before it was written. -/
theorem readBody_escapeQuoted {c : Char} (hc : c ≠ '\x00') (cs : Text) :
    readBody .plain (escapeQuoted c ++ cs) = emit (codeUnits c) (readBody .plain cs) := by
  unfold escapeQuoted
  split
  case isTrue hquote =>
    obtain rfl | rfl := hquote
    all_goals exact readBody_backslash _ cs
  case isFalse hquote =>
    unfold escape
    split
    case h_1 letter hletter =>
      rw [List.cons_append, List.singleton_append, readBody_backslash,
        stepEscape_of_shortEscape? hc hletter]
      rfl
    case h_2 =>
      split
      case isTrue hplain => exact readBody_plain (fun h => hquote (.inr h)) hplain cs
      case isFalse =>
        split
        case isTrue hsmall =>
          have hunits : codeUnits c = [c.toNat] := if_pos (by omega)
          rw [hunits, ← readBody_escapeByte hsmall]
          rfl
        case isFalse => exact readBody_escapeUnits (codeUnits_lt c) cs

/-! ### NUL before a digit -/

/-- No NUL stands directly before an octal digit. -/
def NulApart (cs : Text) : Prop :=
  ∀ digit, ['\x00', digit] <:+: cs → octalValue? digit = none

theorem nulApart_nil : NulApart [] := by
  rintro digit h
  simpa using h.length_le

theorem nulApart_cons_iff {c : Char} {cs : Text} :
    NulApart (c :: cs) ↔
      (c = '\x00' → ∀ digit, cs.head? = some digit → octalValue? digit = none) ∧ NulApart cs := by
  unfold NulApart
  constructor
  · refine fun h => ⟨?_, fun digit hdigit => h digit (hdigit.trans (List.suffix_cons c cs).isInfix)⟩
    rintro rfl digit hdigit
    obtain ⟨rest, rfl⟩ := List.head?_eq_some_iff.1 hdigit
    exact h digit ⟨[], rest, rfl⟩
  · rintro ⟨hhead, htail⟩ digit hdigit
    obtain hprefix | hinfix := List.infix_cons_iff.1 hdigit
    · obtain ⟨rest, hrest⟩ := hprefix
      obtain ⟨rfl, rfl⟩ : c = '\x00' ∧ cs = digit :: rest := by simpa [eq_comm] using hrest
      exact hhead rfl digit rfl
    · exact htail digit hinfix

/-- An octal digit is written as itself. -/
theorem escapeQuoted_of_octal {c : Char} {digit : Nat} (h : octalValue? c = some digit) :
    escapeQuoted c = [c] := by
  have hrange : 0x30 ≤ c.toNat ∧ c.toNat ≤ 0x37 := by
    by_contra hrange
    simp [octalValue?, hrange] at h
  have hquote : ¬(c = '\'' ∨ c = '"') := by
    rintro (rfl | rfl) <;> revert hrange <;> decide
  have hshort : shortEscape? c = none := by
    unfold shortEscape?
    split <;> first | rfl | omega
  have hplain : isPlain c = true := by
    simp only [isPlain, Bool.and_eq_true, Bool.or_eq_true, bne_iff_ne, decide_eq_true_eq]
    omega
  simp [escapeQuoted, hquote, escape, hshort, hplain]

/-- Only an octal digit is written with an octal digit first. -/
theorem escapeQuoted_of_not_octal {c : Char} (h : octalValue? c = none) :
    ∃ first rest, escapeQuoted c = first :: rest ∧ octalValue? first = none := by
  have hslash : octalValue? '\\' = none := by decide
  unfold escapeQuoted
  split
  case isTrue => exact ⟨_, _, rfl, hslash⟩
  case isFalse =>
    unfold escape
    split
    case h_1 => exact ⟨_, _, rfl, hslash⟩
    case h_2 =>
      split
      case isTrue => exact ⟨_, _, rfl, h⟩
      case isFalse =>
        split
        case isTrue => exact ⟨_, _, rfl, hslash⟩
        case isFalse =>
          unfold codeUnits
          split <;> exact ⟨_, _, rfl, hslash⟩

/-- The reader of an octal escape goes on with an octal digit, as long as it takes one. -/
theorem readBody_octal_digit {c : Char} {digit : Nat} (h : octalValue? c = some digit)
    (more value : Nat) (cs : Text) :
    readBody (.octal (more + 1) value) (escapeQuoted c ++ cs) =
      readBody (.octal more (8 * value + digit)) cs := by
  simp [escapeQuoted_of_octal h, readBody_cons, Reading.step, Reading.stepOctal, h]

theorem readBody_octal_end {more value : Nat} {c : Char} (h : more = 0 ∨ octalValue? c = none)
    (cs : Text) :
    readBody (.octal more value) (c :: cs) = emit [value] (readBody .plain (c :: cs)) := by
  have hstep : Reading.stepOctal more value c =
      (Reading.stepPlain c).map fun (next, units) => (next, value :: units) := by
    unfold Reading.stepOctal
    split
    case h_1 hc => simp [hc] at h
    case h_2 => rfl
  simp only [readBody_cons, ne_eq, reduceCtorEq, not_false_eq_true, Reading.step, hstep]
  cases Reading.stepPlain c with
  | none => rfl
  | some stepped => simp

/-- An octal escape that is full, or that no digit follows, has its value. -/
theorem readBody_octal_stop {more value : Nat} {cs : Text}
    (h : more = 0 ∨ ∀ digit, cs.head? = some digit → octalValue? digit = none) (rest : Text) :
    readBody (.octal more value) (quotedBody cs ++ '"' :: rest) =
      emit [value] (readBody .plain (quotedBody cs ++ '"' :: rest)) := by
  cases cs with
  | nil => exact readBody_octal_end (.inr (by decide)) rest
  | cons c cs =>
      rw [quotedBody_cons, List.append_assoc]
      cases hc : octalValue? c with
      | none =>
          obtain ⟨first, tail, heq, hfirst⟩ := escapeQuoted_of_not_octal hc
          rw [heq]
          exact readBody_octal_end (.inr hfirst) _
      | some digit =>
          rw [escapeQuoted_of_octal hc]
          exact readBody_octal_end (h.imp_right fun h => h c rfl) _

theorem readBody_escapeQuoted_nul (cs : Text) :
    readBody .plain (escapeQuoted '\x00' ++ cs) = readBody (.octal 2 0) cs := by
  change readBody .plain ('\\' :: '0' :: cs) = _
  rw [readBody_backslash]
  exact emit_nil

/-- The rest of a literal is read to its closing quote, as at most so many code units. -/
def ReadsWithin (reading : Reading) (cs : Text) (bound : Nat) : Prop :=
  ∀ rest, ∃ units, readBody reading (quotedBody cs ++ '"' :: rest) = some (units, rest) ∧
    units.length ≤ bound

/-- Between two characters the reader may still be in the escape of an earlier NUL. -/
theorem ReadsWithin.octal {more value bound : Nat} {cs : Text}
    (hend : more = 0 ∨ ∀ digit, cs.head? = some digit → octalValue? digit = none)
    (hplain : ReadsWithin .plain cs bound) :
    ReadsWithin (.octal more value) cs (bound + 1) := by
  intro rest
  obtain ⟨units, hread, hlength⟩ := hplain rest
  refine ⟨value :: units, ?_, by simpa using hlength⟩
  rw [readBody_octal_stop hend, hread, emit_some, List.singleton_append]

/-- A literal never denotes more than the text: digits disappear in octal escapes, and nothing is
added. -/
theorem readsWithin (cs : Text) :
    ReadsWithin .plain cs (utf16 cs).length ∧
      ∀ more value, ReadsWithin (.octal more value) cs ((utf16 cs).length + 1) := by
  induction cs with
  | nil =>
      have hplain : ReadsWithin .plain [] 0 := fun rest => ⟨[], readBody_quote rest, le_refl 0⟩
      exact ⟨hplain, fun more value => hplain.octal (.inr (by simp))⟩
  | cons c cs ih =>
      obtain ⟨ihplain, ihoctal⟩ := ih
      have hpos := length_codeUnits_pos c
      have hplain : ReadsWithin .plain (c :: cs) (utf16 (c :: cs)).length := by
        intro rest
        rw [quotedBody_cons, List.append_assoc, utf16_cons, List.length_append]
        by_cases hc : c = '\x00'
        · subst hc
          obtain ⟨units, hread, hlength⟩ := ihoctal 2 0 rest
          exact ⟨units, by rw [readBody_escapeQuoted_nul, hread], by omega⟩
        · obtain ⟨units, hread, hlength⟩ := ihplain rest
          refine ⟨codeUnits c ++ units, by rw [readBody_escapeQuoted hc, hread]; rfl, ?_⟩
          simpa using hlength
      refine ⟨hplain, fun more value => ?_⟩
      match more, hdigit : octalValue? c with
      | 0, _ => exact hplain.octal (.inl rfl)
      | more + 1, none => exact hplain.octal (.inr (by simpa using hdigit))
      | more + 1, some digit =>
          intro rest
          obtain ⟨units, hread, hlength⟩ := ihoctal more (8 * value + digit) rest
          rw [quotedBody_cons, List.append_assoc, readBody_octal_digit hdigit]
          exact ⟨units, hread, by rw [utf16_cons, List.length_append]; omega⟩

theorem readBody_quotedBody (cs rest : Text) :
    ∃ units, readBody .plain (quotedBody cs ++ '"' :: rest) = some (units, rest) ∧
      (units = utf16 cs ↔ NulApart cs) := by
  induction cs with
  | nil => exact ⟨[], readBody_quote rest, by simp [nulApart_nil]⟩
  | cons c cs ih =>
      obtain ⟨units, hread, hunits⟩ := ih
      rw [quotedBody_cons, List.append_assoc, nulApart_cons_iff, utf16_cons]
      by_cases hc : c = '\x00'
      · subst hc
        rw [readBody_escapeQuoted_nul]
        by_cases hapart : ∀ digit, cs.head? = some digit → octalValue? digit = none
        · rw [readBody_octal_stop (.inr hapart), hread]
          have hnul : codeUnits '\x00' = [0] := rfl
          exact ⟨0 :: units, rfl, by simp [hnul, hunits, and_iff_right hapart]⟩
        · -- The digit is taken into the escape, so a unit is missing in the end.
          obtain ⟨digit, hhead, hoctal⟩ :
              ∃ digit, cs.head? = some digit ∧ octalValue? digit ≠ none := by
            simpa using hapart
          obtain ⟨tail, rfl⟩ := List.head?_eq_some_iff.1 hhead
          obtain ⟨value, hvalue⟩ := Option.ne_none_iff_exists'.1 hoctal
          obtain ⟨read, hread, hlength⟩ := (readsWithin tail).2 1 (8 * 0 + value) rest
          rw [quotedBody_cons, List.append_assoc, readBody_octal_digit hvalue]
          refine ⟨read, hread, iff_of_false ?_ fun h => hoctal (h.1 rfl digit hhead)⟩
          rintro rfl
          have hnul := length_codeUnits_pos '\x00'
          have hpos := length_codeUnits_pos digit
          simp only [utf16_cons, List.length_append] at hlength
          omega
      · rw [readBody_escapeQuoted hc, hread]
        exact ⟨codeUnits c ++ units, rfl, by simp [hc, hunits]⟩

/-- A string written as a literal is read to the closing quote.  The literal denotes the string if
and only if no NUL stands directly before an octal digit: the escape of NUL would take the digit. -/
theorem readString_quote (s : String) (rest : Text) :
    ∃ units, readString ((quote s).toList ++ rest) = some (units, rest) ∧
      (units = utf16 s.toList ↔
        ∀ digit, ['\x00', digit] <:+: s.toList → octalValue? digit = none) := by
  obtain ⟨units, hread, hunits⟩ := readBody_quotedBody s.toList rest
  refine ⟨units, ?_, hunits⟩
  rw [← hread]
  simp [quote, quoted, readString]

/-- Behind NUL the digit one is lost: the literal denotes the character U+0001. -/
theorem not_reads_nul_digit :
    readString (quote "\x001").toList ≠ some (utf16 "\x001".toList, []) := by
  decide

end Packrat.JavaScript
