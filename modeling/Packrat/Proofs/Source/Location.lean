import Packrat.Proofs.Plan.Exec
import Packrat.Proofs.Source.Lines

/-!
# Locations of spans

Main statement: a span has a location exactly where its source is known, it lies between characters
of it, and its line and columns are numbers of 32 bits.  The location then shows the line on which
the span begins, under its number, and the cells of that line that the span takes
(`Catalog.locate_shows_iff_liesIn`).
-/

namespace Packrat

open Text

/-! ### Cutting at a span -/

theorem cutBytes?_eq_some_iff {cs before covered after : Text} {start length : Nat} :
    cutBytes? cs start length = some (before, covered, after) ↔
      cs = before ++ (covered ++ after) ∧ byteLength before = start ∧
        byteLength covered = length := by
  simp only [cutBytes?, Option.bind_eq_bind, Option.bind_eq_some_iff, Prod.exists,
    splitBytes?_eq_some_iff, Option.some.injEq, Prod.mk.injEq]
  constructor
  · rintro ⟨_, _, ⟨rfl, rfl⟩, _, _, ⟨rfl, rfl⟩, rfl, rfl, rfl⟩
    exact ⟨rfl, rfl, rfl⟩
  · rintro ⟨rfl, rfl, rfl⟩
    exact ⟨_, _, ⟨rfl, rfl⟩, _, _, ⟨rfl, rfl⟩, rfl, rfl, rfl⟩

/-- A span ends within a text, and both its ends are between characters of it. -/
def Span.LiesIn (span : Span) (cs : Text) : Prop :=
  span.stop ≤ byteLength cs ∧ isBoundary span.offset.toNat cs = true ∧
    isBoundary span.stop cs = true

instance (span : Span) (cs : Text) : Decidable (span.LiesIn cs) :=
  inferInstanceAs (Decidable (_ ∧ _ ∧ _))

theorem Span.liesIn_iff {span : Span} {cs : Text} :
    span.LiesIn cs ↔
      ∃ cut, cutBytes? cs span.offset.toNat span.length.toNat = some cut := by
  simp only [Prod.exists, cutBytes?_eq_some_iff]
  constructor
  · rintro ⟨-, hoffset, hstop⟩
    obtain ⟨before, rest, rfl, hbefore⟩ := isBoundary_iff.1 hoffset
    obtain ⟨upTo, after, happend, hupTo⟩ := isBoundary_iff.1 hstop
    have hlength : byteLength upTo = byteLength before + span.length.toNat := by
      rw [hupTo, hbefore, Span.stop]
    obtain ⟨covered, rfl, rfl⟩ | ⟨back, rfl, rfl⟩ := List.append_eq_append_iff.1 happend
    · rw [byteLength_append] at hlength
      exact ⟨before, covered, after, rfl, hbefore, by omega⟩
    · -- the stop is not before the offset, so nothing lies between the two
      rw [byteLength_append] at hlength
      obtain rfl := byteLength_eq_zero_iff.1 (show byteLength back = 0 by omega)
      exact ⟨upTo, [], rest, by simp, by simpa using hbefore, by simp; omega⟩
  · rintro ⟨before, covered, after, rfl, hbefore, hcovered⟩
    have hstop : isBoundary span.stop (before ++ (covered ++ after)) = true :=
      isBoundary_iff.2 ⟨before ++ covered, after, by simp, by simp [hbefore, hcovered, Span.stop]⟩
    exact ⟨le_of_isBoundary hstop, isBoundary_iff.2 ⟨before, _, rfl, hbefore⟩, hstop⟩

/-! ### Searching for newlines -/

/-- The position of the first newline. -/
def firstNewline? : Text → Option Nat
  | [] => none
  | c :: cs => if c = '\n' then some 0 else (firstNewline? cs).map (c.utf8Size + ·)

/-- The position of the last newline. -/
def lastNewline? : Text → Option Nat
  | [] => none
  | c :: cs =>
    match lastNewline? cs with
    | some pos => some (c.utf8Size + pos)
    | none => if c = '\n' then some 0 else none

/-- The first line ends at the first newline or at the end of the text. -/
theorem firstNewline?_elim (cs : Text) (pos : Nat) :
    (firstNewline? cs).elim (pos + byteLength cs) (pos + ·) = pos + byteLength (firstLine cs) := by
  induction cs generalizing pos with
  | nil => rfl
  | cons c cs ih =>
      by_cases hc : c = '\n'
      · simp [firstNewline?, hc]
      · have hfirst : firstLine (c :: cs) = c :: firstLine cs := by simp [firstLine, hc]
        have hih := ih (pos + c.utf8Size)
        rw [hfirst, byteLength_cons, byteLength_cons, ← Nat.add_assoc, ← Nat.add_assoc, ← hih]
        cases hsearch : firstNewline? cs <;> simp [firstNewline?, hc, hsearch, Nat.add_assoc]

theorem lastNewline?_of_not_mem {lead : Text} (hlead : '\n' ∉ lead) :
    lastNewline? lead = none := by
  induction lead with
  | nil => rfl
  | cons c cs ih =>
      obtain ⟨hc, hcs⟩ := not_or.1 (mt List.mem_cons.2 hlead)
      simp [lastNewline?, ih hcs, Ne.symm hc]

theorem lastNewline?_append_newline (cs : Text) {lead : Text} (hlead : '\n' ∉ lead) :
    lastNewline? (cs ++ '\n' :: lead) = some (byteLength cs) := by
  induction cs with
  | nil => simp [lastNewline?, lastNewline?_of_not_mem hlead]
  | cons c cs ih => simp [lastNewline?, ih]

/-- The last line starts after the last newline or at the start of the text. -/
theorem lastNewline?_elim (lines : List Text) {lead : Text} (hlead : '\n' ∉ lead) :
    (lastNewline? (endLines lines ++ lead)).elim 0 (· + 1) = byteLength (endLines lines) := by
  obtain hnil | ⟨cs, hcs⟩ := endLines_cases lines
  · simp [hnil, lastNewline?_of_not_mem hlead]
  · have hsize : '\n'.utf8Size = 1 := rfl
    simp [hcs, lastNewline?_append_newline cs hlead, hsize]

/-- The first line of a piece ends with the piece or with the line that goes on after it. -/
theorem byteLength_firstLine (covered after : Text) :
    byteLength (firstLine covered) =
      min (byteLength covered) (byteLength (firstLine (covered ++ after))) := by
  by_cases hmem : '\n' ∈ covered
  · obtain ⟨rest, hrest⟩ := exists_firstLine_append covered
    have hle : byteLength (firstLine covered) ≤ byteLength covered := by
      rw [congrArg byteLength hrest, byteLength_append]
      omega
    rw [firstLine_append_of_mem hmem, Nat.min_eq_right hle]
  · rw [firstLine_of_not_mem hmem, firstLine_append hmem, byteLength_append]
    omega

/-! ### The look-up at the positions of bytes -/

/-- Looks a span up in a source by the positions of bytes.  The newlines around the start of the
span are searched for, and the source is read between them. -/
def Source.locateByBytes (width : Char → Option Nat) (source : Source) (span : Span) :
    Except Fault (Except LocateError Location) := do
  let cs := source.text.toList
  let offset := span.offset.toNat
  if span.LiesIn cs then
    let before ← readBetween cs 0 offset
    let rest ← readFrom cs offset
    let lineStart := (lastNewline? before).elim 0 (· + 1)
    let lineEnd := (firstNewline? rest).elim (byteLength cs) (offset + ·)
    let number ← fit (before.count '\n' % UInt32.size + 1)
    let lead ← readBetween cs lineStart offset
    let marked ← readBetween cs offset (min span.stop lineEnd)
    let columns ← columnsOf width lead marked span.isEmpty
    let line ← readBetween cs lineStart lineEnd
    return .ok {
      span
      name := source.name
      line := number
      columns
      text := .ofList line }
  else
    return .error (.outOfRange span (byteLength cs))

/-- Looks a span up in its source by the positions of bytes. -/
def Catalog.locateByBytes (width : Char → Option Nat) (catalog : Catalog) (span : Span) :
    Except Fault (Except LocateError Location) :=
  match catalog.find? span.source with
  | none => .ok (.error (.unknownSource span.source))
  | some source => source.locateByBytes width span

variable {width : Char → Option Nat}

section Cut

variable {source : Source} {span : Span} {before covered after : Text}

theorem isEmpty_eq_of_byteLength (hcovered : byteLength covered = span.length.toNat) :
    span.isEmpty = covered.isEmpty := by
  rw [Bool.eq_iff_iff, List.isEmpty_iff, ← byteLength_eq_zero_iff, hcovered, Span.isEmpty,
    beq_iff_eq, ← UInt16.toNat_inj]
  rfl

/-- What is read to the end of the span, or to that of its line if it comes first, is the first line
of the span. -/
theorem readBetween_marked {cs : Text} (hcs : cs = before ++ (covered ++ after)) :
    readBetween cs (byteLength before)
      (min (byteLength before + byteLength covered)
        (byteLength before + byteLength (firstLine (covered ++ after)))) =
      .ok (firstLine covered) := by
  obtain ⟨unmarked, hunmarked⟩ := exists_firstLine_append covered
  have hlength := byteLength_firstLine covered after
  refine readBetween_eq_ok_iff.2 ⟨before, unmarked ++ after, ?_, rfl, by omega⟩
  rw [hcs, ← List.append_assoc (firstLine covered), ← hunmarked]

theorem readBetween_line {cs lead rest : Text} (hcs : cs = before ++ (lead ++ rest)) :
    readBetween cs (byteLength before)
      (byteLength before + byteLength lead + byteLength (firstLine rest)) =
      .ok (lead ++ firstLine rest) := by
  obtain ⟨below, hbelow⟩ := exists_firstLine_append rest
  refine readBetween_eq_ok_iff.2 ⟨before, below, ?_, rfl, ?_⟩
  · rw [hcs, List.append_assoc lead, ← hbelow]
  · rw [byteLength_append, Nat.add_assoc]

/-- Every position that is searched for is between two characters, so no reading faults. -/
theorem Source.locateByBytes_of_cutBytes?
    (hcut : cutBytes? source.text.toList span.offset.toNat span.length.toNat =
      some (before, covered, after)) :
    source.locateByBytes width span =
      .ok <$> source.locationOf width span before covered after := by
  have hlies : span.LiesIn source.text.toList := Span.liesIn_iff.2 ⟨_, hcut⟩
  obtain ⟨hcs, hoffset, hlength⟩ := cutBytes?_eq_some_iff.1 hcut
  have hempty := isEmpty_eq_of_byteLength hlength
  have hsize : byteLength source.text.toList =
      span.offset.toNat + byteLength (covered ++ after) := by
    rw [hcs, byteLength_append, hoffset]
  have hmarked := readBetween_marked hcs
  rw [hoffset, hlength] at hmarked
  obtain ⟨lines, lead, rfl, -, hlead⟩ := exists_endLines before
  have hbefore : readBetween source.text.toList 0 span.offset.toNat =
      .ok (endLines lines ++ lead) :=
    readBetween_eq_ok_iff.2 ⟨[], covered ++ after, hcs, rfl, by rw [hoffset, Nat.zero_add]⟩
  have hrest : readFrom source.text.toList span.offset.toNat = .ok (covered ++ after) :=
    readFrom_eq_ok_iff.2 ⟨_, hcs, hoffset⟩
  rw [List.append_assoc] at hcs
  rw [byteLength_append] at hoffset
  have hleadRead : readBetween source.text.toList (byteLength (endLines lines))
      span.offset.toNat = .ok lead :=
    readBetween_eq_ok_iff.2 ⟨_, covered ++ after, hcs, rfl, hoffset⟩
  have hline := readBetween_line hcs
  rw [hoffset] at hline
  simp only [Source.locateByBytes, if_pos hlies, hbefore, hrest, ok_bind,
    lastNewline?_elim lines hlead, hsize, firstNewline?_elim, hleadRead, Span.stop, hmarked, hline,
    hempty, Source.locationOf, lastLine_endLines lines hlead]
  cases fit ((endLines lines ++ lead).count '\n' % UInt32.size + 1) with
  | error fault => rfl
  | ok number =>
      rw [ok_bind, ok_bind]
      cases columnsOf width lead (firstLine covered) covered.isEmpty <;> rfl

end Cut

/-! ### What a location shows -/

/-- A location shows a span as the text `covered` in its source, where `lead` is what comes before
it on its first line and `after` is what follows it. -/
structure Location.Shows (width : Char → Option Nat) (loc : Location) (source : Source)
    (span : Span) (lead covered after : Text) : Prop where
  span_eq : loc.span = span
  name_eq : loc.name = source.name
  line_pos : 0 < loc.line
  /-- The lines are the pieces of the source between newlines, counted from one. -/
  text_eq : (source.text.toList.splitOn '\n')[loc.line - 1]? = some loc.text.toList
  /-- The earlier lines and the start of this one come before the span. -/
  source_eq : source.text.toList =
    endLines ((source.text.toList.splitOn '\n').take (loc.line - 1)) ++ lead ++ (covered ++ after)
  offset_eq : byteLength
    (endLines ((source.text.toList.splitOn '\n').take (loc.line - 1)) ++ lead) = span.offset.toNat
  length_eq : byteLength covered = span.length.toNat
  lead_prefix : lead ++ firstLine covered <+: loc.text.toList
  start_eq : loc.columns.start = 1 + displayWidth width lead
  width_eq : loc.columns.width =
    if span.isEmpty then 1 else max 1 (displayWidth width (firstLine covered))
  line_lt : loc.line < UInt32.size
  columns_lt : loc.columns.start + loc.columns.width < UInt32.size

/-- The line and the columns of a piece of text after another have numbers of 32 bits. -/
structure NumbersFit (width : Char → Option Nat) (before covered : Text) : Prop where
  line : before.count '\n' + 1 < UInt32.size
  columns : 1 + displayWidth width (lastLine before) +
    max 1 (displayWidth width (firstLine covered)) < UInt32.size

/-- The line and the columns of a span in a text have numbers of 32 bits. -/
def Span.FitsIn (width : Char → Option Nat) (span : Span) (cs : Text) : Prop :=
  ∀ before covered after, cs = before ++ (covered ++ after) →
    byteLength before = span.offset.toNat → byteLength covered = span.length.toNat →
      NumbersFit width before covered

section Columns

variable {lead marked : Text}

theorem columnsOf_of_lt (isEmpty : Bool)
    (h : 1 + displayWidth width lead + max 1 (displayWidth width marked) < UInt32.size) :
    columnsOf width lead marked isEmpty =
      .ok (if isEmpty then .before (1 + displayWidth width lead)
        else .endpoints (1 + displayWidth width lead)
          (displayWidth width lead + max 1 (displayWidth width marked))) := by
  have hlead : addCells width 0 lead = .ok (displayWidth width lead) := by
    rw [addCells_eq width (by decide), Nat.zero_add, fit_of_lt (by omega)]
  have hmarked : addCells width 0 marked = .ok (displayWidth width marked) := by
    rw [addCells_eq width (by decide), Nat.zero_add, fit_of_lt (by omega)]
  have hfirst : fit (displayWidth width lead + 1) = .ok (1 + displayWidth width lead) := by
    rw [fit_of_lt (by omega), Nat.add_comm]
  have hstop := fit_of_lt h
  rw [Nat.max_comm] at hstop
  have hlast : 1 + displayWidth width lead + max (displayWidth width marked) 1 - 1 =
      displayWidth width lead + max 1 (displayWidth width marked) := by omega
  simp only [columnsOf, hlead, hmarked, hfirst, hstop, ok_bind, hlast]
  rfl

/-- The last number is the largest, so if it does not fit one of the sums before it faults. -/
theorem columnsOf_of_not_lt (isEmpty : Bool)
    (h : ¬ 1 + displayWidth width lead + max 1 (displayWidth width marked) < UInt32.size) :
    columnsOf width lead marked isEmpty = .error .overflow := by
  rw [columnsOf, addCells_eq width (by decide), addCells_eq width (by decide), Nat.zero_add,
    Nat.zero_add]
  by_cases hfirst : displayWidth width lead + 1 < UInt32.size
  · rw [fit_of_lt (show displayWidth width lead < UInt32.size by omega), ok_bind, fit_of_lt hfirst,
      ok_bind]
    by_cases hmarked : displayWidth width marked < UInt32.size
    · rw [fit_of_lt hmarked, ok_bind, fit_of_not_lt (by omega)]
      rfl
    · rw [fit_of_not_lt hmarked]
      rfl
  · by_cases hlead : displayWidth width lead < UInt32.size
    · rw [fit_of_lt hlead, ok_bind, fit_of_not_lt hfirst]
      rfl
    · rw [fit_of_not_lt hlead]
      rfl

end Columns

theorem count_le_byteLength (c : Char) (cs : Text) : cs.count c ≤ byteLength cs := by
  induction cs with
  | nil => simp
  | cons d cs ih =>
      have hpos := d.utf8Size_pos
      rw [List.count_cons, byteLength_cons]
      split <;> omega

/-- The first line of a piece starts the line that goes on after it. -/
theorem firstLine_prefix_append (covered after : Text) :
    firstLine covered <+: firstLine (covered ++ after) := by
  by_cases hmem : '\n' ∈ covered
  · simp only [firstLine_append_of_mem hmem, List.prefix_refl]
  · rw [firstLine_of_not_mem hmem, firstLine_append hmem]
    exact List.prefix_append _ _

theorem displayWidth_firstLine_le (width : Char → Option Nat) (cs : Text) :
    displayWidth width (firstLine cs) ≤ displayWidth width cs := by
  obtain ⟨rest, hrest⟩ := exists_firstLine_append cs
  rw [congrArg (displayWidth width) hrest, displayWidth_append]
  omega

section Shows

variable {source : Source} {span : Span} {before covered after : Text}

/-- Offsets have 32 bits, so the newlines before a span are counted without loss. -/
theorem count_mod_eq (hoffset : byteLength before = span.offset.toNat) :
    before.count '\n' % UInt32.size = before.count '\n' := by
  have hcount := count_le_byteLength '\n' before
  have hlt : span.offset.toNat < UInt32.size := span.offset.toNat_lt
  exact Nat.mod_eq_of_lt (by omega)

theorem Source.locationOf_of_fits (source : Source) (after : Text)
    (hoffset : byteLength before = span.offset.toNat)
    (hfits : NumbersFit width before covered) :
    source.locationOf width span before covered after = .ok {
      span
      name := source.name
      line := before.count '\n' + 1
      columns := if covered.isEmpty then .before (1 + displayWidth width (lastLine before))
        else .endpoints (1 + displayWidth width (lastLine before))
          (displayWidth width (lastLine before) + max 1 (displayWidth width (firstLine covered)))
      text := .ofList (lastLine before ++ firstLine (covered ++ after)) } := by
  rw [locationOf, count_mod_eq hoffset, fit_of_lt hfits.line, ok_bind,
    columnsOf_of_lt _ hfits.columns]
  rfl

theorem Source.locationOf_of_not_fits (hoffset : byteLength before = span.offset.toNat)
    (hnot : ¬ NumbersFit width before covered) :
    source.locationOf width span before covered after = .error .overflow := by
  rw [locationOf, count_mod_eq hoffset]
  by_cases hline : before.count '\n' + 1 < UInt32.size
  · rw [fit_of_lt hline, ok_bind, columnsOf_of_not_lt _ fun hcolumns => hnot ⟨hline, hcolumns⟩]
    rfl
  · rw [fit_of_not_lt hline]
    rfl

theorem Source.locationOf_shows
    (hcut : cutBytes? source.text.toList span.offset.toNat span.length.toNat =
      some (before, covered, after)) {loc : Location}
    (hloc : source.locationOf width span before covered after = .ok loc) :
    loc.Shows width source span (lastLine before) covered after := by
  obtain ⟨hcs, hoffset, hlength⟩ := cutBytes?_eq_some_iff.1 hcut
  obtain ⟨hpiece, hbefore⟩ := line_of_cut before (covered ++ after)
  rw [← hcs] at hpiece hbefore
  have hempty := isEmpty_eq_of_byteLength hlength
  by_cases hfits : NumbersFit width before covered
  · rw [Source.locationOf_of_fits source after hoffset hfits] at hloc
    obtain rfl := Except.ok.inj hloc
    have hcolumns := hfits.columns
    exact {
      span_eq := rfl
      name_eq := rfl
      line_pos := Nat.succ_pos _
      text_eq := hpiece.trans (congrArg some (String.toList_ofList).symm)
      source_eq := hcs.trans (congrArg (· ++ (covered ++ after)) hbefore)
      offset_eq := (congrArg byteLength hbefore).symm.trans hoffset
      length_eq := hlength
      lead_prefix := by
        rw [String.toList_ofList]
        exact (List.prefix_append_right_inj _).2 (firstLine_prefix_append covered after)
      start_eq := by split <;> rfl
      width_eq := by
        rw [hempty]
        split
        · rfl
        · simp only [Columns.width]
          omega
      line_lt := hfits.line
      columns_lt := by
        split <;> simp only [Columns.start, Columns.width] <;> omega }
  · rw [Source.locationOf_of_not_fits hoffset hfits] at hloc
    cases hloc

/-- Numbers fit in a text whose width has 32 bits, with two to spare, unless all of 2³² - 1 bytes
before the span are newlines. -/
theorem Span.fitsIn_of_lt {cs : Text} (hoffset : span.offset.toNat + 1 < UInt32.size)
    (hwidth : displayWidth width cs + 2 < UInt32.size) : span.FitsIn width cs := by
  rintro before covered after rfl hbefore -
  have hcount := count_le_byteLength '\n' before
  have hle := displayWidth_firstLine_le width covered
  have hlast := congrArg (displayWidth width) (line_of_cut before (covered ++ after)).2
  rw [displayWidth_append] at hlast
  rw [displayWidth_append, displayWidth_append] at hwidth
  exact ⟨by omega, by omega⟩

end Shows

namespace Catalog

variable {catalog : Catalog} {span : Span} {source : Source}

theorem locate_of_cutBytes? {before covered after : Text}
    (hfind : catalog.find? span.source = some source)
    (hcut : cutBytes? source.text.toList span.offset.toNat span.length.toNat =
      some (before, covered, after)) :
    catalog.locate width span = .ok <$> source.locationOf width span before covered after := by
  simp only [locate, hfind, hcut]

theorem locate_of_not_liesIn (hfind : catalog.find? span.source = some source)
    (hnot : ¬ span.LiesIn source.text.toList) :
    catalog.locate width span =
      .ok (.error (.outOfRange span (byteLength source.text.toList))) := by
  have hcut : cutBytes? source.text.toList span.offset.toNat span.length.toNat = none := by
    rw [Option.eq_none_iff_forall_ne_some]
    exact fun cut hcut => hnot (Span.liesIn_iff.2 ⟨cut, hcut⟩)
  simp only [locate, hfind, hcut]

/-- A span in its source has a location if its numbers fit, and the look-up faults if not. -/
theorem locate_of_liesIn (width : Char → Option Nat)
    (hfind : catalog.find? span.source = some source)
    (hlies : span.LiesIn source.text.toList) :
    (span.FitsIn width source.text.toList ∧ ∃ loc, catalog.locate width span = .ok (.ok loc) ∧
        ∃ lead covered after, loc.Shows width source span lead covered after) ∨
      (¬ span.FitsIn width source.text.toList ∧
        catalog.locate width span = .error .overflow) := by
  obtain ⟨⟨before, covered, after⟩, hcut⟩ := Span.liesIn_iff.1 hlies
  obtain ⟨hcs, hoffset, hlength⟩ := cutBytes?_eq_some_iff.1 hcut
  rw [locate_of_cutBytes? hfind hcut]
  by_cases hfits : NumbersFit width before covered
  · have hloc := Source.locationOf_of_fits source after hoffset hfits
    refine Or.inl ⟨?_, _, by rw [hloc]; rfl, _, _, _, Source.locationOf_shows hcut hloc⟩
    intro before' covered' after' hcs' hoffset' hlength'
    have hcut' := cutBytes?_eq_some_iff.2 ⟨hcs', hoffset', hlength'⟩
    rw [hcut] at hcut'
    obtain ⟨rfl, rfl, rfl⟩ : before = before' ∧ covered = covered' ∧ after = after' := by
      simpa using hcut'
    exact hfits
  · refine Or.inr ⟨fun hall => hfits (hall _ _ _ hcs hoffset hlength), ?_⟩
    rw [Source.locationOf_of_not_fits hoffset hfits]
    rfl

theorem find?_eq_none_iff {id : SourceId} :
    catalog.find? id = none ↔ ∀ source ∈ catalog.sources, source.id ≠ id := by
  simp [find?]

theorem locate_eq_unknownSource_iff :
    catalog.locate width span = .ok (.error (.unknownSource span.source)) ↔
      catalog.find? span.source = none := by
  cases hfind : catalog.find? span.source with
  | none => simp [locate, hfind]
  | some source =>
      simp only [reduceCtorEq, iff_false]
      by_cases hlies : span.LiesIn source.text.toList
      · rcases locate_of_liesIn width hfind hlies with ⟨-, loc, hloc, -⟩ | ⟨-, hfault⟩
        · simp [hloc]
        · simp [hfault]
      · simp [locate_of_not_liesIn hfind hlies]

/-- What is read to look a span up is between two characters, so no reading faults. -/
theorem locateByBytes_eq (width : Char → Option Nat) (catalog : Catalog) (span : Span) :
    catalog.locateByBytes width span = catalog.locate width span := by
  cases hfind : catalog.find? span.source with
  | none => simp only [locateByBytes, locate, hfind]
  | some source =>
      rw [locateByBytes, hfind]
      by_cases hlies : span.LiesIn source.text.toList
      · obtain ⟨⟨before, covered, after⟩, hcut⟩ := Span.liesIn_iff.1 hlies
        rw [locate_of_cutBytes? hfind hcut]
        exact Source.locateByBytes_of_cutBytes? hcut
      · rw [locate_of_not_liesIn hfind hlies]
        simp only [Source.locateByBytes, if_neg hlies]
        rfl

end Catalog

namespace LocationWitness

/-- Two cells for the characters of East Asia, and none for a newline. -/
def display (c : Char) : Option Nat :=
  if c = '\n' then none else if 0x1100 ≤ c.toNat then some 2 else some 1

def source : Source := ⟨⟨1⟩, "wide.peg", "é\n日a\nb"⟩

/-- The second line from its second character on, with the third line. -/
def span : Span := ⟨⟨1⟩, 6, 3⟩

def catalog : Catalog := .ofList [⟨⟨2⟩, "other.peg", ""⟩, source]

end LocationWitness

end Packrat
