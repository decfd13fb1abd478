import Packrat.Source.Catalog

/-!
# Lines of a text

A text is a number of lines that end with a newline, and a last piece without one.  Main statement:
where a text is cut, the newlines before the cut number the piece that is cut, and that piece starts
with the end of what comes before the cut and goes on with the start of what follows it
(`line_of_cut`).
-/

namespace Packrat

open Text

/-- Lines, each with the newline that ends it. -/
def endLines (lines : List Text) : Text :=
  lines.flatMap (· ++ ['\n'])

@[simp] theorem endLines_cons (line : Text) (lines : List Text) :
    endLines (line :: lines) = line ++ '\n' :: endLines lines := by
  simp [endLines]

section Lines

variable {lines : List Text} {lead rest cs : Text}

theorem exists_endLines (cs : Text) :
    ∃ lines lead, cs = endLines lines ++ lead ∧ (∀ line ∈ lines, '\n' ∉ line) ∧ '\n' ∉ lead := by
  induction cs with
  | nil => exact ⟨[], [], rfl, by simp, by simp⟩
  | cons c cs ih =>
      obtain ⟨lines, lead, rfl, hlines, hlead⟩ := ih
      by_cases hc : c = '\n'
      · subst hc
        exact ⟨[] :: lines, lead, rfl, List.forall_mem_cons.2 ⟨by simp, hlines⟩, hlead⟩
      · cases lines with
        | nil =>
            refine ⟨[], c :: lead, rfl, by simp, ?_⟩
            simp [hlead, Ne.symm hc]
        | cons line lines =>
            obtain ⟨hline, hlines⟩ := List.forall_mem_cons.1 hlines
            refine ⟨(c :: line) :: lines, lead, by simp, List.forall_mem_cons.2 ⟨?_, hlines⟩, hlead⟩
            simp [hline, Ne.symm hc]

theorem count_endLines (hlines : ∀ line ∈ lines, '\n' ∉ line) :
    (endLines lines).count '\n' = lines.length := by
  induction lines with
  | nil => rfl
  | cons line lines ih =>
      obtain ⟨hline, hlines⟩ := List.forall_mem_cons.1 hlines
      simp [List.count_eq_zero.2 hline, ih hlines]

theorem splitOn_endLines (hlines : ∀ line ∈ lines, '\n' ∉ line) (rest : Text) :
    (endLines lines ++ rest).splitOn '\n' = lines ++ rest.splitOn '\n' := by
  induction lines with
  | nil => rfl
  | cons line lines ih =>
      obtain ⟨hline, hlines⟩ := List.forall_mem_cons.1 hlines
      rw [endLines_cons, List.append_assoc, List.cons_append,
        List.splitOn_append_cons_self_of_not_mem hline, ih hlines, List.cons_append]

@[simp] theorem firstLine_newline (cs : Text) : firstLine ('\n' :: cs) = [] := rfl

theorem firstLine_append (hlead : '\n' ∉ lead) (rest : Text) :
    firstLine (lead ++ rest) = lead ++ firstLine rest := by
  apply List.takeWhile_append_of_pos
  intro c hc
  simpa using ne_of_mem_of_not_mem hc hlead

theorem firstLine_of_not_mem (hlead : '\n' ∉ lead) : firstLine lead = lead := by
  have hfirst := firstLine_append hlead []
  rwa [List.append_nil, show firstLine [] = [] from rfl, List.append_nil] at hfirst

theorem firstLine_append_of_mem (hmem : '\n' ∈ cs) (rest : Text) :
    firstLine (cs ++ rest) = firstLine cs := by
  obtain ⟨lead, after, rfl, hlead⟩ := List.eq_append_cons_of_mem hmem
  rw [List.append_assoc, List.cons_append, firstLine_append hlead, firstLine_append hlead,
    firstLine_newline, firstLine_newline]

/-- The first line of a text starts the text. -/
theorem exists_firstLine_append (cs : Text) : ∃ rest, cs = firstLine cs ++ rest :=
  ⟨cs.dropWhile (· ≠ '\n'), List.takeWhile_append_dropWhile.symm⟩

/-- The last line is the first one of the text read backwards. -/
theorem lastLine_eq (cs : Text) : lastLine cs = (firstLine cs.reverse).reverse := rfl

theorem lastLine_of_not_mem (hlead : '\n' ∉ lead) : lastLine lead = lead := by
  rw [lastLine_eq, firstLine_of_not_mem (mt List.mem_reverse.1 hlead), List.reverse_reverse]

theorem lastLine_append_newline (cs : Text) (hlead : '\n' ∉ lead) :
    lastLine (cs ++ '\n' :: lead) = lead := by
  have hfirst := firstLine_append (mt List.mem_reverse.1 hlead) ('\n' :: cs.reverse)
  rw [lastLine_eq, List.reverse_append, List.reverse_cons, List.append_assoc,
    List.singleton_append, hfirst, firstLine_newline, List.append_nil, List.reverse_reverse]

/-- Lines with their newlines are empty or end with a newline. -/
theorem endLines_cases (lines : List Text) :
    endLines lines = [] ∨ ∃ cs, endLines lines = cs ++ ['\n'] := by
  obtain rfl | ⟨init, line, rfl⟩ := lines.eq_nil_or_concat
  · exact .inl rfl
  · exact .inr ⟨endLines init ++ line, by simp [endLines]⟩

theorem lastLine_endLines (lines : List Text) (hlead : '\n' ∉ lead) :
    lastLine (endLines lines ++ lead) = lead := by
  obtain hnil | ⟨cs, hcs⟩ := endLines_cases lines
  · rw [hnil, List.nil_append, lastLine_of_not_mem hlead]
  · rw [hcs, List.append_assoc, List.singleton_append, lastLine_append_newline cs hlead]

/-- The first line of a text is its first piece. -/
theorem head?_splitOn (cs : Text) : (cs.splitOn '\n').head? = some (firstLine cs) := by
  induction cs with
  | nil => rfl
  | cons c cs ih =>
      rw [List.splitOn_cons_eq_if_modifyHead]
      by_cases hc : c = '\n'
      · simp [firstLine, hc]
      · simp [hc, ih, firstLine]

/-- The piece that a cut goes through has the number of newlines before the cut. -/
theorem line_of_cut (before rest : Text) :
    ((before ++ rest).splitOn '\n')[before.count '\n']? =
        some (lastLine before ++ firstLine rest) ∧
      before = endLines (((before ++ rest).splitOn '\n').take (before.count '\n')) ++
        lastLine before := by
  obtain ⟨lines, lead, rfl, hlines, hlead⟩ := exists_endLines before
  have hcount : (endLines lines ++ lead).count '\n' = lines.length := by
    rw [List.count_append, count_endLines hlines, List.count_eq_zero.2 hlead, Nat.add_zero]
  have hsplit : (endLines lines ++ lead ++ rest).splitOn '\n' =
      lines ++ (lead ++ rest).splitOn '\n' := by
    rw [List.append_assoc, splitOn_endLines hlines]
  rw [hcount, hsplit, lastLine_endLines lines hlead]
  constructor
  · rw [List.getElem?_append_right (Nat.le_refl _), Nat.sub_self, ← List.head?_eq_getElem?,
      head?_splitOn, firstLine_append hlead]
  · rw [List.take_left']
    rfl

end Lines

end Packrat
