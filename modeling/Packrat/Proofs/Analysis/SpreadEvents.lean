import Mathlib.Data.List.Infix
import Packrat.Proofs.Analysis.MaskedReach

/-!
# The story of the marks

The events of the failure analysis tell why each rule is marked.  Main statement: they are an
account of the result, which names the entries first and then, for every other rule that is marked,
a rule before it that passes failures on to it and the place of the reference (`marks_accounted`).
-/

namespace Packrat

open Relation

/-- The rule that an event is about. -/
def AnalysisEvent.subject : AnalysisEvent → Nat
  | .alwaysMatch rule _ | .cutoff rule | .seed rule | .reports rule _ _ => rule

namespace Grammar

/-- Under an expression, without a masking expression in between, the reference at `span` leads to
`target`. -/
def RefersAt (g : Grammar) (top target : Nat) (span : Span) : Prop :=
  ∃ id call, ReflTransGen g.Opens top id ∧
    g.node? id = some ⟨.leaf (.ruleRef call target), span⟩

/-- A rule that may fail has a reference to `target` in the open, at `span`. -/
def PassesOnAt (g : Grammar) (always : AlwaysMatch) (r target : Nat) (span : Span) : Prop :=
  always.rule r = false ∧ ∃ rule, g.rule? r = some rule ∧ g.RefersAt rule.body target span

/-- Events give an account of marks.  The entries come first, and every rule that is added has a
reason among the rules before it. -/
inductive Accounts (g : Grammar) (always : AlwaysMatch) : List AnalysisEvent → Prop where
  | seeds : Accounts g always (g.entries.eraseDups.map .seed)
  | reports {events : List AnalysisEvent} {target source : Nat} {span : Span}
      (before : Accounts g always events)
      (hold : source ∈ events.map (·.subject)) (hpasses : g.PassesOnAt always source target span) :
      Accounts g always (events ++ [.reports target source span])

variable {g : Grammar} {always : AlwaysMatch} {events : List AnalysisEvent}

/-- A reference that is collected from a tree is in the open. -/
theorem opens_of_mem_observable {id : Nat} {t : Tree} (ht : g.Unfolds id t) {ref : Reference}
    (href : ref ∈ t.observable) : ∃ call, ReflTransGen g.Opens id ref.via ∧
      g.node? ref.via = some ⟨.leaf (.ruleRef call ref.target), g.exprSpan ref.via⟩ := by
  induction ht with
  | @leaf id l span hnode =>
      cases l with
      | ruleRef call target =>
          obtain rfl := List.mem_singleton.1 href
          exact ⟨call, .refl, by simp [exprSpan, hnode]⟩
      | _ => simp [Tree.observable] at href
  | @wrap id i w span inner hnode hinner ih =>
      rw [Tree.observable] at href
      by_cases hmask : w.masksFailure = true
      · simp [hmask] at href
      · rw [if_neg hmask] at href
        obtain ⟨call, hpath, href⟩ := ih href
        have hopens := (opens_iff hnode).2 ⟨mt (masksFailure_iff w).2 hmask, List.mem_cons_self⟩
        exact ⟨call, .head hopens hpath, href⟩
  | @group id k is span tree hnode hitems ih =>
      obtain ⟨t, ht, href⟩ := Tree.mem_observableAll.1 href
      obtain ⟨i, hi, rfl⟩ := List.mem_map.1 ht
      obtain ⟨call, hpath, href⟩ := ih i hi href
      have hkind : k.kind ∉ [.named, .simpleAnd, .simpleNot, .optional, .zeroOrMore] := by
        cases k <;> decide
      exact ⟨call, .head ((opens_iff hnode).2 ⟨hkind, hi⟩) hpath, href⟩

theorem passesOnAt_of_mem_references {r : Nat} {rule : Rule} (hrule : g.rule? r = some rule)
    (hmay : always.rule r = false) {ref : Reference} (href : ref ∈ g.references r) :
    g.PassesOnAt always r ref.target (g.exprSpan ref.via) := by
  have hobservable := List.mem_reverse.1 href
  obtain ⟨call, hpath, hnode⟩ := opens_of_mem_observable (g.unfolds_body hrule) hobservable
  exact ⟨hmay, rule, hrule, ref.via, call, hpath, hnode⟩

namespace Accounts

theorem exists_reports (h : g.Accounts always events) :
    ∃ reports, events = g.entries.eraseDups.map .seed ++ reports ∧
      ∀ e ∈ reports, ∃ target source span, e = .reports target source span := by
  induction h with
  | seeds => exact ⟨[], by simp, by simp⟩
  | @reports events target source span _ _ _ ih =>
      obtain ⟨reports, rfl, hreports⟩ := ih
      refine ⟨reports ++ [.reports target source span], by simp, ?_⟩
      rw [List.forall_mem_append]
      exact ⟨hreports, by simp⟩

theorem justified (h : g.Accounts always events) {before : List AnalysisEvent} {target source : Nat}
    {span : Span} (hbefore : before ++ [.reports target source span] <+: events) :
    source ∈ before.map (·.subject) ∧ g.PassesOnAt always source target span := by
  induction h with
  | seeds =>
      have hmem := hbefore.subset (List.mem_append_right _ List.mem_cons_self)
      simp at hmem
  | reports _ hold hpasses ih =>
      rcases List.prefix_concat_iff.1 hbefore with heq | hprefix
      · obtain ⟨rfl, hlast⟩ := List.append_inj' heq rfl
        cases hlast
        exact ⟨hold, hpasses⟩
      · exact ih hprefix

end Accounts

end Grammar

namespace Spread

/-- The events of a spread give an account of its marks. -/
structure Accounted (g : Grammar) (always : AlwaysMatch) (s : Spread) : Prop where
  accounts : g.Accounts always s.events
  marked : s.events.map (·.subject) = s.marked

variable {g : Grammar} {always : AlwaysMatch} {s : Spread}

theorem seed_eq (entries : List Nat) :
    seed entries = ⟨[], entries.eraseDups, entries.eraseDups.map .seed⟩ := by
  induction entries using List.reverseRecOn with
  | nil => rfl
  | append_singleton entries r ih =>
      have hseed : seed (entries ++ [r]) = (seed entries).mark r (.seed r) := by
        simp [seed, List.foldl_append]
      rw [hseed, ih, List.eraseDups_append]
      by_cases hr : r ∈ entries <;>
        simp [mark, Spread.marked, List.removeAll, List.eraseDups_cons, hr]

theorem accounted_seed (g : Grammar) (always : AlwaysMatch) :
    Accounted g always (seed g.entries) := by
  rw [seed_eq]
  refine ⟨.seeds, ?_⟩
  simp [Spread.marked, Function.comp_def, AnalysisEvent.subject]

theorem Accounted.mark (h : Accounted g always s) {target source : Nat} {span : Span}
    (hold : source ∈ s.marked) (hpasses : g.PassesOnAt always source target span) :
    Accounted g always (s.mark target (.reports target source span)) := by
  unfold Spread.mark
  by_cases htarget : target ∈ s.marked
  · rwa [if_pos htarget]
  · rw [if_neg htarget]
    refine ⟨h.accounts.reports (h.marked ▸ hold) hpasses, ?_⟩
    rw [List.map_append, h.marked]
    simp [Spread.marked, AnalysisEvent.subject]

theorem Accounted.follow (h : Accounted g always s) {source : Nat} (hold : source ∈ s.marked)
    {spanOf : Nat → Span} {refs : List Reference}
    (hrefs : ∀ ref ∈ refs, g.PassesOnAt always source ref.target (spanOf ref.via)) :
    Accounted g always (s.follow spanOf source refs) := by
  induction refs generalizing s with
  | nil => exact h
  | cons ref refs ih =>
      have hmark := h.mark hold (hrefs ref List.mem_cons_self)
      have hstill : source ∈ (s.mark ref.target
          (.reports ref.target source (spanOf ref.via))).marked := mem_marked_mark.2 (Or.inl hold)
      exact ih hmark hstill fun other hother => hrefs other (List.mem_cons_of_mem ref hother)

theorem Accounted.step (h : Accounted g always s) (hinv : Inv g always s) :
    Accounted g always (s.step g always) := by
  unfold Spread.step
  cases hwaiting : s.waiting with
  | nil => exact h
  | cons r rest =>
      have hr : r ∈ s.marked := by simp [Spread.marked, hwaiting]
      have hsame : ({ s with closed := s.closed ++ [r], waiting := rest } : Spread).marked =
          s.marked := by
        simp [Spread.marked, hwaiting]
      -- the rule that is taken stays marked
      have htaken : Accounted g always { s with closed := s.closed ++ [r], waiting := rest } :=
        ⟨h.accounts, h.marked.trans hsame.symm⟩
      simp only
      split
      next => exact htaken
      next hmay =>
        refine htaken.follow (hsame.symm ▸ hr) fun ref href => ?_
        have hrule := List.getElem?_eq_getElem (hinv.below r hr)
        exact Grammar.passesOnAt_of_mem_references hrule (by simpa using hmay) href

theorem Accounted.run (h : Accounted g always s) (hinv : Inv g always s) (rounds : Nat) :
    Accounted g always (run g always rounds s) := by
  induction rounds generalizing s with
  | zero => exact h
  | succ rounds ih => exact ih (h.step hinv) hinv.step

end Spread

/-- The events of the failure analysis name the entries, each once and in order, and then only rules
that report failures for a reason.  Every rule that reports failures has one event and no other rule
has any.  Where the reason is another rule, this has an event before, may fail, and has a reference
at that place which nothing masks. -/
theorem Grammar.marks_accounted (g : Grammar) (always : AlwaysMatch) :
    (∃ reports, (g.failureSpread always).events =
        (g.start ++ g.stream).eraseDups.map .seed ++ reports ∧
      ∀ e ∈ reports, ∃ target source span, e = .reports target source span) ∧
    (∀ r, ((g.failureSpread always).events.map (·.subject)).count r =
      if (g.failureReports always).rule r then 1 else 0) ∧
    ∀ before target source span,
      before ++ [.reports target source span] <+: (g.failureSpread always).events →
        source ∈ before.map (·.subject) ∧ always.rule source = false ∧
          ∃ rule, g.rule? source = some rule ∧ g.RefersAt rule.body target span := by
  have hseed := Spread.inv_seed g always
  have h : Spread.Accounted g always (g.failureSpread always) :=
    (Spread.accounted_seed g always).run hseed _
  have hinv : Spread.Inv g always (g.failureSpread always) := hseed.run _
  refine ⟨h.accounts.exists_reports, ?_, fun _ _ _ _ => h.accounts.justified⟩
  intro r
  rw [h.marked, hinv.nodup.count]
  simp [failureReports]

end Packrat
