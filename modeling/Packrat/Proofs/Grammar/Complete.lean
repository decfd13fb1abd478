import Packrat.Proofs.Grammar.Redeclare

/-!
# Completing a draft

A draft is completed exactly if its rules have different names and all its references and entries
name rules.  Otherwise completing it ends at the first fault: a name that is taken comes before any
reference, and a reference before any entry.  Main statement: `complete_iff`.
-/

namespace Packrat

/-- A grammar is a draft in which references and entries have found their rules. -/
structure Grammar.Resolves (g : Grammar) (d : Draft) : Prop where
  rules : g.rules = d.rules
  /-- Names and numbers of rules belong together one to one. -/
  lookup : ∀ name r, g.lookup name = some r ↔ ∃ rule, g.rule? r = some rule ∧ rule.name = name
  /-- Nothing but the targets of references is new. -/
  exprs : g.exprs.map (Node.retarget fun _ => ()) = d.exprs
  target : ∀ n ∈ g.exprs, ∀ call target, n.expr = .leaf (.ruleRef call target) →
    g.lookup call.name = some target
  start : d.startNames ≠ [] ∨ d.rules = [] → g.start.map some = d.startNames.map g.lookup
  start_default : d.startNames = [] → d.rules ≠ [] → g.start = [0]
  stream : g.stream.map some = d.streamNames.map g.lookup

/-- A rule is found by its name alone. -/
theorem Grammar.lookup_eq_some_iff (g : Grammar) {name : String} {r : Nat} :
    g.lookup name = some r ↔ ∃ rule, g.rule? r = some rule ∧ rule.name = name := by
  constructor
  · intro h
    obtain ⟨hlt, hname, -⟩ := List.findIdx?_eq_some_iff_getElem.1 h
    exact ⟨g.rules[r], List.getElem?_eq_getElem hlt, by simpa using hname⟩
  · rintro ⟨rule, hrule, rfl⟩
    obtain ⟨hlt, rfl⟩ := List.getElem?_eq_some_iff.1 hrule
    refine List.findIdx?_eq_some_iff_getElem.2 ⟨hlt, by simp, fun j hj => ?_⟩
    have hapart := List.pairwise_map.1 g.names_nodup
    simpa using List.pairwise_iff_getElem.1 hapart j r (Nat.lt_trans hj hlt) hlt hj

/-- Forgetting the targets of references undoes finding them. -/
theorem Node.retarget_retarget_unit (n : Node Unit) (f : Call → Nat) :
    (n.retarget f).retarget (fun _ => ()) = n := by
  obtain ⟨e, span⟩ := n
  cases e with
  | leaf l => cases l <;> rfl
  | wrap w i => rfl
  | group k is => rfl

namespace Draft

variable {d : Draft} {g : Grammar}

/-- Some rule has the name. -/
def Declares (d : Draft) (name : String) : Prop :=
  ∃ rule ∈ d.rules, rule.name = name

/-- An expression that is a reference names a rule. -/
def Settles (d : Draft) (n : Node Unit) : Prop :=
  ∀ call, n.expr.call? = some call → d.Declares call.name

/-- Rules have different names, and references and entries name rules. -/
structure WellFormed (d : Draft) : Prop where
  names_nodup : (d.rules.map (·.name)).Nodup
  settles : ∀ n ∈ d.exprs, d.Settles n
  declares : ∀ name ∈ d.startNames ++ d.streamNames, d.Declares name

/-- The fault that a draft shows first. -/
inductive FirstFault (d : Draft) : GrammarError → Prop
  | duplicateRule {before after : List Rule} {first again : Rule} :
      d.rules = before ++ again :: after → (before.map (·.name)).Nodup → first ∈ before →
      first.name = again.name → FirstFault d (.duplicateRule again.name first.span again.span)
  | unresolvedRule {before after : List (Node Unit)} {n : Node Unit} {call : Call} :
      (d.rules.map (·.name)).Nodup → d.exprs = before ++ n :: after →
      (∀ m ∈ before, d.Settles m) → n.expr.call? = some call → ¬ d.Declares call.name →
      FirstFault d (.unresolvedRule call.name n.span)
  | unknownStart {before after : List String} {name : String} :
      (d.rules.map (·.name)).Nodup → (∀ n ∈ d.exprs, d.Settles n) →
      d.startNames = before ++ name :: after → (∀ other ∈ before, d.Declares other) →
      ¬ d.Declares name → FirstFault d (.unknownEntry name .start)
  | unknownStream {before after : List String} {name : String} :
      (d.rules.map (·.name)).Nodup → (∀ n ∈ d.exprs, d.Settles n) →
      d.streamNames = before ++ name :: after →
      (∀ other ∈ d.startNames ++ before, d.Declares other) →
      ¬ d.Declares name → FirstFault d (.unknownEntry name .stream)

section Repeated

/-- The search ends at the first rule whose name is taken. -/
theorem repeatedAfter_eq_some_iff {earlier rest : List Rule} {first again : Rule}
    (hearlier : (earlier.map (·.name)).Nodup) :
    repeatedAfter earlier rest = some (first, again) ↔
      ∃ front after, rest = front ++ again :: after ∧ ((earlier ++ front).map (·.name)).Nodup ∧
        first ∈ earlier ++ front ∧ first.name = again.name := by
  induction rest generalizing earlier with
  | nil => simp [repeatedAfter]
  | cons r rest ih =>
      rw [repeatedAfter]
      cases hfind : earlier.find? (·.name == r.name) with
      | some taken =>
          have hmem : taken ∈ earlier := List.mem_of_find?_eq_some hfind
          have hname : taken.name = r.name := by simpa using List.find?_some hfind
          constructor
          · intro h
            obtain ⟨rfl, rfl⟩ := Prod.mk.inj (Option.some.inj h)
            exact ⟨[], rest, rfl, by simpa using hearlier, by simpa using hmem, hname⟩
          · rintro ⟨front, after, hsplit, hnodup, hfirst, hsame⟩
            cases front with
            | nil =>
                obtain ⟨rfl, rfl⟩ := List.cons.inj hsplit
                rw [List.append_nil] at hfirst
                rw [List.inj_on_of_nodup_map hearlier hfirst hmem (hsame.trans hname.symm)]
            | cons other front =>
                -- the rule is among those whose names are distinct
                obtain ⟨rfl, -⟩ := List.cons.inj hsplit
                rw [List.map_append, List.nodup_append] at hnodup
                exact absurd hname (hnodup.2.2 _ (List.mem_map_of_mem hmem) _ List.mem_cons_self)
      | none =>
          have hfresh : ∀ rule ∈ earlier, rule.name ≠ r.name := by
            simpa using List.find?_eq_none.1 hfind
          rw [ih (nodup_names_append hearlier hfind)]
          constructor
          · rintro ⟨front, after, rfl, hnodup, hfirst, hsame⟩
            exact ⟨r :: front, after, rfl, by simpa using hnodup, by simpa using hfirst, hsame⟩
          · rintro ⟨front, after, hsplit, hnodup, hfirst, hsame⟩
            cases front with
            | nil =>
                obtain ⟨rfl, rfl⟩ := List.cons.inj hsplit
                rw [List.append_nil] at hfirst
                exact absurd hsame (hfresh first hfirst)
            | cons other front =>
                obtain ⟨rfl, rfl⟩ := List.cons.inj hsplit
                exact ⟨front, after, rfl, by simpa using hnodup, by simpa using hfirst, hsame⟩

theorem repeated?_eq_some_iff {first again : Rule} :
    d.repeated? = some (first, again) ↔
      ∃ before after, d.rules = before ++ again :: after ∧ (before.map (·.name)).Nodup ∧
        first ∈ before ∧ first.name = again.name :=
  repeatedAfter_eq_some_iff List.nodup_nil

theorem repeated?_eq_none_iff : d.repeated? = none ↔ (d.rules.map (·.name)).Nodup :=
  ⟨nodup_of_repeated?, fun h => repeatedAfter_eq_none (by simpa using h)⟩

end Repeated

section Unknown

theorem find?_isNone_iff {name : String} :
    (d.find? name).isNone = true ↔ ¬ d.Declares name := by
  rw [isNone_find?_iff, Declares]
  exact ⟨fun h ⟨rule, hrule, hname⟩ => h rule hrule hname,
    fun h rule hrule hname => h ⟨rule, hrule, hname⟩⟩

theorem danglingCall?_eq_some_iff {n : Node Unit} {call : Call} {span : Span} :
    d.danglingCall? n = some (call, span) ↔
      n.expr.call? = some call ∧ ¬ d.Declares call.name ∧ n.span = span := by
  unfold danglingCall?
  cases hcall : n.expr.call? with
  | none => simp
  | some other =>
      simp only [Option.bind_some, find?_isNone_iff, Option.ite_none_right_eq_some,
        Option.some.injEq, Prod.mk.injEq]
      constructor
      · rintro ⟨hnot, rfl, rfl⟩
        exact ⟨rfl, hnot, rfl⟩
      · rintro ⟨rfl, hnot, rfl⟩
        exact ⟨hnot, rfl, rfl⟩

theorem danglingCall?_eq_none_iff {n : Node Unit} : d.danglingCall? n = none ↔ d.Settles n := by
  unfold danglingCall? Settles
  cases n.expr.call? with
  | none => simp
  | some call =>
      simp only [Option.bind_some, ite_eq_right_iff, reduceCtorEq, imp_false, find?_isNone_iff,
        not_not, Option.some.injEq, forall_eq']

/-- The search ends at the first reference that names no rule. -/
theorem dangling?_eq_some_iff {call : Call} {span : Span} :
    d.dangling? = some (call, span) ↔
      ∃ before n after, d.exprs = before ++ n :: after ∧ (∀ m ∈ before, d.Settles m) ∧
        n.expr.call? = some call ∧ ¬ d.Declares call.name ∧ n.span = span := by
  simp only [dangling?, List.findSome?_eq_some_iff, danglingCall?_eq_some_iff,
    danglingCall?_eq_none_iff]
  constructor
  · rintro ⟨before, n, after, hsplit, hfound, hbefore⟩
    exact ⟨before, n, after, hsplit, hbefore, hfound⟩
  · rintro ⟨before, n, after, hsplit, hbefore, hfound⟩
    exact ⟨before, n, after, hsplit, hfound, hbefore⟩

theorem dangling?_eq_none_iff : d.dangling? = none ↔ ∀ n ∈ d.exprs, d.Settles n := by
  simp [dangling?, danglingCall?_eq_none_iff]

/-- The search ends at the first name that no rule has. -/
theorem find?_unknown_eq_some_iff {names : List String} {name : String} :
    names.find? (fun name => (d.find? name).isNone) = some name ↔
      ∃ before after, names = before ++ name :: after ∧ (∀ other ∈ before, d.Declares other) ∧
        ¬ d.Declares name := by
  have hknown : ∀ other, (!(d.find? other).isNone) = true ↔ d.Declares other := by
    intro other
    rw [Bool.not_eq_true', Bool.eq_false_iff, ne_eq, find?_isNone_iff, not_not]
  simp only [List.find?_eq_some_iff_append, find?_isNone_iff, hknown]
  constructor
  · rintro ⟨hnot, before, after, hsplit, hbefore⟩
    exact ⟨before, after, hsplit, hbefore, hnot⟩
  · rintro ⟨before, after, hsplit, hbefore, hnot⟩
    exact ⟨hnot, before, after, hsplit, hbefore⟩

theorem find?_unknown_eq_none_iff {names : List String} :
    names.find? (fun name => (d.find? name).isNone) = none ↔ ∀ name ∈ names, d.Declares name := by
  simp only [List.find?_eq_none, find?_isNone_iff, not_not]

/-- Start rules are searched before stream rules. -/
theorem stray?_eq : d.stray? =
    ((d.startNames.find? fun name => (d.find? name).isNone).map (·, EntryKind.start)).or
      ((d.streamNames.find? fun name => (d.find? name).isNone).map (·, .stream)) := by
  rw [stray?, entryNames, List.find?_append, List.find?_map, List.find?_map]
  rfl

theorem stray?_eq_none_iff :
    d.stray? = none ↔ ∀ name ∈ d.startNames ++ d.streamNames, d.Declares name := by
  simp only [stray?_eq, Option.or_eq_none_iff, Option.map_eq_none_iff, find?_unknown_eq_none_iff,
    List.forall_mem_append]

/-- The search ends at the first start name that no rule has, or else at the first such stream
name. -/
theorem stray?_eq_some_iff {name : String} {kind : EntryKind} :
    d.stray? = some (name, kind) ↔
      (kind = .start ∧ ∃ before after, d.startNames = before ++ name :: after ∧
        (∀ other ∈ before, d.Declares other) ∧ ¬ d.Declares name) ∨
      (kind = .stream ∧ ∃ before after, d.streamNames = before ++ name :: after ∧
        (∀ other ∈ d.startNames ++ before, d.Declares other) ∧ ¬ d.Declares name) := by
  simp only [stray?_eq, Option.or_eq_some_iff, Option.map_eq_none_iff, Option.map_eq_some_iff,
    find?_unknown_eq_some_iff, find?_unknown_eq_none_iff, Prod.mk.injEq, List.forall_mem_append]
  constructor
  · rintro (⟨_, hfirst, rfl, rfl⟩ | ⟨hstart, _, ⟨before, after, hsplit, hbefore, hnot⟩, rfl, rfl⟩)
    · exact Or.inl ⟨rfl, hfirst⟩
    · exact Or.inr ⟨rfl, before, after, hsplit, ⟨hstart, hbefore⟩, hnot⟩
  · rintro (⟨rfl, hfirst⟩ | ⟨rfl, before, after, hsplit, ⟨hstart, hbefore⟩, hnot⟩)
    · exact Or.inl ⟨name, hfirst, rfl, rfl⟩
    · exact Or.inr ⟨hstart, name, ⟨before, after, hsplit, hbefore, hnot⟩, rfl, rfl⟩

end Unknown

section Outcome

/-- A fault is told exactly if the searches before it find none. -/
theorem complete_eq_error_iff {e : GrammarError} :
    d.complete = .error e ↔
      (∃ first again, d.repeated? = some (first, again) ∧
        e = .duplicateRule again.name first.span again.span) ∨
      (d.repeated? = none ∧ ∃ call span, d.dangling? = some (call, span) ∧
        e = .unresolvedRule call.name span) ∨
      (d.repeated? = none ∧ d.dangling? = none ∧ ∃ name kind, d.stray? = some (name, kind) ∧
        e = .unknownEntry name kind) := by
  unfold complete
  split
  next first again hrepeated => simp [hrepeated, eq_comm]
  next hrepeated =>
    split
    next call span hdangling => simp [hrepeated, hdangling, eq_comm]
    next hdangling =>
      split
      next name kind hstray => simp [hrepeated, hdangling, hstray, eq_comm]
      next hstray => simp [hrepeated, hdangling, hstray]

theorem firstFault_iff {e : GrammarError} : d.complete = .error e ↔ d.FirstFault e := by
  rw [complete_eq_error_iff]
  constructor
  · rintro (⟨first, again, hrepeated, rfl⟩ | ⟨hrepeated, call, span, hdangling, rfl⟩ |
      ⟨hrepeated, hdangling, name, kind, hstray, rfl⟩)
    · obtain ⟨before, after, hsplit, hnodup, hfirst, hname⟩ := repeated?_eq_some_iff.1 hrepeated
      exact .duplicateRule hsplit hnodup hfirst hname
    · obtain ⟨before, n, after, hsplit, hbefore, hcall, hnot, rfl⟩ :=
        dangling?_eq_some_iff.1 hdangling
      exact .unresolvedRule (repeated?_eq_none_iff.1 hrepeated) hsplit hbefore hcall hnot
    · rw [repeated?_eq_none_iff] at hrepeated
      rw [dangling?_eq_none_iff] at hdangling
      rcases stray?_eq_some_iff.1 hstray with
        ⟨rfl, before, after, hsplit, hbefore, hnot⟩ | ⟨rfl, before, after, hsplit, hbefore, hnot⟩
      · exact .unknownStart hrepeated hdangling hsplit hbefore hnot
      · exact .unknownStream hrepeated hdangling hsplit hbefore hnot
  · intro h
    cases h with
    | duplicateRule hsplit hnodup hfirst hname =>
        exact Or.inl ⟨_, _, repeated?_eq_some_iff.2 ⟨_, _, hsplit, hnodup, hfirst, hname⟩, rfl⟩
    | unresolvedRule hnodup hsplit hbefore hcall hnot =>
        refine Or.inr (Or.inl ⟨repeated?_eq_none_iff.2 hnodup, _, _, ?_, rfl⟩)
        exact dangling?_eq_some_iff.2 ⟨_, _, _, hsplit, hbefore, hcall, hnot, rfl⟩
    | unknownStart hnodup hsettles hsplit hbefore hnot =>
        refine Or.inr (Or.inr ⟨repeated?_eq_none_iff.2 hnodup, dangling?_eq_none_iff.2 hsettles,
          _, _, ?_, rfl⟩)
        exact stray?_eq_some_iff.2 (Or.inl ⟨rfl, _, _, hsplit, hbefore, hnot⟩)
    | unknownStream hnodup hsettles hsplit hbefore hnot =>
        refine Or.inr (Or.inr ⟨repeated?_eq_none_iff.2 hnodup, dangling?_eq_none_iff.2 hsettles,
          _, _, ?_, rfl⟩)
        exact stray?_eq_some_iff.2 (Or.inr ⟨rfl, _, _, hsplit, hbefore, hnot⟩)

theorem exists_complete_iff : (∃ g, d.complete = .ok g) ↔ d.WellFormed := by
  constructor
  · rintro ⟨g, h⟩
    obtain ⟨hrepeated, hdangling, hstray, -, -⟩ := eq_of_complete h
    exact ⟨repeated?_eq_none_iff.1 hrepeated, dangling?_eq_none_iff.1 hdangling,
      stray?_eq_none_iff.1 hstray⟩
  · rintro ⟨hnodup, hsettles, hdeclares⟩
    exact exists_complete (repeated?_eq_none_iff.2 hnodup) (dangling?_eq_none_iff.2 hsettles)
      (stray?_eq_none_iff.2 hdeclares)

/-- The entries of a complete draft. -/
theorem entries_of_complete (h : d.complete = .ok g) :
    g.start = d.startRules ∧ g.stream = d.resolveAll d.streamNames := by
  unfold complete at h
  split at h
  · cases h
  · split at h
    · cases h
    · split at h
      · cases h
      · cases h
        exact ⟨rfl, rfl⟩

/-- Names that are declared all lead to rules. -/
theorem map_some_resolveAll {names : List String} (h : ∀ name ∈ names, d.Declares name) :
    (d.resolveAll names).map some = names.map d.find? := by
  induction names with
  | nil => rfl
  | cons name names ih =>
      obtain ⟨hname, hnames⟩ := List.forall_mem_cons.1 h
      have hnone := mt find?_isNone_iff.1 (not_not_intro hname)
      obtain ⟨r, hr⟩ := Option.ne_none_iff_exists'.1 (mt Option.isNone_iff_eq_none.2 hnone)
      rw [resolveAll, List.filterMap_cons_some hr, List.map_cons, List.map_cons, hr, ← ih hnames]
      rfl

theorem resolves_of_complete (h : d.complete = .ok g) : g.Resolves d := by
  obtain ⟨-, hdangling, hstray, hrules, hexprs⟩ := eq_of_complete h
  obtain ⟨hstart, hstream⟩ := entries_of_complete h
  obtain ⟨hstarts, hstreams⟩ := List.forall_mem_append.1 (stray?_eq_none_iff.1 hstray)
  have hlookup : g.lookup = d.find? := by
    funext name
    rw [Grammar.lookup, hrules, find?]
  refine ⟨hrules, fun _ _ => g.lookup_eq_some_iff, ?_, ?_, ?_, ?_, ?_⟩
  · rw [hexprs, List.map_map]
    exact List.map_id'' (fun n => n.retarget_retarget_unit _) d.exprs
  · intro n hn call target hcall
    rw [hexprs] at hn
    obtain ⟨m, hm, rfl⟩ := List.mem_map.1 hn
    have hnamed : m.expr.call? = some call := by
      have hsame := Expr.call?_retarget (fun call => (d.find? call.name).getD 0) m.expr
      rw [← hsame]
      exact congrArg Expr.call? hcall
    have htarget : m.expr.call?.map (fun call => (d.find? call.name).getD 0) = some target := by
      rw [← Expr.target?_retarget]
      exact congrArg Expr.target? hcall
    obtain ⟨r, hr⟩ := Option.isSome_iff_exists.1 (isSome_find?_of_dangling? hdangling hm hnamed)
    rw [hnamed, Option.map_some, hr, Option.some.injEq, Option.getD_some] at htarget
    rw [hlookup, hr, htarget]
  · intro hnamed
    have hnot : ¬ (d.startNames.isEmpty ∧ !d.rules.isEmpty) := by
      simp only [List.isEmpty_iff, Bool.not_eq_true', List.isEmpty_eq_false_iff]
      rintro ⟨hnone, hrules⟩
      exact hnamed.elim (absurd hnone) hrules
    rw [hstart, startRules, if_neg hnot, hlookup, map_some_resolveAll hstarts]
  · intro hnone hsome
    have hboth : d.startNames.isEmpty ∧ !d.rules.isEmpty := by
      simp only [List.isEmpty_iff, Bool.not_eq_true', List.isEmpty_eq_false_iff]
      exact ⟨hnone, hsome⟩
    rw [hstart, startRules, if_pos hboth]
  · rw [hstream, hlookup, map_some_resolveAll hstreams]

/-- A draft is completed exactly if it is well formed, and then its references and entries have
found their rules and all else is kept.  Otherwise the first fault is told: a taken name, else a
reference, else an entry. -/
theorem complete_iff (d : Draft) :
    ((∃ name first again, d.complete = .error (.duplicateRule name first again)) ↔
        ¬ (d.rules.map (·.name)).Nodup) ∧
      ((∃ name span, d.complete = .error (.unresolvedRule name span)) ↔
        (d.rules.map (·.name)).Nodup ∧ ¬ ∀ n ∈ d.exprs, d.Settles n) ∧
      ((∃ name kind, d.complete = .error (.unknownEntry name kind)) ↔
        (d.rules.map (·.name)).Nodup ∧ (∀ n ∈ d.exprs, d.Settles n) ∧
          ¬ ∀ name ∈ d.startNames ++ d.streamNames, d.Declares name) ∧
      ((∃ g, d.complete = .ok g) ↔ d.WellFormed) ∧
      (∀ e, d.complete = .error e ↔ d.FirstFault e) ∧
      ∀ g, d.complete = .ok g → g.Resolves d := by
  refine ⟨?_, ?_, ?_, exists_complete_iff, fun _ => firstFault_iff, fun _ => resolves_of_complete⟩
  · rw [← repeated?_eq_none_iff]
    simp [complete_eq_error_iff, Option.ne_none_iff_exists']
  · rw [← repeated?_eq_none_iff, ← dangling?_eq_none_iff]
    simpa [complete_eq_error_iff, Option.ne_none_iff_exists'] using fun _ => exists_comm
  · rw [← repeated?_eq_none_iff, ← dangling?_eq_none_iff, ← stray?_eq_none_iff]
    simp [complete_eq_error_iff, Option.ne_none_iff_exists']

end Outcome

end Draft

end Packrat
