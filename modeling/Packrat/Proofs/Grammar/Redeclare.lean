import Mathlib.Data.List.Nodup
import Packrat.Grammar.Draft

/-!
# The order of declarations

References name their rules, so the order in which rules are declared decides only about their
numbers.  Main statement: completing a draft with its rules in another order leads to the same
grammar up to these numbers (`redeclared_of_perm`).
-/

namespace Packrat

/-- Expressions of two grammars that differ at most in the number of the rule they refer to. -/
inductive Grammar.Alike (g g' : Grammar) : Expr Nat → Expr Nat → Prop
  | same {e : Expr Nat} (h : e.target? = none) : Alike g g' e e
  | call {call : Call} {target target' : Nat} (h : g.rule? target = g'.rule? target') :
      Alike g g' (.leaf (.ruleRef call target)) (.leaf (.ruleRef call target'))

/-- All rules and expressions of a grammar are found again in another one. -/
structure Grammar.Redeclared (g g' : Grammar) : Prop where
  rule : ∀ {r rule}, g.rule? r = some rule → ∃ r', g'.rule? r' = some rule
  node : ∀ {id e span}, g.node? id = some ⟨e, span⟩ →
    ∃ e', g'.node? id = some ⟨e', span⟩ ∧ g.Alike g' e e'

namespace Draft

variable {d d' : Draft} {g g' : Grammar}

/-- What a complete draft leads to. -/
theorem eq_of_complete (h : d.complete = .ok g) :
    d.repeated? = none ∧ d.dangling? = none ∧ d.stray? = none ∧ g.rules = d.rules ∧
      g.exprs = d.exprs.map (Node.retarget fun call => (d.find? call.name).getD 0) := by
  unfold complete at h
  split at h
  · cases h
  · rename_i hrepeated
    split at h
    · cases h
    · rename_i hdangling
      split at h
      · cases h
      · rename_i hstray
        cases h
        exact ⟨hrepeated, hdangling, hstray, rfl, rfl⟩

/-- A draft without a fault can be completed. -/
theorem exists_complete (hrepeated : d.repeated? = none) (hdangling : d.dangling? = none)
    (hstray : d.stray? = none) : ∃ g, d.complete = .ok g := by
  unfold complete
  split
  · rename_i h
    simp [hrepeated] at h
  · split
    · rename_i h
      simp [hdangling] at h
    · split
      · rename_i h
        simp [hstray] at h
      · exact ⟨_, rfl⟩

/-- Rules with different names repeat none. -/
theorem repeatedAfter_eq_none {earlier rest : List Rule}
    (h : ((earlier ++ rest).map (·.name)).Nodup) : repeatedAfter earlier rest = none := by
  induction rest generalizing earlier with
  | nil => rfl
  | cons r rest ih =>
      have hnone : earlier.find? (·.name == r.name) = none := by
        rw [List.find?_eq_none]
        intro first hfirst hname
        rw [List.map_append, List.nodup_append] at h
        exact h.2.2 _ (List.mem_map_of_mem hfirst) _ List.mem_cons_self (by simpa using hname)
      have hsplit : earlier ++ r :: rest = (earlier ++ [r]) ++ rest := by simp
      rw [repeatedAfter, hnone]
      exact ih (hsplit ▸ h)

theorem isNone_find?_iff {name : String} :
    (d.find? name).isNone = true ↔ ∀ rule ∈ d.rules, rule.name ≠ name := by
  simp [find?]

/-- The rule that a name leads to has the name. -/
theorem exists_rule_of_find? {name : String} {r : Nat} (h : d.find? name = some r) :
    ∃ rule, d.rules[r]? = some rule ∧ rule.name = name := by
  obtain ⟨hlt, hname, -⟩ := List.findIdx?_eq_some_iff_getElem.1 h
  exact ⟨d.rules[r], List.getElem?_eq_getElem hlt, by simpa using hname⟩

/-- In a complete draft the reference of an expression leads to a rule of its name. -/
theorem exists_rule_of_complete (h : d.complete = .ok g) {n : Node Unit} (hn : n ∈ d.exprs)
    {call : Call} (hcall : n.expr.call? = some call) :
    ∃ rule, g.rule? ((d.find? call.name).getD 0) = some rule ∧ rule ∈ d.rules ∧
      rule.name = call.name := by
  obtain ⟨-, hdangling, -, hrules, -⟩ := eq_of_complete h
  obtain ⟨r, hr⟩ := Option.isSome_iff_exists.1 (isSome_find?_of_dangling? hdangling hn hcall)
  obtain ⟨rule, hrule, hname⟩ := exists_rule_of_find? hr
  refine ⟨rule, ?_, List.mem_of_getElem? hrule, hname⟩
  rw [hr, Option.getD_some, Grammar.rule?, hrules, hrule]

/-- Rules of one name are the same. -/
theorem eq_of_name_eq (h : d.complete = .ok g) {rule other : Rule} (hrule : rule ∈ d.rules)
    (hother : other ∈ d.rules) (hname : rule.name = other.name) : rule = other := by
  have hnodup := nodup_of_repeated? (eq_of_complete h).1
  exact List.inj_on_of_nodup_map hnodup hrule hother hname

/-- A draft can be completed whatever the order of its rules. -/
theorem exists_complete_of_perm (h : d.complete = .ok g) (hexprs : d'.exprs = d.exprs)
    (hentries : d'.entryNames = d.entryNames) (hrules : d'.rules.Perm d.rules) :
    ∃ g', d'.complete = .ok g' := by
  obtain ⟨hrepeated, hdangling, hstray, -, -⟩ := eq_of_complete h
  have hfind : ∀ name, (d'.find? name).isNone = (d.find? name).isNone := by
    intro name
    rw [Bool.eq_iff_iff, isNone_find?_iff, isNone_find?_iff]
    exact forall_congr' fun rule => imp_congr_left hrules.mem_iff
  have hcall : d'.danglingCall? = d.danglingCall? := by
    funext n
    simp only [danglingCall?, hfind]
  refine exists_complete (repeatedAfter_eq_none ?_) ?_ ?_
  · rw [List.nil_append, (hrules.map _).nodup_iff]
    exact nodup_of_repeated? hrepeated
  · rw [dangling?, hcall, hexprs]
    exact hdangling
  · rw [stray?, hentries]
    simp only [hfind]
    exact hstray

/-- The order of the rules of a draft decides only about their numbers. -/
theorem redeclared_of_perm (h : d.complete = .ok g) (h' : d'.complete = .ok g')
    (hexprs : d'.exprs = d.exprs) (hrules : d'.rules.Perm d.rules) : g.Redeclared g' where
  rule := by
    intro r rule hrule
    have hmem : rule ∈ g'.rules := by
      rw [(eq_of_complete h').2.2.2.1, hrules.mem_iff, ← (eq_of_complete h).2.2.2.1]
      exact List.mem_of_getElem? hrule
    obtain ⟨r', hlt, rfl⟩ := List.mem_iff_getElem.1 hmem
    exact ⟨r', List.getElem?_eq_getElem hlt⟩
  node := by
    intro id e span hnode
    obtain ⟨-, -, -, -, hg⟩ := eq_of_complete h
    obtain ⟨-, -, -, -, hg'⟩ := eq_of_complete h'
    rw [Grammar.node?, hg, List.getElem?_map, Option.map_eq_some_iff] at hnode
    obtain ⟨n, hn, hretarget⟩ := hnode
    obtain ⟨rfl, rfl⟩ := Node.mk.inj hretarget
    refine ⟨n.expr.retarget fun call => (d'.find? call.name).getD 0, ?_, ?_⟩
    · rw [Grammar.node?, hg', hexprs, List.getElem?_map, hn]
      rfl
    · have hmem : n ∈ d.exprs := List.mem_of_getElem? hn
      obtain ⟨e, span⟩ := n
      cases e with
      | wrap w i => exact .same rfl
      | group k is => exact .same rfl
      | leaf l =>
          cases l with
          | ruleRef call target =>
              obtain ⟨rule, hrule, hin, hname⟩ := exists_rule_of_complete h hmem rfl
              obtain ⟨rule', hrule', hin', hname'⟩ :=
                exists_rule_of_complete h' (hexprs ▸ hmem) rfl
              obtain rfl : rule = rule' :=
                eq_of_name_eq h hin (hrules.mem_iff.1 hin') (hname.trans hname'.symm)
              exact .call (hrule.trans hrule'.symm)
          | _ => exact .same rfl

end Draft

end Packrat
