import Packrat.Grammar.Basic
import Packrat.Report.Annotation

/-!
# Drafts of grammars

A draft grows expression by expression and rule by rule, inner expressions first.  References name
their rules, which may be declared later.  Completing a draft finds the rules that are named, and
fails at the first fault.
-/

namespace Packrat

/-- How a rule may be entered. -/
inductive EntryKind where
  | start
  | stream
  deriving DecidableEq, Repr

def EntryKind.name : EntryKind → String
  | start => "start"
  | stream => "stream"

/-- Why a draft is not a grammar. -/
inductive GrammarError where
  /-- A rule is declared under a name that is taken. -/
  | duplicateRule (name : String) (first redefined : Span)
  /-- A reference names no rule. -/
  | unresolvedRule (name : String) (span : Span)
  /-- An entry names no rule. -/
  | unknownEntry (name : String) (kind : EntryKind)
  deriving DecidableEq, Repr

namespace GrammarError

/-- The fault in words. -/
def message : GrammarError → String
  | duplicateRule name _ _ => s!"rule `{name}` is defined more than once"
  | unresolvedRule name _ => s!"reference to undefined rule `{name}`"
  | unknownEntry name kind => s!"allowed {kind.name} rule `{name}` is not defined"

/-- The places that the fault concerns.  Entries are not written in a source. -/
def annotations : GrammarError → List Annotation
  | duplicateRule _ first redefined =>
    [.note first "first defined here", .error redefined "rule redefined here",
      .help redefined "rule names must be unique within a grammar"]
  | unresolvedRule name span =>
    Annotation.withHelp (.error span s!"no rule named `{name}` is defined")
      "a rule must be defined somewhere in the grammar before it can be referenced"
  | unknownEntry .. => []

end GrammarError

/-- A grammar under construction. -/
structure Draft where
  exprs : List (Node Unit)
  rules : List Rule
  startNames : List String
  streamNames : List String
  children_precede : ChildrenPrecede exprs
  bodies_below : BodiesBelow rules exprs.length

namespace Draft

def empty : Draft where
  exprs := []
  rules := []
  startNames := []
  streamNames := []
  children_precede := by simp [ChildrenPrecede]
  bodies_below := by simp [BodiesBelow]

/-- Adds an expression over expressions of the draft.  Its number is the count of those before. -/
def addExpr (d : Draft) (e : Expr Unit) (span : Span)
    (h : ∀ c ∈ e.children, c < d.exprs.length) : Draft :=
  { d with
    exprs := d.exprs ++ [⟨e, span⟩]
    children_precede := by
      intro i n hn c hc
      rcases Nat.lt_or_ge i d.exprs.length with hi | hi
      · rw [List.getElem?_append_left hi] at hn
        exact d.children_precede i n hn c hc
      · rw [List.getElem?_append_right hi] at hn
        obtain ⟨hlt, rfl⟩ := List.getElem?_eq_some_iff.1 hn
        simp only [List.getElem_singleton] at hc
        exact Nat.lt_of_lt_of_le (h c hc) hi
    bodies_below := by
      intro r hr
      exact Nat.lt_of_lt_of_le (d.bodies_below r hr) (by simp) }

/-- Declares a rule whose body is an expression of the draft. -/
def addRule (d : Draft) (rule : Rule) (h : rule.body < d.exprs.length) : Draft :=
  { d with
    rules := d.rules ++ [rule]
    bodies_below := by
      intro r hr
      rcases List.mem_append.1 hr with hr | hr
      · exact d.bodies_below r hr
      · rwa [List.mem_singleton.1 hr] }

/-- Allows a parse to start with the rule of a name. -/
def allowStart (d : Draft) (name : String) : Draft :=
  { d with startNames := d.startNames ++ [name] }

/-- Allows the results of the rule of a name to be drawn one by one. -/
def allowStream (d : Draft) (name : String) : Draft :=
  { d with streamNames := d.streamNames ++ [name] }

/-- The first rule with a name. -/
def find? (d : Draft) (name : String) : Option Nat :=
  d.rules.findIdx? (·.name == name)

/-- The earliest rule whose name an earlier rule has, after that earlier rule. -/
def repeatedAfter (earlier : List Rule) : List Rule → Option (Rule × Rule)
  | [] => none
  | r :: rest =>
    match earlier.find? (·.name == r.name) with
    | some first => some (first, r)
    | none => repeatedAfter (earlier ++ [r]) rest

/-- The earliest rule whose name is taken, after the rule that took it. -/
def repeated? (d : Draft) : Option (Rule × Rule) :=
  repeatedAfter [] d.rules

/-- The reference of an expression, if it names no rule of the draft. -/
def danglingCall? (d : Draft) (n : Node Unit) : Option (Call × Span) :=
  n.expr.call?.bind fun call => if (d.find? call.name).isNone then some (call, n.span) else none

/-- The first reference that names no rule. -/
def dangling? (d : Draft) : Option (Call × Span) :=
  d.exprs.findSome? d.danglingCall?

/-- The entries by name, start rules first. -/
def entryNames (d : Draft) : List (String × EntryKind) :=
  d.startNames.map (·, .start) ++ d.streamNames.map (·, .stream)

/-- The first entry that names no rule. -/
def stray? (d : Draft) : Option (String × EntryKind) :=
  d.entryNames.find? fun entry => (d.find? entry.1).isNone

/-- The rules with the given names. -/
def resolveAll (d : Draft) (names : List String) : List Nat :=
  names.filterMap d.find?

/-- The start rules: those that are named, or the first rule if none is. -/
def startRules (d : Draft) : List Nat :=
  if d.startNames.isEmpty ∧ !d.rules.isEmpty then [0] else d.resolveAll d.startNames

theorem lt_of_find? {d : Draft} {name : String} {id : Nat} (h : d.find? name = some id) :
    id < d.rules.length :=
  (List.findIdx?_eq_some_iff_getElem.1 h).1

theorem lt_of_mem_resolveAll {d : Draft} {names : List String} {id : Nat}
    (h : id ∈ d.resolveAll names) : id < d.rules.length := by
  obtain ⟨name, -, hfind⟩ := List.mem_filterMap.1 h
  exact lt_of_find? hfind

theorem lt_of_mem_startRules {d : Draft} {id : Nat} (h : id ∈ d.startRules) :
    id < d.rules.length := by
  unfold startRules at h
  split at h
  next hnone =>
    obtain rfl := List.mem_singleton.1 h
    cases hrules : d.rules with
    | nil => simp [hrules] at hnone
    | cons => simp
  next => exact lt_of_mem_resolveAll h

/-- Names stay different if a rule is added whose name is not taken. -/
theorem nodup_names_append {earlier : List Rule} {r : Rule}
    (hearlier : (earlier.map (·.name)).Nodup)
    (hfind : earlier.find? (·.name == r.name) = none) :
    ((earlier ++ [r]).map (·.name)).Nodup := by
  rw [List.map_append, List.nodup_append]
  refine ⟨hearlier, by simp, ?_⟩
  intro name hname other hother heq
  obtain ⟨first, hfirst, rfl⟩ := List.mem_map.1 hname
  obtain rfl : other = r.name := by simpa using hother
  exact absurd (by simpa using heq) (List.find?_eq_none.1 hfind first hfirst)

/-- Rules of which none repeats a name have different names. -/
theorem nodup_of_repeatedAfter {earlier rest : List Rule}
    (hearlier : (earlier.map (·.name)).Nodup) (h : repeatedAfter earlier rest = none) :
    ((earlier ++ rest).map (·.name)).Nodup := by
  induction rest generalizing earlier with
  | nil => simpa using hearlier
  | cons r rest ih =>
    unfold repeatedAfter at h
    split at h
    next => simp at h
    next hfind =>
      have hsplit : earlier ++ r :: rest = (earlier ++ [r]) ++ rest := by simp
      rw [hsplit]
      exact ih (nodup_names_append hearlier hfind) h

theorem nodup_of_repeated? {d : Draft} (h : d.repeated? = none) :
    (d.rules.map (·.name)).Nodup := by
  simpa using @nodup_of_repeatedAfter [] d.rules List.nodup_nil h

/-- Without a dangling reference, every reference names a rule. -/
theorem isSome_find?_of_dangling? {d : Draft} (h : d.dangling? = none) {n : Node Unit}
    (hn : n ∈ d.exprs) {call : Call} (hcall : n.expr.call? = some call) :
    (d.find? call.name).isSome := by
  have hnone := List.findSome?_eq_none_iff.1 h n hn
  simp only [danglingCall?, hcall, Option.bind_some] at hnone
  cases hfind : d.find? call.name with
  | none => simp [hfind] at hnone
  | some => rfl

/-- Resolves all references and entries. -/
def complete (d : Draft) : Except GrammarError Grammar :=
  match hrepeated : d.repeated? with
  | some (first, again) => .error (.duplicateRule again.name first.span again.span)
  | none =>
    match hdangling : d.dangling? with
    | some (call, span) => .error (.unresolvedRule call.name span)
    | none =>
      match d.stray? with
      | some (name, kind) => .error (.unknownEntry name kind)
      | none =>
        let target (call : Call) : Nat := (d.find? call.name).getD 0
        .ok {
          rules := d.rules
          exprs := d.exprs.map (Node.retarget target)
          start := d.startRules
          stream := d.resolveAll d.streamNames
          children_precede := by
            intro i n hn c hc
            rw [List.getElem?_map, Option.map_eq_some_iff] at hn
            obtain ⟨m, hm, rfl⟩ := hn
            exact d.children_precede i m hm c (by simpa [Node.retarget] using hc)
          bodies_below := by simpa using d.bodies_below
          targets_below := by
            intro n hn t ht
            obtain ⟨m, hm, rfl⟩ := List.mem_map.1 hn
            simp only [Node.retarget, Expr.target?_retarget, Option.map_eq_some_iff] at ht
            obtain ⟨call, hcall, rfl⟩ := ht
            obtain ⟨id, hid⟩ :=
              Option.isSome_iff_exists.1 (isSome_find?_of_dangling? hdangling hm hcall)
            simpa [target, hid] using lt_of_find? hid
          names_nodup := nodup_of_repeated? hrepeated
          entries_below := by
            intro r hr
            rcases List.mem_append.1 hr with hr | hr
            · exact lt_of_mem_startRules hr
            · exact lt_of_mem_resolveAll hr }

end Draft

end Packrat
