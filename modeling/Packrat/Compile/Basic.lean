import Packrat.Analysis.Basic
import Packrat.Expectation.Collect
import Packrat.JavaScript.Expectation
import Packrat.JavaScript.Rule
import Packrat.Plan.Class
import Packrat.Plan.Literal

/-!
# Compiling a grammar

A compilation holds what is needed to generate code for a grammar: the attributes of its rules, the
tables of expectations and actions, a plan for every literal, class and single character, and the
variants of every rule.
-/

namespace Packrat

/-- Choices of a compilation. -/
structure CompileOptions where
  /-- Prefer short code to fast class tests. -/
  small : Bool
  /-- Keep the results of rules. -/
  cache : Bool
  deriving DecidableEq, Repr

/-- A generated variant of a rule. -/
structure VariantUnit where
  variant : RuleVariant
  /-- The name of the generated function. -/
  function : String
  cache : Option CachePlan
  deriving DecidableEq, Repr

/-- How a rule is generated: both eager variants, and the stream variant of rules that may be
entered so. -/
structure RuleUnit where
  id : Nat
  name : String
  variants : List VariantUnit
  alwaysMatch : Bool
  reportsFailure : Bool
  isStart : Bool
  isStream : Bool
  deriving DecidableEq, Repr

/-- The unit of a variant. -/
def RuleUnit.variant? (u : RuleUnit) (v : RuleVariant) : Option VariantUnit :=
  u.variants.find? (·.variant = v)

/-- A compiled grammar. -/
structure Compilation where
  options : CompileOptions
  analysis : Analysis
  expectations : ExpectationIndex
  actions : ActionTable
  plans : List (Nat × MatchPlan)
  rules : List RuleUnit

namespace Compilation

/-- The register that every plan puts its result in. -/
def resultReg : Reg := ⟨0⟩

/-- The plan of a literal, a class or a single character. -/
def planOf? (small : Bool) : Tree → Option MatchPlan
  | .leaf _ (.literal value ignoreCase) => some (.ofLiteral value ignoreCase resultReg)
  | .leaf _ (.charClass cls) => some (.ofClass cls resultReg small)
  | .leaf _ .any => some (.any resultReg)
  | _ => none

/-- The plans of all expressions in the rules of a grammar. -/
def plansOf (g : Grammar) (small : Bool) : List (Nat × MatchPlan) :=
  (g.bodies.flatMap Tree.preorder).filterMap fun t => (planOf? small t).map (t.id, ·)

/-- The variants of a rule. -/
def variantsOf (isStream : Bool) : List RuleVariant :=
  [.produce, .discard] ++ if isStream then [.stream] else []

/-- The unit of a rule. -/
def unitOf (g : Grammar) (options : CompileOptions) (analysis : Analysis) (id : Nat) (rule : Rule) :
    RuleUnit :=
  let isStream := decide (id ∈ g.stream)
  { id
    name := rule.name
    variants := (variantsOf isStream).map fun v =>
      ⟨v, JavaScript.functionName rule.name v,
        if options.cache then some (.ofRule id rule v) else none⟩
    alwaysMatch := analysis.alwaysMatch.rule id
    reportsFailure := analysis.failureReports.rule id
    isStart := decide (id ∈ g.start)
    isStream }

/-- The plan of an expression. -/
def plan? (c : Compilation) (id : Nat) : Option MatchPlan :=
  c.plans.lookup id

/-- The unit of a rule. -/
def rule? (c : Compilation) (id : Nat) : Option RuleUnit :=
  c.rules[id]?

/-- The declarations that all rules share: the cache if there is one, the expectations and the
actions. -/
def declarationList (c : Compilation) : List String :=
  (if c.options.cache then [JavaScript.cacheInit] else []) ++
    c.expectations.table.entries.mapIdx JavaScript.expectationDecl ++
    c.actions.entries.mapIdx JavaScript.actionDecl

/-- The text of the declarations that all rules share. -/
def declarations (c : Compilation) : String :=
  "\n".intercalate c.declarationList

end Compilation

/-- Compiles a grammar. -/
def Grammar.compile (g : Grammar) (options : CompileOptions) : Compilation :=
  let analysis := g.analyze
  { options
    analysis
    expectations := g.expectations
    actions := g.actions
    plans := Compilation.plansOf g options.small
    rules := g.rules.mapIdx (Compilation.unitOf g options analysis) }

end Packrat
