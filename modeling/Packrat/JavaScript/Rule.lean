import Packrat.Compile.Actions
import Packrat.Compile.Variant
import Packrat.JavaScript.Plan

/-!
# Rules in JavaScript

Every variant of a rule is a function.  A parameter `x` of the rule is bound to `param_x`; passed by
reference it is a cell with the value `param_x.value`.  Action `n` is the function `peg$an`.
-/

namespace Packrat.JavaScript

/-- The name of the function of a variant. -/
def functionName (name : String) : RuleVariant → String
  | .produce => s!"peg$parse{name}"
  | .discard => s!"peg$discard{name}"
  | .stream => s!"peg$stream{name}"

/-- The opening line of a variant.  Streams are generator functions. -/
def ruleDecl (name : String) (v : RuleVariant) (params : List Param) : String :=
  let keyword := if v = .stream then "function*" else "function"
  let names := ", ".intercalate (params.map fun p => s!"param_{p.name}")
  s!"{keyword} {functionName name v}({names}) \x7b"

/-- The declaration of the cache. -/
def cacheInit : String :=
  "var peg$resultsCache = \x7b\x7d;"

/-- The lines that look a result up.  On a hit the cursor and the changed parameters are restored
and the result is returned; on a miss the parameters are saved. -/
def cacheStartLines (plan : CachePlan) : List String :=
  let values := plan.refParams.map fun p => s!"param_{p}.value"
  let key := ", ".intercalate (toString plan.slot :: "peg$currPos" :: values)
  [s!"var key = [{key}].map(String).join(\":\"),",
    "    cached = peg$resultsCache[key];",
    "if (cached) \x7b",
    s!"{indent}peg$currPos = cached.nextPos;"] ++
    (plan.refParams.map fun p =>
      s!"{indent}if (cached.hasOwnProperty(\"${p}\")) param_{p}.value = cached.${p};") ++
    [s!"{indent}return cached.result;", "\x7d"] ++
    plan.refParams.map fun p => s!"var saved_{p} = param_{p}.value;"

/-- The code before the body of a variant whose results are kept. -/
def cacheStart (plan : CachePlan) : String :=
  "\n".intercalate (cacheStartLines plan)

/-- The lines that store a result with the parameters that changed. -/
def cacheStoreLines (plan : CachePlan) (result : String) : List String :=
  ["peg$resultsCache[key] = cached = \x7b",
    s!"{indent}nextPos: peg$currPos,",
    s!"{indent}result: {result},",
    "\x7d;"] ++
    plan.refParams.map fun p =>
      s!"if (saved_{p} !== param_{p}.value) cached.${p} = param_{p}.value;"

/-- The code after the body of a variant whose results are kept. -/
def cacheStore (plan : CachePlan) (result : String) : String :=
  "\n".intercalate (cacheStoreLines plan result)

/-- The declaration of the action with an index. -/
def actionDecl (index : Nat) (action : HoistedAction) : String :=
  let params := ", ".intercalate action.params
  s!"function peg$a{index}({params}) \x7b\n{action.code}\n\x7d"

end Packrat.JavaScript
