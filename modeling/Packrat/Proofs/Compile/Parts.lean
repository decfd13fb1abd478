import Mathlib.Data.List.Nodup
import Packrat.Proofs.Compile.Plans
import Packrat.Proofs.Grammar.Complete

/-!
# Parts of a compilation

Plans, expectations, cache slots and function names are numbered or named apart from each other, and
generated code relies on their agreement.  Main statement: they agree in every compilation
(`fits_compile`).
-/

namespace Packrat

namespace JavaScript

/-- What the name of a function starts with. -/
def functionPrefix : RuleVariant → String
  | .produce => "peg$parse"
  | .discard => "peg$discard"
  | .stream => "peg$stream"

theorem functionName_eq (name : String) (v : RuleVariant) :
    functionName name v = functionPrefix v ++ name := by
  cases v <;> rfl

/-- The fifth character of a name tells the variant. -/
theorem getElem?_functionName (name : String) (v : RuleVariant) :
    (functionName name v).toList[4]? =
      some (match v with | .produce => 'p' | .discard => 'd' | .stream => 's') := by
  rw [functionName_eq, String.toList_append, List.getElem?_append_left (by cases v <;> decide)]
  cases v <;> decide

/-- The name of a function gives away the rule and the variant. -/
theorem functionName_inj {n m : String} {v w : RuleVariant}
    (h : functionName n v = functionName m w) : n = m ∧ v = w := by
  have hvariant : v = w := by
    have hfifth := congrArg (fun s => s.toList[4]?) h
    simp only [getElem?_functionName] at hfifth
    cases v <;> cases w <;> simp_all
  subst hvariant
  rw [functionName_eq, functionName_eq] at h
  have hchars := congrArg String.toList h
  rw [String.toList_append, String.toList_append, List.append_cancel_left_eq] at hchars
  exact ⟨String.toList_inj.1 hchars, rfl⟩

end JavaScript

namespace Compilation

/-- All variants of all rules. -/
def variants (c : Compilation) : List VariantUnit :=
  c.rules.flatMap (·.variants)

/-- The unit of a variant of a rule. -/
def variantUnitOf (options : CompileOptions) (id : Nat) (rule : Rule) (v : RuleVariant) :
    VariantUnit :=
  ⟨v, JavaScript.functionName rule.name v, if options.cache then some (.ofRule id rule v) else none⟩

/-- The parts of a compilation belong to its grammar and to each other. -/
structure Fits (g : Grammar) (options : CompileOptions) (c : Compilation) : Prop where
  plan : ∀ id, (c.plan? id).isSome = true ↔
    g.InBody id ∧ ∃ n, g.node? id = some n ∧ n.expr.kind ∈ Kind.matching
  expectation : ∀ id, (c.plan? id).isSome = true → ∃ l span i e,
    g.node? id = some ⟨.leaf l, span⟩ ∧ c.expectations.indexOf? id = some i ∧
      c.expectations.table.get? i = some e ∧ e.Describes l
  rules : c.rules.length = g.rules.length
  variants : ∀ r u, c.rule? r = some u →
    u.variants.map (·.variant) = [.produce, .discard] ++ if r ∈ g.stream then [.stream] else []
  /-- Every variant is kept in a slot, which fits 32 bits unless there are too many rules. -/
  cache : options.cache = true → ∀ r rule u, g.rule? r = some rule → c.rule? r = some u →
    ∀ v ∈ u.variants, ∃ kept, v.cache = some kept ∧ kept.slot < 3 * g.rules.length ∧
      (g.rules.length ≤ (UInt32.size - 1) / 3 → kept.slot < UInt32.size) ∧
      kept.refParams = (rule.params.filter (·.byReference)).map (·.name)
  no_cache : options.cache = false → ∀ v ∈ c.variants, v.cache = none
  slots_nodup : options.cache = true → (c.variants.map fun v => v.cache.map (·.slot)).Nodup
  functions_nodup : (c.variants.map (·.function)).Nodup

variable {g : Grammar} {options : CompileOptions} {r : Nat} {rule : Rule} {u : RuleUnit}

theorem variants_unitOf (analysis : Analysis) :
    (unitOf g options analysis r rule).variants =
      (variantsOf (decide (r ∈ g.stream))).map (variantUnitOf options r rule) := rfl

theorem rule?_compile_eq_some_iff :
    (g.compile options).rule? r = some u ↔
      ∃ rule, g.rule? r = some rule ∧ unitOf g options g.analyze r rule = u := by
  rw [rule?, Grammar.compile, Grammar.rule?, List.getElem?_mapIdx, Option.map_eq_some_iff]

/-- A variant of the unit of a rule is a variant of the rule. -/
theorem exists_of_mem_variants (hu : (g.compile options).rule? r = some u) {v : VariantUnit}
    (hv : v ∈ u.variants) :
    ∃ rule w, g.rule? r = some rule ∧ variantUnitOf options r rule w = v := by
  obtain ⟨rule, hrule, rfl⟩ := rule?_compile_eq_some_iff.1 hu
  obtain ⟨w, -, hw⟩ := List.mem_map.1 hv
  exact ⟨rule, w, hrule, hw⟩

theorem nodup_variantsOf (isStream : Bool) : (variantsOf isStream).Nodup := by
  cases isStream <;> decide

/-- What tells the rule and the variant differs between any two variants of a compilation. -/
theorem nodup_map_variants {α : Type} {f : VariantUnit → α}
    (hinj : ∀ r s rule other v w, g.rule? r = some rule → g.rule? s = some other →
      f (variantUnitOf options r rule v) = f (variantUnitOf options s other w) → r = s ∧ v = w) :
    ((g.compile options).variants.map f).Nodup := by
  rw [variants, List.map_flatMap, List.nodup_flatMap]
  constructor
  · intro u hu
    obtain ⟨r, hr⟩ := List.mem_iff_getElem?.1 hu
    obtain ⟨rule, hrule, rfl⟩ := rule?_compile_eq_some_iff.1 hr
    rw [variants_unitOf, List.map_map]
    refine (nodup_variantsOf _).map_on fun v _ w _ heq => ?_
    exact (hinj r r rule rule v w hrule hrule heq).2
  · rw [List.pairwise_iff_getElem]
    intro r s hr hs hlt x hx hy
    obtain ⟨v, hv, rfl⟩ := List.mem_map.1 hx
    obtain ⟨w, hw, hsame⟩ := List.mem_map.1 hy
    obtain ⟨rule, v, hrule, rfl⟩ := exists_of_mem_variants (List.getElem?_eq_getElem hr) hv
    obtain ⟨other, w, hother, rfl⟩ := exists_of_mem_variants (List.getElem?_eq_getElem hs) hw
    have hrules := (hinj r s rule other v w hrule hother hsame.symm).1
    omega

theorem functions_nodup (g : Grammar) (options : CompileOptions) :
    ((g.compile options).variants.map (·.function)).Nodup := by
  refine nodup_map_variants fun r s rule other v w hrule hother hsame => ?_
  obtain ⟨hname, hvariant⟩ := JavaScript.functionName_inj hsame
  refine ⟨?_, hvariant⟩
  have hlookup := g.lookup_eq_some_iff.2 ⟨rule, hrule, hname⟩
  rw [g.lookup_eq_some_iff.2 ⟨other, hother, rfl⟩] at hlookup
  exact (Option.some.inj hlookup).symm

theorem slots_nodup (g : Grammar) (hcache : options.cache = true) :
    ((g.compile options).variants.map fun v => v.cache.map (·.slot)).Nodup := by
  refine nodup_map_variants fun r s rule other v w _ _ hsame => cacheSlot_inj ?_
  simpa [variantUnitOf, hcache, CachePlan.ofRule] using hsame

theorem cacheSlot_lt {count : Nat} (h : r < count) (v : RuleVariant) :
    cacheSlot r v < 3 * count := by
  have hv := v.index_lt_count
  simp only [cacheSlot, RuleVariant.count] at hv ⊢
  omega

/-- The parts of a compilation fit together. -/
theorem fits_compile (g : Grammar) (options : CompileOptions) :
    Fits g options (g.compile options) where
  plan _ := isSome_plan?_iff g options
  expectation _ := exists_expectation
  rules := List.length_mapIdx
  variants := by
    intro r u hu
    obtain ⟨rule, -, rfl⟩ := rule?_compile_eq_some_iff.1 hu
    rw [variants_unitOf, List.map_map]
    by_cases hstream : r ∈ g.stream <;> simp [variantsOf, variantUnitOf, hstream]
  cache := by
    intro hcache r rule u hrule hu v hv
    obtain ⟨same, w, hsame, rfl⟩ := exists_of_mem_variants hu hv
    obtain rfl : rule = same := Option.some.inj (hrule.symm.trans hsame)
    have hslot := cacheSlot_lt (List.getElem?_eq_some_iff.1 hrule).1 w
    refine ⟨.ofRule r rule w, if_pos hcache, hslot, fun hsmall => ?_, rfl⟩
    simp only [CachePlan.ofRule, UInt32.size] at hsmall ⊢
    omega
  no_cache := by
    intro hcache v hv
    obtain ⟨u, hu, hv⟩ := List.mem_flatMap.1 hv
    obtain ⟨r, hr⟩ := List.mem_iff_getElem?.1 hu
    obtain ⟨rule, w, -, rfl⟩ := exists_of_mem_variants hr hv
    simp [variantUnitOf, hcache]
  slots_nodup := slots_nodup g
  functions_nodup := functions_nodup g options

end Compilation

end Packrat
