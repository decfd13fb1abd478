import Packrat.Grammar.Basic

/-!
# Variants of rules and their cache slots

A rule is generated in up to three variants, and the results of each can be kept in a cache.  Every
variant of every rule has a slot of its own.
-/

namespace Packrat

/-- The manner in which a rule is invoked. -/
inductive RuleVariant where
  /-- For its result. -/
  | produce
  /-- To see whether it matches and how far. -/
  | discard
  /-- For a sequence of results, one at a time. -/
  | stream
  deriving DecidableEq, Repr

namespace RuleVariant

/-- The number of variants of a rule. -/
def count : Nat := 3

/-- The place of a variant among those of a rule. -/
def index : RuleVariant → Nat
  | produce => 0
  | discard => 1
  | stream => 2

/-- A variant in words. -/
def describe : RuleVariant → String
  | produce => "eager produce"
  | discard => "eager discard"
  | stream => "stream"

theorem index_lt_count (v : RuleVariant) : v.index < count := by
  cases v <;> decide

theorem index_inj {v w : RuleVariant} (h : v.index = w.index) : v = w := by
  cases v <;> cases w <;> simp_all [index]

end RuleVariant

/-- The slot of a variant of a rule. -/
def cacheSlot (rule : Nat) (v : RuleVariant) : Nat :=
  rule * RuleVariant.count + v.index

/-- Different variants have different slots. -/
theorem cacheSlot_inj {r s : Nat} {v w : RuleVariant} (h : cacheSlot r v = cacheSlot s w) :
    r = s ∧ v = w := by
  have hv := v.index_lt_count
  have hw := w.index_lt_count
  simp only [cacheSlot, RuleVariant.count] at h hv hw
  exact ⟨by omega, RuleVariant.index_inj (by omega)⟩

/-- How the results of a variant are kept: its slot, and the by-reference parameters whose values
are part of the key and may be restored. -/
structure CachePlan where
  slot : Nat
  refParams : List String
  deriving DecidableEq, Repr

/-- The cache plan of a variant of a rule. -/
def CachePlan.ofRule (id : Nat) (rule : Rule) (v : RuleVariant) : CachePlan :=
  ⟨cacheSlot id v, rule.refParams⟩

end Packrat
