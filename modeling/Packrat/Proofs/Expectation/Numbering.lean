import Mathlib.Data.List.Infix
import Mathlib.Data.List.Nodup
import Packrat.Proofs.Compile.Plans

/-!
# Numbering expectations

Failure sites share an index if they expect the same.  Main statements: whatever is interned, the
table lists it in order of first occurrence and finds what it lists (`numbers_internAll`), and the
table of a grammar is that of its expectations in pre-order, with the index of each expression that
has one (`expectations_numbered`).
-/

namespace Packrat

namespace ExpectationTable

variable {table : ExpectationTable} {seen es : List Expectation} {e : Expectation}

/-- A table numbers expectations by first occurrence: it lists each of them once, in that order, and
each has the index under which the table lists and finds it. -/
structure Numbers (table : ExpectationTable) (es : List Expectation) (indices : List Nat) :
    Prop where
  entries : table.entries = es.eraseDups
  consistent : table.Consistent
  nodup : table.entries.Nodup
  length : indices.length = es.length
  same : ∀ {i j k l : Nat} {e f : Expectation}, es[i]? = some e → es[j]? = some f →
    indices[i]? = some k → indices[j]? = some l → (k = l ↔ e = f)
  get : ∀ {i k : Nat} {e : Expectation}, es[i]? = some e → indices[i]? = some k →
    table.get? k = some e

theorem eraseDups_concat (seen : List Expectation) (e : Expectation) :
    (seen ++ [e]).eraseDups = if e ∈ seen then seen.eraseDups else seen.eraseDups ++ [e] := by
  rw [List.eraseDups_append]
  by_cases h : e ∈ seen <;> simp [List.removeAll, h, List.eraseDups_cons]

/-- No expectation is listed twice, since it is found under one index. -/
theorem Consistent.nodup (h : table.Consistent) : table.entries.Nodup := by
  rw [List.nodup_iff_getElem?_ne_getElem?]
  intro i j hij hj heq
  obtain ⟨e, he⟩ : ∃ e, table.get? j = some e := ⟨_, List.getElem?_eq_getElem hj⟩
  have hi : table.find? e = some i := (h e i).2 (heq.trans he)
  rw [(h e j).2 he] at hi
  exact Nat.ne_of_gt hij (Option.some.inj hi)

/-- Interning lists what has not been seen after what has been seen. -/
theorem Consistent.entries_intern (h : table.Consistent) (hseen : table.entries = seen.eraseDups)
    (e : Expectation) : (table.intern e).2.entries = (seen ++ [e]).eraseDups := by
  have hmem : e ∈ table.entries ↔ e ∈ seen := by rw [hseen, List.mem_eraseDups]
  rw [eraseDups_concat, ← hseen, ExpectationTable.intern]
  cases hfind : table.find? e with
  | some i => rw [if_pos (hmem.1 (List.mem_of_getElem? ((h e i).1 hfind)))]
  | none => rw [if_neg fun hold => h.not_mem hfind (hmem.2 hold)]

theorem Consistent.internAll (h : table.Consistent) (es : List Expectation) :
    (table.internAll es).2.Consistent := by
  induction es generalizing table with
  | nil => exact h
  | cons e es ih => exact ih (h.intern e)

theorem Consistent.entries_internAll (h : table.Consistent)
    (hseen : table.entries = seen.eraseDups) (es : List Expectation) :
    (table.internAll es).2.entries = (seen ++ es).eraseDups := by
  induction es generalizing table seen with
  | nil => simpa [ExpectationTable.internAll] using hseen
  | cons e es ih =>
      have hrest := ih (h.intern e) (h.entries_intern hseen e)
      rwa [List.append_assoc, List.singleton_append] at hrest

theorem length_internAll (table : ExpectationTable) (es : List Expectation) :
    (table.internAll es).1.length = es.length := by
  induction es generalizing table with
  | nil => rfl
  | cons e es ih => simp [ExpectationTable.internAll, ih]

theorem get?_internAll_of_get? {k : Nat} (h : table.get? k = some e) (later : List Expectation) :
    (table.internAll later).2.get? k = some e := by
  induction later generalizing table with
  | nil => exact h
  | cons f later ih => exact ih (get?_intern_of_get? h)

/-- Every index that a run of interning returns leads to what was interned, also after the rest of
the run. -/
theorem Consistent.get?_internAll (h : table.Consistent) {i k : Nat} (he : es[i]? = some e)
    (hk : (table.internAll es).1[i]? = some k) : (table.internAll es).2.get? k = some e := by
  induction es generalizing table i with
  | nil => cases he
  | cons f es ih =>
      cases i with
      | zero =>
          obtain rfl := Option.some.inj he
          obtain rfl := Option.some.inj hk
          exact get?_internAll_of_get? (h.get?_intern f) es
      | succ i => exact ih (h.intern f) he hk

/-- What is interned into an empty table is numbered by first occurrence. -/
theorem numbers_internAll (es : List Expectation) :
    (empty.internAll es).2.Numbers es (empty.internAll es).1 := by
  have hconsistent := consistent_empty.internAll es
  refine ⟨?_, hconsistent, hconsistent.nodup, length_internAll _ _, ?_,
    consistent_empty.get?_internAll⟩
  · have hseen : empty.entries = ([] : List Expectation).eraseDups := rfl
    exact consistent_empty.entries_internAll hseen es
  · intro i j k l e f he hf hk hl
    have hgete := consistent_empty.get?_internAll he hk
    have hgetf := consistent_empty.get?_internAll hf hl
    constructor
    · rintro rfl
      exact Option.some.inj (hgete.symm.trans hgetf)
    · rintro rfl
      exact Option.some.inj (((hconsistent e k).2 hgete).symm.trans ((hconsistent e l).2 hgetf))

theorem entries_ofList (es : List Expectation) : (ofList es).entries = es.eraseDups :=
  (numbers_internAll es).entries

theorem internAll_append (table : ExpectationTable) (es later : List Expectation) :
    table.internAll (es ++ later) =
      ((table.internAll es).1 ++ ((table.internAll es).2.internAll later).1,
        ((table.internAll es).2.internAll later).2) := by
  induction es generalizing table with
  | nil => rfl
  | cons e es ih => simp only [List.cons_append, ExpectationTable.internAll, ih]

end ExpectationTable

/-- What is expected where an expression fails. -/
def Expr.expectation? {τ : Type} : Expr τ → Option Expectation
  | .leaf (.literal value ignoreCase) => some (.literal value ignoreCase)
  | .leaf (.charClass cls) => some (.charClass cls)
  | .leaf .any => some .any
  | .wrap (.named name) _ => some (.other name)
  | _ => none

/-- A table that is filled node by node interns what is expected at the nodes. -/
theorem ExpectationIndex.table_foldl (index : ExpectationIndex) (ts : List Tree) :
    (ts.foldl add index).table = (index.table.internAll (ts.filterMap Tree.expectation?)).2 := by
  induction ts generalizing index with
  | nil => rfl
  | cons t ts ih =>
      rw [List.foldl_cons, ih, add]
      cases he : t.expectation? with
      | none => rw [List.filterMap_cons_none he]
      | some e => rw [List.filterMap_cons_some he, ExpectationTable.internAll]

namespace Grammar

variable {g : Grammar} {id : Nat} {n : Node Nat}

/-- What is expected where the expression with a number fails. -/
def expectationAt (g : Grammar) (id : Nat) : Option Expectation :=
  (g.node? id).bind fun n => n.expr.expectation?

theorem expectation?_tree (h : g.node? id = some n) :
    (g.tree id).expectation? = g.expectationAt id := by
  rw [g.tree_eq h, expectationAt, h, Option.bind_some]
  cases n.expr with
  | leaf l => cases l <;> rfl
  | wrap w i => cases w <;> rfl
  | group k is => rfl

/-- The walks meet expressions that expect what their trees expect. -/
theorem filterMap_expectation?_walks (g : Grammar) :
    (g.walks.map g.tree).filterMap Tree.expectation? = g.walks.filterMap g.expectationAt := by
  rw [List.filterMap_map]
  refine List.filterMap_congr fun i hi => ?_
  obtain ⟨n, hn⟩ := (g.mem_walks_iff.1 hi).exists_node
  exact expectation?_tree hn

theorem table_expectations (g : Grammar) :
    g.expectations.table = .ofList (g.walks.filterMap g.expectationAt) := by
  rw [g.expectations_eq, ← filterMap_expectation?_walks]
  exact ExpectationIndex.table_foldl .empty _

/-- An index belongs to an expression that the walks meet and leads to what it expects. -/
theorem mem_walks_of_indexOf? {i : Nat} (h : g.expectations.indexOf? id = some i) :
    id ∈ g.walks ∧ ∃ e, g.expectationAt id = some e ∧ g.expectations.table.get? i = some e := by
  have hsound : g.expectations.Sound
      fun j => if j ∈ g.walks then g.expectationAt j else none := by
    rw [g.expectations_eq]
    refine ExpectationIndex.sound_empty.foldl fun t ht => ?_
    obtain ⟨hbody, htree⟩ := inBody_of_mem_walks ht
    obtain ⟨n, hn⟩ := hbody.exists_node
    rw [if_pos (g.mem_walks_iff.2 hbody), ← expectation?_tree hn, ← htree]
  obtain ⟨e, he, hget⟩ := hsound.leads id i (mem_of_lookup h)
  by_cases hid : id ∈ g.walks
  · exact ⟨hid, e, by simpa [hid] using he, hget⟩
  · simp [hid] at he

/-- The table lists what an expression expects under the index of the expression. -/
theorem indexOf?_eq_some_iff (g : Grammar) (id i : Nat) :
    g.expectations.indexOf? id = some i ↔ id ∈ g.walks ∧ ∃ e, g.expectationAt id = some e ∧
      (g.walks.filterMap g.expectationAt).eraseDups[i]? = some e := by
  have hlisted : g.expectations.table.entries = (g.walks.filterMap g.expectationAt).eraseDups := by
    rw [g.table_expectations, ExpectationTable.entries_ofList]
  rw [← hlisted]
  refine ⟨mem_walks_of_indexOf?, ?_⟩
  rintro ⟨hid, e, he, hget⟩
  have hbody := g.mem_walks_iff.1 hid
  obtain ⟨n, hn⟩ := hbody.exists_node
  obtain ⟨k, hk, hfound⟩ := exists_indexOf? hbody ((expectation?_tree hn).trans he)
  have hconsistent : g.expectations.table.Consistent := by
    rw [g.table_expectations]
    exact (ExpectationTable.numbers_internAll _).consistent
  -- the table lists no expectation twice
  rw [hk, ← (hconsistent e k).2 hfound]
  exact (hconsistent e i).2 hget

/-- Expectations are numbered in the order of first occurrence, and those of a grammar in pre-order
of the bodies, rule by rule.  An expression that is met and expects something has the index under
which that is listed, and no other expression has an index. -/
theorem expectations_numbered :
    (∀ es later : List Expectation, ∃ indices table indices' table',
      ExpectationTable.empty.internAll es = (indices, table) ∧
        table.internAll later = (indices', table') ∧ table.Numbers es indices ∧
        table'.Numbers (es ++ later) (indices ++ indices') ∧
        ∀ k e, table.get? k = some e → table'.get? k = some e) ∧
    ∀ g : Grammar, ∃ met,
      (∀ order, g.Meets ∅ (g.rules.map (·.body)) order ↔ order = met) ∧
        g.expectations.table = .ofList (met.filterMap g.expectationAt) ∧
        ∀ id i, g.expectations.indexOf? id = some i ↔
          id ∈ met ∧ ∃ e, g.expectationAt id = some e ∧
            (met.filterMap g.expectationAt).eraseDups[i]? = some e := by
  constructor
  · intro es later
    have hall := ExpectationTable.numbers_internAll (es ++ later)
    rw [ExpectationTable.internAll_append] at hall
    exact ⟨_, _, _, _, rfl, rfl, ExpectationTable.numbers_internAll es, hall,
      fun k e hk => ExpectationTable.get?_internAll_of_get? hk later⟩
  · intro g
    exact ⟨g.walks, fun _ => g.meets_walks_iff, g.table_expectations, g.indexOf?_eq_some_iff⟩

end Grammar

end Packrat
