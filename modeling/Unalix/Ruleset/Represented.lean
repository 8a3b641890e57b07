import Unalix.Ruleset.Placed

/-!
# The store in memory

`Represents k m rulesets rest` says that the memory `m` holds the store `rulesets`, all of it at
addresses of its own, and besides it the blocks of `rest` and nothing else, and that `k` bytes were
read behind the keys of providers. Loading keeps this, with what ill-formed providers leave behind
added to `rest`, and what is read behind short keys added to `k` (`loadRuleset_represents`); freeing
the store leaves exactly `rest` (`exists_unload`); and reading the store through its pointers gives
`rulesets` back (`getRulesets_represents`). None of the three runs into an invalid access.
-/

namespace Unalix.InMemory

open Calls Heaps

variable {Code : Type} {k : ℕ} {rest : Multiset (ℕ × Block Code)}

/-- The memory holds the store `rulesets`, and besides it the blocks of `rest`; `k` bytes were read
behind keys. -/
def Represents (k : ℕ) (m : Memory Code) (rulesets : Unalix.Rulesets Code)
    (rest : Multiset (ℕ × Block Code)) : Prop :=
  ∃ placed : PlacedRulesets Code, m.rulesets = placed.record ∧ placed.value = rulesets ∧
    Holds k m.heap (placed.cells + rest)

namespace PlacedRulesets

@[simp] theorem itemCells_nil : itemCells ([] : List (PlacedRuleset Code)) = 0 := rfl

@[simp] theorem itemCells_cons (ruleset : PlacedRuleset Code) (items : List (PlacedRuleset Code)) :
    itemCells (ruleset :: items) = ruleset.cells + itemCells items := by
  simp [itemCells]

@[simp] theorem itemCells_append (items items' : List (PlacedRuleset Code)) :
    itemCells (items ++ items') = itemCells items + itemCells items' := by
  simp [itemCells]

theorem length_elements (items : List (PlacedRuleset Code)) :
    (elements items).length = items.length := List.length_map _

/-- The blocks of a store are those of its rulesets, and its array if it has one. -/
theorem value_append (a : ℕ) (rulesets : PlacedRulesets Code) (ruleset : PlacedRuleset Code) :
    value (some (a, rulesets.list ++ [ruleset])) = rulesets.value.append ruleset.value := by
  simp only [value, list, Option.elim_some, List.length_append, List.length_singleton, Nat.mul_add,
    List.map_append, List.map_cons, List.map_nil, Unalix.Rulesets.append]

end PlacedRulesets

/-! ## Loading -/

/-- The array of the store has one element more than before. -/
theorem exists_reallocRulesets {placed : PlacedRulesets Code} {h : Heap (Block Code)}
    (hh : Holds k h (placed.cells + rest)) :
    ∃ a h', reallocRulesets placed.record.items (placed.record.size + sizeofRuleset * 1) h =
        .ok a h' ∧
      Holds k h' ((a, .rulesets (PlacedRulesets.elements placed.list ++ [none])) ::ₘ
        (PlacedRulesets.itemCells placed.list + rest)) := by
  have hsize : (sizeofRuleset * placed.list.length + sizeofRuleset * 1) / sizeofRuleset =
      placed.list.length + 1 := by
    rw [← Nat.mul_add, Nat.mul_div_cancel_left _ (by decide)]
  have hcount : placed.record.size = sizeofRuleset * placed.list.length := rfl
  rw [reallocRulesets, hcount, hsize]
  cases placed with
  | none => exact hh.allocArray 1
  | some rulesets =>
    obtain ⟨a, items⟩ := rulesets
    have hcells : Holds k h ((a, rulesetArray.block (PlacedRulesets.elements items)) ::ₘ
        (PlacedRulesets.itemCells items + rest)) := by
      rwa [← Multiset.cons_add]
    have hrealloc := hcells.reallocArray invalid 1
    rwa [PlacedRulesets.length_elements] at hrealloc

/-- The store is extended by a ruleset. -/
theorem exists_appendRuleset {placed : PlacedRulesets Code} {ruleset : PlacedRuleset Code}
    {h : Heap (Block Code)} (hh : Holds k h (placed.cells + (ruleset.cells + rest))) :
    ∃ (placed' : PlacedRulesets Code) (h' : Heap (Block Code)),
      appendRuleset placed.record ruleset.record h = .ok placed'.record h' ∧
        placed'.value = placed.value.append ruleset.value ∧ Holds k h' (placed'.cells + rest) := by
  obtain ⟨a, h₁, hrealloc, hh₁⟩ := exists_reallocRulesets hh
  obtain ⟨h', hset, hh'⟩ := exists_setRuleset hh₁ ruleset.record
  rw [PlacedRulesets.length_elements] at hset
  refine ⟨some (a, placed.list ++ [ruleset]), h', ?_, PlacedRulesets.value_append .., ?_⟩
  · rw [appendRuleset, run_bind_eq_ok]
    refine ⟨a, h₁, hrealloc, ?_⟩
    rw [run_bind_eq_ok]
    refine ⟨(), h', hset, ?_⟩
    rw [run_pure_eq_ok]
    refine ⟨?_, rfl⟩
    simp only [PlacedRulesets.record, PlacedRulesets.list, Option.elim_some, Option.map_some,
      List.length_append, List.length_singleton, Nat.mul_add]
  · have hcells : PlacedRulesets.cells (some (a, placed.list ++ [ruleset])) =
        (a, .rulesets (PlacedRulesets.elements placed.list ++ [some ruleset.record])) ::ₘ
          (PlacedRulesets.itemCells placed.list + ruleset.cells) := by
      simp [PlacedRulesets.cells, PlacedRulesets.elements]
    rwa [hcells, Multiset.cons_add, add_assoc]

theorem updateRulesets_eq_ok {call : Rulesets → HeapCall Code Rulesets} {m : Memory Code}
    {rulesets : Rulesets} {h : Heap (Block Code)} (hcall : call m.rulesets m.heap = .ok rulesets h) :
    updateRulesets call m = .ok () { heap := h, rulesets := rulesets } := by
  rw [updateRulesets, run_get_bind, run_bind_eq_ok]
  refine ⟨rulesets, { m with heap := h }, Part.run_eq_ok.2 ⟨h, hcall, rfl⟩, ?_⟩
  rw [run_modify_eq_ok]

/-- The loop over the providers does what it does on values, and leaves behind what the provider
that ends it has allocated. -/
theorem loadProviders_represents (compile : Bytes → Option Code)
    (providers : List (Bytes × Json)) {m : Memory Code} {rulesets : Unalix.Rulesets Code}
    (hm : Represents k m rulesets rest) :
    outcome (loadProviders compile providers m) =
        (Unalix.loadProviders compile providers rulesets).1 ∧
      ∃ lost, Multiset.card lost = lostProviders compile providers ∧
        Represents (k + overreads (comparedKeys compile providers))
          (final (loadProviders compile providers m))
          (Unalix.loadProviders compile providers rulesets).2 (lost + rest) := by
  induction providers generalizing k m rulesets with
  | nil => exact ⟨rfl, 0, rfl, by rwa [zero_add]⟩
  | cons provider providers ih =>
    obtain ⟨key, value⟩ := provider
    obtain ⟨placed, hrecord, hvalue, hh⟩ := hm
    have hload := @loadProvider_simulates Code compile k (placed.cells + rest) key value
    cases hresult : Unalix.loadProvider compile key value with
    | error e =>
      rw [hresult] at hload
      obtain ⟨h, hcall, lost, hcard, hh'⟩ := hload.error hh
      have hpart : heapPart.run (loadProvider compile key value) m =
          .error e { m with heap := h } := Part.run_eq_error.2 ⟨h, hcall, rfl⟩
      rw [loadProviders, Unalix.loadProviders, lostProviders, comparedKeys,
        run_bind_of_error hpart, hresult]
      refine ⟨rfl, lost, hcard, placed, hrecord, hvalue, ?_⟩
      rwa [add_left_comm]
    | ok result =>
      rw [hresult] at hload
      obtain ⟨record, h, hcall, item, rfl, rfl, hh'⟩ := hload.ok hh
      have hpart : heapPart.run (loadProvider compile key value) m =
          .ok (item.map PlacedRuleset.record) { m with heap := h } :=
        Part.run_eq_ok.2 ⟨h, hcall, rfl⟩
      rw [loadProviders, Unalix.loadProviders, lostProviders, comparedKeys, run_bind_of_ok hpart,
        hresult, overreads_cons, ← Nat.add_assoc]
      cases item with
      | none =>
        rw [Option.elim_none, zero_add] at hh'
        exact ih ⟨placed, hrecord, hvalue, hh'⟩
      | some ruleset =>
        rw [Option.elim_some, add_left_comm] at hh'
        obtain ⟨placed', h', happend, hvalue', hh''⟩ := exists_appendRuleset hh'
        rw [← hrecord] at happend
        have hupdate : updateRulesets (fun rulesets => appendRuleset rulesets ruleset.record)
            { m with heap := h } = .ok () { heap := h', rulesets := placed'.record } :=
          updateRulesets_eq_ok happend
        rw [hvalue] at hvalue'
        simp only [Option.map_some]
        rw [run_bind_of_ok hupdate]
        exact ih ⟨placed', rfl, hvalue', hh''⟩

/-- **Loading a tree** does what it does on values. -/
theorem loadRuleset_represents (compile : Bytes → Option Code) (tree : Json) {m : Memory Code}
    {rulesets : Unalix.Rulesets Code} (hm : Represents k m rulesets rest) :
    outcome (loadRuleset compile tree m) = (Unalix.loadRuleset compile tree rulesets).1 ∧
      ∃ lost, Multiset.card lost = lostProviders compile (providersOf tree) ∧
        Represents (k + overreads (comparedKeys compile (providersOf tree)))
          (final (loadRuleset compile tree m))
          (Unalix.loadRuleset compile tree rulesets).2 (lost + rest) := by
  have hkept : Represents k m rulesets (0 + rest) := by rwa [zero_add]
  unfold loadRuleset Unalix.loadRuleset providersOf
  rcases jsonObjectGet tree providersKey with _ | json
  · exact ⟨rfl, 0, rfl, hkept⟩
  · cases json with
    | object providers => exact loadProviders_represents compile providers hm
    | _ => exact ⟨rfl, 0, rfl, hkept⟩

/-! ## Freeing -/

/-- The patterns of an array from the index on are allocated, and those before it are not. -/
def PatternsLeft (k array : ℕ) (patterns : List (ℕ × Code)) (rest : Multiset (ℕ × Block Code))
    (index : ℕ) (left : List (ℕ × Code)) (h : Heap (Block Code)) : Prop :=
  ∃ done, done ++ left = patterns ∧ done.length = index ∧
    Holds k h ((array, .patterns (pointers patterns)) ::ₘ (patternCells left + rest))

theorem exists_freeItem {array index : ℕ} {patterns left : List (ℕ × Code)} {pattern : ℕ × Code}
    {h : Heap (Block Code)} (hh : PatternsLeft k array patterns rest index (pattern :: left) h) :
    ∃ h', freeItem array index h = .ok ⟨⟩ h' ∧
      PatternsLeft k array patterns rest (index + 1) left h' := by
  obtain ⟨done, rfl, rfl, hh⟩ := hh
  have hget := hh
  rw [pointers_append] at hget
  have hpattern : getPattern array done.length h = .ok pattern.1 h := by
    rw [← length_pointers done]
    exact getPattern_eq hget
  rw [patternCells_cons, Multiset.cons_add, Multiset.cons_swap] at hh
  obtain ⟨h', hfree, hh'⟩ := hh.free invalid
  refine ⟨h', ?_, done ++ [pattern], by simp, by simp, hh'⟩
  rw [freeItem, run_bind_of_ok hpattern, pcre2CodeFree, run_bind_of_ok (readPattern_eq hh)]
  exact hfree

/-- The patterns of an array and the array are freed. -/
theorem exists_freeRules {rules : PlacedRules Code} {h : Heap (Block Code)}
    (hh : Holds k h (rules.cells + rest)) :
    ∃ h', freeRules rules.record h = .ok () h' ∧ Holds k h' rest := by
  cases rules with
  | none => exact ⟨h, rfl, by rwa [PlacedRules.cells_none, zero_add] at hh⟩
  | some rules =>
    obtain ⟨array, patterns⟩ := rules
    have hleft : PatternsLeft k array patterns rest 0 patterns h :=
      ⟨[], rfl, rfl, by rwa [← Multiset.cons_add]⟩
    obtain ⟨h₁, hloop, -, -, -, hh₁⟩ := exists_forRange
      (fun _ _ _ _ hI => exists_freeItem hI) patterns hleft
    rw [patternCells_nil, zero_add] at hh₁
    obtain ⟨h', hfree, hh'⟩ := hh₁.free invalid
    exact ⟨h', (run_bind_of_ok hloop _).trans hfree, hh'⟩

/-- The arrays of a ruleset are freed, one after the other. -/
theorem exists_freeObjects (objects : List (PlacedRules Code)) {h : Heap (Block Code)}
    (hh : Holds k h ((objects.map PlacedRules.cells).sum + rest)) :
    ∃ h', freeObjects (objects.map PlacedRules.record) h = .ok () h' ∧ Holds k h' rest := by
  induction objects generalizing h with
  | nil => exact ⟨h, rfl, by simpa using hh⟩
  | cons object objects ih =>
    rw [List.map_cons, List.sum_cons, add_assoc] at hh
    obtain ⟨h₁, hfree, hh₁⟩ := exists_freeRules hh
    obtain ⟨h', hrest, hh'⟩ := ih hh₁
    exact ⟨h', (run_bind_of_ok hfree _).trans hrest, hh'⟩

/-- The five arrays of a ruleset. -/
def PlacedRuleset.arrays (ruleset : PlacedRuleset Code) : List (PlacedRules Code) :=
  [ruleset.rules, ruleset.rawRules, ruleset.referralMarketing, ruleset.exceptions,
    ruleset.redirections]

theorem PlacedRuleset.sum_arrays (ruleset : PlacedRuleset Code) :
    (ruleset.arrays.map PlacedRules.cells).sum = ruleset.arrayCells := by
  simp only [arrays, arrayCells, List.map_cons, List.map_nil, List.sum_cons, List.sum_nil, add_zero]

/-- The rulesets from the index on are allocated, and of those before it only their records. -/
def RulesetsLeft (k array : ℕ) (rest : Multiset (ℕ × Block Code)) (index : ℕ)
    (left : List (PlacedRuleset Code)) (h : Heap (Block Code)) : Prop :=
  ∃ done, List.length done = index ∧
    Holds k h ((array, .rulesets (done ++ PlacedRulesets.elements left)) ::ₘ
      (PlacedRulesets.itemCells left + rest))

theorem exists_freeRuleset {rulesets : Rulesets} {array index : ℕ}
    {left : List (PlacedRuleset Code)} {ruleset : PlacedRuleset Code} {h : Heap (Block Code)}
    (hitems : rulesets.items = some array)
    (hh : RulesetsLeft k array rest index (ruleset :: left) h) :
    ∃ h', freeRuleset rulesets index h = .ok ⟨⟩ h' ∧ RulesetsLeft k array rest (index + 1) left h' := by
  obtain ⟨done, rfl, hh⟩ := hh
  have hget : getRuleset array done.length h = .ok ruleset.record h := getRuleset_eq hh
  -- the pattern of the ruleset
  rw [PlacedRulesets.itemCells_cons, PlacedRuleset.cells, Multiset.cons_add, Multiset.cons_add,
    Multiset.cons_swap, add_assoc] at hh
  obtain ⟨h₁, hfree, hh₁⟩ := hh.free invalid
  obtain ⟨h₂, hset, hh₂⟩ := exists_setRuleset hh₁ { ruleset.record with urlPattern := none }
  have hurl : freeUrlPattern array done.length ruleset.record h = .ok () h₂ := by
    have hcode : pcre2CodeFree (some ruleset.urlPattern.1) h = .ok () h₁ :=
      (run_bind_of_ok (readPattern_eq hh) _).trans hfree
    exact (run_bind_of_ok hcode _).trans hset
  -- its arrays
  have harrays : Holds k h₂ ((ruleset.arrays.map PlacedRules.cells).sum +
      ((array, .rulesets (done ++ some { ruleset.record with urlPattern := none } ::
        PlacedRulesets.elements left)) ::ₘ (PlacedRulesets.itemCells left + rest))) := by
    rwa [ruleset.sum_arrays, Multiset.add_cons]
  obtain ⟨h', hobjects, hh'⟩ := exists_freeObjects ruleset.arrays harrays
  refine ⟨h', ?_, done ++ [some { ruleset.record with urlPattern := none }], by simp, ?_⟩
  · rw [freeRuleset, hitems]
    have hderef : deref (some array) h = .ok array h := rfl
    rw [run_bind_of_ok hderef, run_bind_of_ok hget, run_bind_of_ok hurl]
    exact hobjects
  · rwa [List.append_assoc]

/-- **The whole store is freed**, and nothing else. -/
theorem exists_rulesetsFree {placed : PlacedRulesets Code} {h : Heap (Block Code)}
    (hh : Holds k h (placed.cells + rest)) :
    ∃ h', rulesetsFree placed.record h = .ok {} h' ∧ Holds k h' rest := by
  cases placed with
  | none => exact ⟨h, rfl, by rwa [PlacedRulesets.cells, Option.elim_none, zero_add] at hh⟩
  | some rulesets =>
    obtain ⟨array, items⟩ := rulesets
    have hleft : RulesetsLeft k array rest 0 items h :=
      ⟨[], rfl, by rwa [List.nil_append, ← Multiset.cons_add]⟩
    have hitems : (PlacedRulesets.record (some (array, items))).items = some array := rfl
    obtain ⟨h₁, hloop, done, -, hh₁⟩ := exists_forRange
      (fun _ _ _ _ hI => exists_freeRuleset hitems hI) items hleft
    rw [PlacedRulesets.itemCells_nil, zero_add] at hh₁
    obtain ⟨h', hfree, hh'⟩ := hh₁.free invalid
    refine ⟨h', ?_, hh'⟩
    exact (run_bind_of_ok hloop _).trans (run_bind_of_ok hfree _)

/-- `unalix_unload_rulesets` leaves an empty store, and the blocks that were no part of it. -/
theorem exists_unload {m : Memory Code} {rulesets : Unalix.Rulesets Code}
    (hm : Represents k m rulesets rest) :
    ∃ h, unalixUnloadRulesets m = .ok () { heap := h, rulesets := {} } ∧ Holds k h rest := by
  obtain ⟨placed, hrecord, -, hh⟩ := hm
  obtain ⟨h', hfree, hh'⟩ := exists_rulesetsFree hh
  rw [← hrecord] at hfree
  exact ⟨h', updateRulesets_eq_ok hfree, hh'⟩

theorem represents_empty {h : Heap (Block Code)} (hh : Holds k h rest) :
    Represents k { heap := h, rulesets := {} } {} rest := by
  refine ⟨none, rfl, rfl, ?_⟩
  rwa [PlacedRulesets.cells, Option.elim_none, zero_add]

/-! ## Reading -/

theorem readItem_eq {array : ℕ} {done left : List (ℕ × Code)} {pattern : ℕ × Code}
    {h : Heap (Block Code)}
    (hh : Holds k h (PlacedRules.cells (some (array, done ++ pattern :: left)) + rest)) :
    readItem (PlacedRules.record (some (array, done ++ pattern :: left))) done.length h =
      .ok pattern.2 h := by
  rw [PlacedRules.cells, Option.elim_some, patternCells_append, patternCells_cons,
    Multiset.cons_add] at hh
  have hderef : deref (some array) h = .ok array h := rfl
  have hpattern : getPattern array done.length h = .ok pattern.1 h := by
    rw [pointers_append] at hh
    rw [← length_pointers done]
    exact getPattern_eq hh
  rw [Multiset.add_cons, Multiset.cons_add, Multiset.cons_swap] at hh
  rw [readItem]
  exact (run_bind_of_ok hderef _).trans ((run_bind_of_ok hpattern _).trans (readPattern_eq hh))

/-- An array of patterns is read. -/
theorem readRules_eq {rules : PlacedRules Code} {h : Heap (Block Code)}
    (hh : Holds k h (rules.cells + rest)) : readRules rules.record h = .ok rules.value h := by
  cases rules with
  | none => rfl
  | some rules =>
    obtain ⟨array, patterns⟩ := rules
    apply mapRange_eq []
    intro done pattern left hpatterns
    rw [List.nil_append] at hpatterns
    subst hpatterns
    exact readItem_eq hh

theorem readRules_of_le {rules : PlacedRules Code} {cells : Multiset (ℕ × Block Code)}
    {h : Heap (Block Code)} (hh : Holds k h cells) (hle : rules.cells ≤ cells) :
    readRules rules.record h = .ok rules.value h := by
  obtain ⟨others, rfl⟩ := Multiset.le_iff_exists_add.1 hle
  exact readRules_eq hh

theorem PlacedRuleset.cells_le_of_mem {ruleset : PlacedRuleset Code} {rules : PlacedRules Code}
    (hmem : rules ∈ ruleset.arrays) : rules.cells ≤ ruleset.arrayCells := by
  rw [← ruleset.sum_arrays]
  exact List.single_le_sum (fun _ _ => zero_le) _ (List.mem_map_of_mem hmem)

/-- A ruleset is read, wherever it is in the store. -/
theorem readRuleset_eq {array : ℕ} {done left : List (PlacedRuleset Code)}
    {ruleset : PlacedRuleset Code} {h : Heap (Block Code)}
    (hh : Holds k h (PlacedRulesets.cells (some (array, done ++ ruleset :: left)) + rest)) :
    readRuleset (PlacedRulesets.record (some (array, done ++ ruleset :: left))) done.length h =
      .ok ruleset.value h := by
  rw [PlacedRulesets.cells, Option.elim_some, PlacedRulesets.itemCells_append,
    PlacedRulesets.itemCells_cons, Multiset.cons_add] at hh
  have hderef : deref (some array) h = .ok array h := rfl
  have hget : getRuleset array done.length h = .ok ruleset.record h := by
    rw [PlacedRulesets.elements, List.map_append] at hh
    rw [← PlacedRulesets.length_elements done]
    exact getRuleset_eq hh
  rw [add_left_comm, add_assoc, ← Multiset.add_cons] at hh
  have hcells (rules : PlacedRules Code) (hmem : rules ∈ ruleset.arrays) :
      readRules rules.record h = .ok rules.value h := by
    apply readRules_of_le hh
    calc rules.cells ≤ ruleset.arrayCells := PlacedRuleset.cells_le_of_mem hmem
      _ ≤ ruleset.cells := Multiset.le_cons_self _ _
      _ ≤ _ := le_self_add
  have hurl : readPattern ruleset.urlPattern.1 h = .ok ruleset.urlPattern.2 h := by
    rw [PlacedRuleset.cells, Multiset.cons_add] at hh
    exact readPattern_eq hh
  have hpointer : deref ruleset.record.urlPattern h = .ok ruleset.urlPattern.1 h := rfl
  rw [readRuleset]
  refine (run_bind_of_ok hderef _).trans ((run_bind_of_ok hget _).trans ?_)
  rw [run_bind_of_ok hpointer, run_bind_of_ok hurl]
  rw [PlacedRuleset.arrays] at hcells
  simp only [List.forall_mem_cons] at hcells
  obtain ⟨hrules, hraw, hreferral, hexceptions, hredirections, -⟩ := hcells
  refine (run_bind_of_ok hrules _).trans ((run_bind_of_ok hraw _).trans ?_)
  refine (run_bind_of_ok hreferral _).trans ((run_bind_of_ok hexceptions _).trans ?_)
  exact run_bind_of_ok hredirections _

/-- **Reading the store** gives the values that were loaded. -/
theorem getRulesets_represents {m : Memory Code} {rulesets : Unalix.Rulesets Code}
    (hm : Represents k m rulesets rest) : getRulesets m.rulesets m.heap = .ok rulesets m.heap := by
  obtain ⟨placed, hrecord, rfl, hh⟩ := hm
  rw [hrecord]
  cases placed with
  | none => rfl
  | some rulesets =>
    obtain ⟨array, items⟩ := rulesets
    have hloop : mapRange (readRuleset (PlacedRulesets.record (some (array, items))))
        items.length 0 m.heap = .ok (items.map PlacedRuleset.value) m.heap := by
      apply mapRange_eq []
      intro done ruleset left hitems
      rw [List.nil_append] at hitems
      subst hitems
      exact readRuleset_eq hh
    exact run_bind_of_ok hloop _

end Unalix.InMemory
