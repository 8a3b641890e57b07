import Unalix.OnHeap.Uri

/-!
# Arrays of keys and values in memory

`struct Query` and `struct HTTPHeaders` have an array each that is extended by one element for each
parameter or header. An element owns two texts, and the array owns its elements.
-/

namespace Unalix.OnHeap

open Calls Heaps CString Ascii

/-! ## Accesses -/

def pairArray : ArrayKind Block Pair where
  block := .pairs
  items
    | .pairs items => some items
    | _ => none
  items_block _ := rfl

def getPair (array : Option ℕ) (index : ℕ) : HeapCall Pair :=
  match array with
  | none => throw invalid
  | some a => getAt pairArray invalid a index

def setPair (array : Option ℕ) (index : ℕ) (parameter : Pair) : HeapCall Unit :=
  match array with
  | none => throw invalid
  | some a => setAt pairArray invalid a index parameter

/-- `realloc` for one element more, which is assigned. -/
def appendPair (array : Option ℕ) (count index : ℕ) (parameter : Pair) : HeapCall ℕ := do
  let items ← reallocArray pairArray invalid array count
  setPair (some items) index parameter
  return items

/-! ## Placed values -/

/-- A `struct Parameter` or a `struct HTTPHeader` with its texts. -/
structure PlacedPair where
  key : PlacedText := none
  value : PlacedText := none

namespace PlacedPair

def record (t : PlacedPair) : Pair where
  key := t.key.record
  value := t.value.record

def cells (t : PlacedPair) : Multiset (ℕ × Block) := t.key.cells + t.value.cells

theorem key_le (t : PlacedPair) : t.key.cells ≤ t.cells := Multiset.le_add_right _ _

theorem value_le (t : PlacedPair) : t.value.cells ≤ t.cells := Multiset.le_add_left _ _

/-- The elements of an array, and what they own. -/
def elements (items : List PlacedPair) : List (Option Pair) := items.map fun t => some t.record

def itemCells (items : List PlacedPair) : Multiset (ℕ × Block) := (items.map cells).sum

@[simp] theorem elements_nil : elements [] = [] := rfl

@[simp] theorem elements_cons (t : PlacedPair) (items : List PlacedPair) :
    elements (t :: items) = some t.record :: elements items := rfl

@[simp] theorem elements_append (items items' : List PlacedPair) :
    elements (items ++ items') = elements items ++ elements items' := List.map_append

@[simp] theorem length_elements (items : List PlacedPair) :
    (elements items).length = items.length := List.length_map _

@[simp] theorem itemCells_nil : itemCells [] = 0 := rfl

@[simp] theorem itemCells_cons (t : PlacedPair) (items : List PlacedPair) :
    itemCells (t :: items) = t.cells + itemCells items := by
  simp [itemCells]

@[simp] theorem itemCells_append (items items' : List PlacedPair) :
    itemCells (items ++ items') = itemCells items + itemCells items' := by
  simp [itemCells]

theorem le_itemCells {t : PlacedPair} {items : List PlacedPair} (ht : t ∈ items) :
    t.cells ≤ itemCells items := by
  obtain ⟨w, z, rfl⟩ := List.append_of_mem ht
  rw [itemCells_append, itemCells_cons]
  exact (Multiset.le_add_right _ _).trans (Multiset.le_add_left _ _)

end PlacedPair

/-- An array of parameters or headers, if there is one, with what they own. -/
structure PlacedPairs where
  array : Option ℕ := none
  items : List PlacedPair := []
  array_eq : array = none → items = [] := by exact fun _ => rfl

namespace PlacedPairs

def cells (q : PlacedPairs) : Multiset (ℕ × Block) :=
  q.array.elim 0 (fun a => {(a, .pairs (PlacedPair.elements q.items))}) +
    PlacedPair.itemCells q.items

@[simp] theorem cells_none : cells {} = 0 := rfl

end PlacedPairs

/-! ## Extending and freeing an array -/

section Spec

variable {k : ℕ} {h : Heap Block} {rest : Multiset (ℕ × Block)}

/-- The array has one element more than before. -/
theorem exists_reallocPairs {q : PlacedPairs} (hh : Holds k h (q.cells + rest)) :
    ∃ a h', reallocArray pairArray invalid q.array (q.items.length + 1) h = .ok a h' ∧
      Holds k h' ((a, .pairs (PlacedPair.elements q.items ++ [none])) ::ₘ
        (PlacedPair.itemCells q.items + rest)) := by
  obtain ⟨array, items, harray⟩ := q
  cases array with
  | none =>
    cases harray rfl
    rw [PlacedPairs.cells, Option.elim_none, zero_add] at hh
    exact hh.allocArray 1
  | some a =>
    have hcells : Holds k h ((a, pairArray.block (PlacedPair.elements items)) ::ₘ
        (PlacedPair.itemCells items + rest)) := by
      rwa [PlacedPairs.cells, Option.elim_some, add_assoc, Multiset.singleton_add] at hh
    have hrealloc := hcells.reallocArray invalid 1
    rwa [PlacedPair.length_elements] at hrealloc

/-- An element is put behind those that are there. -/
theorem exists_appendPair {q : PlacedPairs} {t : PlacedPair}
    (hh : Holds k h (q.cells + (t.cells + rest))) :
    ∃ (q' : PlacedPairs) (a : ℕ) (h' : Heap Block),
      appendPair q.array (q.items.length + 1) q.items.length t.record h = .ok a h' ∧
      q'.array = some a ∧ q'.items = q.items ++ [t] ∧ Holds k h' (q'.cells + rest) := by
  obtain ⟨a, h₁, hrealloc, hh₁⟩ := exists_reallocPairs hh
  obtain ⟨h', hset, hh'⟩ := Holds.setAt (K := pairArray) hh₁ invalid t.record
  rw [PlacedPair.length_elements] at hset
  refine ⟨⟨some a, q.items ++ [t], nofun⟩, a, h', ?_, rfl, rfl, ?_⟩
  · exact (run_bind_of_ok hrealloc _).trans (run_bind_of_ok hset _)
  · have hcells : PlacedPairs.cells ⟨some a, q.items ++ [t], nofun⟩ + rest =
        (a, .pairs (PlacedPair.elements q.items ++ [some t.record])) ::ₘ
          (PlacedPair.itemCells q.items + (t.cells + rest)) := by
      simp [PlacedPairs.cells, add_assoc]
    rwa [hcells]

/-- An element of an array. -/
theorem getPair_eq {q : PlacedPairs} {cells : Multiset (ℕ × Block)} {w z : List PlacedPair}
    {t : PlacedPair} (hh : Holds k h cells) (hq : q.cells ≤ cells) (hitems : q.items = w ++ t :: z) :
    getPair q.array w.length h = .ok t.record h := by
  obtain ⟨array, items, harray⟩ := q
  cases array with
  | none => simp [harray rfl] at hitems
  | some a =>
    have hmem : (a, pairArray.block (PlacedPair.elements items)) ∈ cells := by
      refine Multiset.mem_of_le hq ?_
      rw [PlacedPairs.cells, Option.elim_some, Multiset.singleton_add]
      exact Multiset.mem_cons_self _ _
    obtain ⟨others, rfl⟩ := Multiset.exists_cons_of_mem hmem
    rw [show items = w ++ t :: z from hitems, PlacedPair.elements_append,
      PlacedPair.elements_cons] at hh
    have hget := hh.getAt invalid
    rwa [PlacedPair.length_elements] at hget

/-- **A loop that frees the texts of the elements**, and the array after it. The elements before
the place of the loop have lost their texts. -/
theorem exists_freePairs {body : Option ℕ → ℕ → HeapCall PUnit} {q : PlacedPairs}
    (hstep : ∀ (a : ℕ) (done : List (Option Pair)) (t : PlacedPair) (items : List PlacedPair)
      (h : Heap Block), Holds k h ((a, .pairs (done ++ PlacedPair.elements (t :: items))) ::ₘ
        (PlacedPair.itemCells (t :: items) + rest)) →
      ∃ x h', body (some a) done.length h = .ok ⟨⟩ h' ∧
        Holds k h' ((a, .pairs (done ++ x :: PlacedPair.elements items)) ::ₘ
          (PlacedPair.itemCells items + rest))) (hh : Holds k h (q.cells + rest)) :
    ∃ h', (forRange (body q.array) q.items.length 0 >>= fun _ => freePointer q.array) h =
      .ok () h' ∧ Holds k h' rest := by
  obtain ⟨array, items, harray⟩ := q
  cases array with
  | none =>
    cases harray rfl
    rw [PlacedPairs.cells, Option.elim_none, zero_add] at hh
    exact ⟨h, rfl, by simpa using hh⟩
  | some a =>
    rw [PlacedPairs.cells, Option.elim_some, add_assoc, Multiset.singleton_add] at hh
    let I (i : ℕ) (items : List PlacedPair) (h : Heap Block) : Prop :=
      ∃ done : List (Option Pair), done.length = i ∧
        Holds k h ((a, .pairs (done ++ PlacedPair.elements items)) ::ₘ
          (PlacedPair.itemCells items + rest))
    have hloop (i : ℕ) (t : PlacedPair) (items : List PlacedPair) (h : Heap Block)
        (hI : I i (t :: items) h) : ∃ h', body (some a) i h = .ok ⟨⟩ h' ∧ I (i + 1) items h' := by
      obtain ⟨done, rfl, hh⟩ := hI
      obtain ⟨x, h', hfree, hh'⟩ := hstep a done t items h hh
      refine ⟨h', hfree, done ++ [x], by simp, ?_⟩
      rwa [List.append_assoc, List.singleton_append]
    obtain ⟨h₁, hrun, done, -, hh⟩ := exists_forRange hloop items ⟨[], rfl, hh⟩
    rw [PlacedPair.itemCells_nil, zero_add] at hh
    obtain ⟨h', hfree, hh'⟩ := hh.free invalid
    exact ⟨h', (run_bind_of_ok hrun _).trans hfree, hh'⟩

end Spec

end Unalix.OnHeap
