import Unalix.Foundations.Calls
import Mathlib.Data.Multiset.MapFold

/-!
# Blocks of memory

A heap gives every block that is allocated an address of its own, which no later block gets. A call
that reads, writes or frees an address where no block is ends with an error, so a run without this
error has freed nothing twice and has used nothing after it was freed. An access that runs over the
end of its block can be an error as well; or the program goes on, as in C, and the bytes behind the
end are counted (`beyond`).

`Holds k h cells` says which blocks there are, all of them, and that `k` bytes were accessed behind
the end of a block. Each call changes the cells in one way (`Holds.alloc`, `Holds.write`,
`Holds.free`), so what a program leaves allocated can be read off from what it was given.
-/

namespace Unalix.Heaps

open Calls

variable {ε B : Type}

/-- The blocks that are allocated; at `next` and behind it there is none. `outside` counts the bytes
behind the ends of blocks that were accessed. -/
structure Heap (B : Type) where
  next : ℕ
  blocks : ℕ → Option B
  fresh : ∀ a, next ≤ a → blocks a = none
  outside : ℕ := 0

namespace Heap

def empty : Heap B where
  next := 0
  blocks _ := none
  fresh _ _ := rfl

/-- A block at a new address. -/
def insert (h : Heap B) (b : B) : Heap B where
  next := h.next + 1
  blocks := Function.update h.blocks h.next (some b)
  fresh a ha := by
    rw [Function.update_of_ne (by omega)]
    exact h.fresh a (by omega)
  outside := h.outside

/-- The block at `a`, if there is one, is replaced or removed. -/
def change (h : Heap B) (a : ℕ) (f : B → Option B) : Heap B where
  next := h.next
  blocks := Function.update h.blocks a ((h.blocks a).bind f)
  fresh c hc := by
    by_cases hca : c = a
    · rw [hca, Function.update_self, ← hca, h.fresh c hc, Option.bind_none]
    · rw [Function.update_of_ne hca, h.fresh c hc]
  outside := h.outside

@[simp] theorem blocks_insert_self (h : Heap B) (b : B) : (h.insert b).blocks h.next = some b :=
  Function.update_self ..

theorem blocks_insert_of_ne {h : Heap B} {a : ℕ} (ha : a ≠ h.next) (b : B) :
    (h.insert b).blocks a = h.blocks a :=
  Function.update_of_ne ha _ _

@[simp] theorem blocks_change_self (h : Heap B) (a : ℕ) (f : B → Option B) :
    (h.change a f).blocks a = (h.blocks a).bind f :=
  Function.update_self ..

theorem blocks_change_of_ne {a c : ℕ} (hc : c ≠ a) (h : Heap B) (f : B → Option B) :
    (h.change a f).blocks c = h.blocks c :=
  Function.update_of_ne hc _ _

end Heap

/-! ## Calls -/

def alloc (b : B) : EStateM ε (Heap B) ℕ := fun h => .ok h.next (h.insert b)

/-- The block at `a`; `e` is the error when there is none. -/
def read (e : ε) (a : ℕ) : EStateM ε (Heap B) B := fun h =>
  match h.blocks a with
  | none => .error e h
  | some b => .ok b h

def write (e : ε) (a : ℕ) (b : B) : EStateM ε (Heap B) Unit := fun h =>
  match h.blocks a with
  | none => .error e h
  | some _ => .ok () (h.change a fun _ => some b)

def free (e : ε) (a : ℕ) : EStateM ε (Heap B) Unit := fun h =>
  match h.blocks a with
  | none => .error e h
  | some _ => .ok () (h.change a fun _ => none)

/-- An access runs over the end of its block by some bytes, and the program goes on. -/
def beyond (count : ℕ) : EStateM ε (Heap B) Unit := fun h =>
  .ok () { h with outside := h.outside + count }

/-! ## Arrays

An array is a block with a list, in which an element is `none` until it is written. -/

/-- The blocks that are arrays with elements of the type `X`. -/
structure ArrayKind (B X : Type) where
  block : List (Option X) → B
  items : B → Option (List (Option X))
  items_block : ∀ l, items (block l) = some l

section Arrays

variable {X : Type} (K : ArrayKind B X) (e : ε)

def readArray (a : ℕ) : EStateM ε (Heap B) (List (Option X)) := do
  let b ← read e a
  match K.items b with
  | some items => return items
  | none => throw e

/-- An element that was written. -/
def getAt (a index : ℕ) : EStateM ε (Heap B) X := do
  let items ← readArray K e a
  match items[index]? with
  | some (some x) => return x
  | _ => throw e

/-- The assignment of an element. -/
def setAt (a index : ℕ) (x : X) : EStateM ε (Heap B) Unit := do
  let items ← readArray K e a
  if index < items.length then write e a (K.block (items.set index (some x))) else throw e

def allocArray (count : ℕ) : EStateM ε (Heap B) ℕ := alloc (K.block (List.replicate count none))

/-- The array, if there is one, gets `count` elements, and is somewhere else afterwards. -/
def reallocArray (array : Option ℕ) (count : ℕ) : EStateM ε (Heap B) ℕ :=
  match array with
  | none => allocArray K count
  | some a => do
    let items ← readArray K e a
    free e a
    alloc (K.block (items.take count ++ List.replicate (count - items.length) none))

end Arrays

/-! ## The blocks of a heap -/

/-- The blocks of the heap are `cells`, each at an address of its own, and `k` bytes behind the ends
of blocks were accessed. -/
structure Holds (k : ℕ) (h : Heap B) (cells : Multiset (ℕ × B)) : Prop where
  nodup : (cells.map Prod.fst).Nodup
  blocks_iff : ∀ a b, h.blocks a = some b ↔ (a, b) ∈ cells
  outside_eq : h.outside = k

theorem holds_empty : Holds 0 (Heap.empty : Heap B) 0 :=
  ⟨Multiset.nodup_zero, fun a b => by simp [Heap.empty], rfl⟩

namespace Holds

variable {k : ℕ} {h : Heap B} {a : ℕ} {b : B} {cells : Multiset (ℕ × B)}

theorem blocks_eq (hh : Holds k h ((a, b) ::ₘ cells)) : h.blocks a = some b :=
  (hh.blocks_iff a b).2 (Multiset.mem_cons_self _ _)

theorem not_mem (hh : Holds k h ((a, b) ::ₘ cells)) (c : B) : (a, c) ∉ cells := by
  intro hc
  have hnodup := hh.nodup
  rw [Multiset.map_cons, Multiset.nodup_cons] at hnodup
  exact hnodup.1 (Multiset.mem_map.2 ⟨(a, c), hc, rfl⟩)

theorem alloc (hh : Holds k h cells) (b : B) :
    ∃ a h', (Heaps.alloc b : EStateM ε (Heap B) ℕ) h = .ok a h' ∧ Holds k h' ((a, b) ::ₘ cells) := by
  have hnew (c : B) : (h.next, c) ∉ cells := by
    rw [← hh.blocks_iff, h.fresh h.next le_rfl]
    nofun
  refine ⟨h.next, h.insert b, rfl, ?_, ?_, hh.outside_eq⟩
  · rw [Multiset.map_cons, Multiset.nodup_cons]
    refine ⟨fun hmem => ?_, hh.nodup⟩
    obtain ⟨⟨_, c⟩, hc, rfl⟩ := Multiset.mem_map.1 hmem
    exact hnew c hc
  · intro a c
    rw [Multiset.mem_cons, Prod.mk.injEq, ← hh.blocks_iff]
    by_cases ha : a = h.next
    · subst ha
      simp [h.fresh h.next le_rfl, eq_comm]
    · simp [Heap.blocks_insert_of_ne ha, ha]

theorem read (hh : Holds k h ((a, b) ::ₘ cells)) (e : ε) : Heaps.read e a h = .ok b h := by
  rw [Heaps.read, hh.blocks_eq]

theorem write (hh : Holds k h ((a, b) ::ₘ cells)) (e : ε) (c : B) :
    ∃ h', Heaps.write e a c h = .ok () h' ∧ Holds k h' ((a, c) ::ₘ cells) := by
  refine ⟨h.change a fun _ => some c, by rw [Heaps.write, hh.blocks_eq], ?_, ?_, hh.outside_eq⟩
  · have hnodup := hh.nodup
    rwa [Multiset.map_cons] at hnodup ⊢
  · intro a' d
    have hblocks := hh.blocks_iff a' d
    rw [Multiset.mem_cons, Prod.mk.injEq] at hblocks ⊢
    by_cases ha : a' = a
    · subst ha
      simp [hh.blocks_eq, hh.not_mem, eq_comm]
    · rw [Heap.blocks_change_of_ne ha, hblocks]
      simp [ha]

theorem free (hh : Holds k h ((a, b) ::ₘ cells)) (e : ε) :
    ∃ h', Heaps.free e a h = .ok () h' ∧ Holds k h' cells := by
  refine ⟨h.change a fun _ => none, by rw [Heaps.free, hh.blocks_eq], ?_, ?_, hh.outside_eq⟩
  · have hnodup := hh.nodup
    rw [Multiset.map_cons, Multiset.nodup_cons] at hnodup
    exact hnodup.2
  · intro a' d
    by_cases ha : a' = a
    · subst ha
      simp [hh.blocks_eq, hh.not_mem]
    · rw [Heap.blocks_change_of_ne ha, hh.blocks_iff, Multiset.mem_cons, Prod.mk.injEq]
      simp [ha]

theorem beyond (hh : Holds k h cells) (count : ℕ) :
    ∃ h', (Heaps.beyond count : EStateM ε (Heap B) Unit) h = .ok () h' ∧
      Holds (k + count) h' cells :=
  ⟨_, rfl, hh.nodup, hh.blocks_iff, congrArg (· + count) hh.outside_eq⟩

section Arrays

variable {X : Type} {K : ArrayKind B X} {w z : List (Option X)}

theorem readArray {items : List (Option X)} (hh : Holds k h ((a, K.block items) ::ₘ cells))
    (e : ε) : Heaps.readArray K e a h = .ok items h := by
  rw [Heaps.readArray, run_bind, hh.read]
  simp only [K.items_block]
  rfl

theorem getAt {x : X} (hh : Holds k h ((a, K.block (w ++ some x :: z)) ::ₘ cells)) (e : ε) :
    Heaps.getAt K e a w.length h = .ok x h := by
  rw [Heaps.getAt, run_bind, hh.readArray]
  simp only [List.getElem?_append_right le_rfl, Nat.sub_self, List.getElem?_cons_zero]
  rfl

theorem setAt {y : Option X} (hh : Holds k h ((a, K.block (w ++ y :: z)) ::ₘ cells)) (e : ε)
    (x : X) : ∃ h', Heaps.setAt K e a w.length x h = .ok () h' ∧
      Holds k h' ((a, K.block (w ++ some x :: z)) ::ₘ cells) := by
  have hlt : w.length < (w ++ y :: z).length := by simp
  have hset : (w ++ y :: z).set w.length (some x) = w ++ some x :: z := by
    rw [List.set_append_right _ _ le_rfl, Nat.sub_self, List.set_cons_zero]
  rw [Heaps.setAt, run_bind, hh.readArray]
  simp only [if_pos hlt, hset]
  exact hh.write e _

theorem allocArray (hh : Holds k h cells) (count : ℕ) :
    ∃ a h', (Heaps.allocArray K count : EStateM ε (Heap B) ℕ) h = .ok a h' ∧
      Holds k h' ((a, K.block (List.replicate count none)) ::ₘ cells) :=
  hh.alloc _

/-- An array is extended. -/
theorem reallocArray {items : List (Option X)} (hh : Holds k h ((a, K.block items) ::ₘ cells))
    (e : ε) (count : ℕ) :
    ∃ a' h', Heaps.reallocArray K e (some a) (items.length + count) h = .ok a' h' ∧
      Holds k h' ((a', K.block (items ++ List.replicate count none)) ::ₘ cells) := by
  obtain ⟨h₁, hfree, hh₁⟩ := hh.free e
  obtain ⟨a', h', halloc, hh'⟩ := hh₁.alloc (ε := ε)
    (K.block (items ++ List.replicate count none))
  refine ⟨a', h', ?_, hh'⟩
  rw [Heaps.reallocArray, run_bind, hh.readArray]
  simp only
  rw [run_bind, hfree, List.take_of_length_le (by omega), Nat.add_sub_cancel_left]
  exact halloc

end Arrays

/-- Two descriptions of the same heap are the same. -/
theorem unique {k' : ℕ} {cells' : Multiset (ℕ × B)} (hh : Holds k h cells)
    (hh' : Holds k' h cells') :
    cells = cells' := by
  refine (Multiset.Nodup.ext hh.nodup.of_map hh'.nodup.of_map).2 fun ⟨a, b⟩ => ?_
  rw [← hh.blocks_iff, ← hh'.blocks_iff]

end Holds

/-- How many blocks are allocated. -/
def HasBlocks (h : Heap B) (n : ℕ) : Prop := ∃ k cells, Holds k h cells ∧ cells.card = n

theorem hasBlocks_zero_iff (h : Heap B) : HasBlocks h 0 ↔ ∀ a, h.blocks a = none := by
  refine ⟨fun ⟨k, cells, hh, hcard⟩ a => ?_, fun hnone =>
    ⟨h.outside, 0, ⟨Multiset.nodup_zero, ?_, rfl⟩, rfl⟩⟩
  · rw [Multiset.card_eq_zero] at hcard
    subst hcard
    rcases hb : h.blocks a with _ | b
    · rfl
    · simpa using (hh.blocks_iff a b).1 hb
  · simp [hnone]

theorem HasBlocks.eq_zero_iff {h : Heap B} {n : ℕ} (hh : HasBlocks h n) :
    (∀ a, h.blocks a = none) ↔ n = 0 := by
  rw [← hasBlocks_zero_iff]
  refine ⟨fun hzero => ?_, fun hn => hn ▸ hh⟩
  obtain ⟨k, cells, hcells, rfl⟩ := hh
  obtain ⟨k', cells', hcells', hcard⟩ := hzero
  rw [hcells.unique hcells', hcard]

end Unalix.Heaps
