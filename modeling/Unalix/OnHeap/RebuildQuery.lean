import Unalix.OnHeap.Query
import Unalix.CleanUrl.Frame
import Unalix.CleanUrl.Rebuild

/-!
# Writing the query again, in memory (`clean_url.c`)

The parameters of the query are read into a `struct Query` of their own, and written to the memory
that the query is moved to. The array of those that were written, which is only there when
duplicates are stripped, has the pointers of the others, and owns no texts. So each text is freed
once, with the `struct Query`. The memory is as large as the code computes it, and none of the texts
that are written one after the other outgrows it (`exists_rebuildQuery`).
-/

namespace Unalix.OnHeap

open Calls Heaps CString Ascii

/-! ## The code -/

/-- The comparison of two keys. -/
def sameKey (parameter other : Pair) : HeapCall Bool :=
  match parameter.key, other.key with
  | none, none => pure true
  | some key, some otherKey => do
    let key ← readString key
    let otherKey ← readString otherKey
    return key = otherKey
  | _, _ => pure false

/-- The loop over the parameters that were written, from `index` on. -/
def isDuplicate (parameter : Pair) (parameters : Option ℕ) : ℕ → ℕ → HeapCall Bool
  | 0, _ => pure false
  | count + 1, index => do
    let other ← getPair parameters index
    let same ← sameKey parameter other
    if same then pure true else isDuplicate parameter parameters count (index + 1)

/-- A parameter is written behind the text at `dst`. -/
def appendParameter (dst : ℕ) (parameter : Pair) : HeapCall Unit := do
  let text ← readString dst
  let key ← readText parameter.key
  let value ← readText parameter.value
  writeString dst (Unalix.appendParameter text { key := key, value := value })

/-- The body of the loop over the parameters; `position` of them are in the array. -/
def rebuildParameter (flags : Flags) (dst : ℕ) (parameters : Option ℕ) (position : ℕ)
    (parameter : Pair) : HeapCall ℕ :=
  if flags.stripEmpty ≠ 0 && (parameter.key.isNone || parameter.value.isNone) then pure position
  else if flags.stripDuplicates ≠ 0 then do
    let duplicate ← isDuplicate parameter parameters position 0
    if duplicate then pure position
    else do
      setPair parameters position parameter
      appendParameter dst parameter
      return position + 1
  else do
    appendParameter dst parameter
    return position

/-- The loop over the parameters, from `index` on. -/
def rebuildLoop (flags : Flags) (dst : ℕ) (query : Query) (parameters : Option ℕ) :
    ℕ → ℕ → ℕ → HeapCall Unit
  | 0, _, _ => pure ()
  | count + 1, index, position => do
    let parameter ← getPair query.parameters index
    let position ← rebuildParameter flags dst parameters position parameter
    rebuildLoop flags dst query parameters count (index + 1) position

/-- The array for the parameters that are written, when duplicates are stripped. -/
def allocParameters (flags : Flags) (query : Query) : HeapCall (Option ℕ) :=
  if flags.stripDuplicates ≠ 0 then do
    let parameters ← allocArray pairArray (query.size / sizeofParameter)
    return some parameters
  else pure none

/-- A query that is empty is freed. -/
def dropEmptyQuery (uri : URI) (dst : ℕ) : HeapCall URI := do
  let text ← readString dst
  if text = [] then do
    free invalid dst
    return { uri with query := none }
  else return uri

/-- The query is written again, if there is one. Its memory is reallocated for the longest text that
can be written, and holds the empty text at first. -/
def rebuildQuery (flags : Flags) (uri : URI) : HeapCall URI :=
  match uri.query with
  | none => pure uri
  | some text => do
    let s ← readString text
    let query ← queryParse {} s
    let parameters ← allocParameters flags query
    free invalid text
    let dst ← mallocString (s.length * 3 + 1) []
    rebuildLoop flags dst query parameters query.position 0 0
    queryFree query
    freePointer parameters
    dropEmptyQuery { uri with query := some dst } dst

/-! ## The loop -/

section Spec

variable {k : ℕ} {h : Heap Block} {cells rest : Multiset (ℕ × Block)}

theorem sameKey_eq {t other : PlacedPair} (hh : Holds k h cells) (ht : t.cells ≤ cells)
    (hother : other.cells ≤ cells) :
    sameKey t.record other.record h = .ok (Unalix.sameKey t.parameter other.parameter) h := by
  obtain ⟨key, value⟩ := t
  obtain ⟨otherKey, otherValue⟩ := other
  cases key with
  | none => cases otherKey <;> rfl
  | some key =>
    cases otherKey with
    | none => rfl
    | some otherKey =>
      have hkey := (PlacedPair.key_le _).trans ht
      have hotherKey := (PlacedPair.key_le _).trans hother
      have hread := readString_of_mem hh (Multiset.singleton_le.1 hkey)
      have hread' := readString_of_mem hh (Multiset.singleton_le.1 hotherKey)
      exact (run_bind_of_ok hread _).trans (run_bind_of_ok hread' _)

/-- The loop over the parameters that were written finds one with the same key. -/
theorem isDuplicate_eq {a : ℕ} {t : PlacedPair} {w seen : List PlacedPair} {z : List (Option Pair)}
    (hh : Holds k h ((a, .pairs (PlacedPair.elements w ++ PlacedPair.elements seen ++ z)) ::ₘ cells))
    (ht : t.cells ≤ cells) (hseen : ∀ other ∈ seen, other.cells ≤ cells) :
    isDuplicate t.record (some a) seen.length w.length h =
      .ok ((seen.map PlacedPair.parameter).any (Unalix.sameKey t.parameter)) h := by
  induction seen generalizing w with
  | nil => rfl
  | cons other seen ih =>
    rw [List.forall_mem_cons] at hseen
    have hget : getPair (some a) w.length h = .ok other.record h := by
      rw [PlacedPair.elements_cons, List.append_assoc, List.cons_append] at hh
      have hget := Holds.getAt (K := pairArray) hh invalid
      rwa [PlacedPair.length_elements] at hget
    have hsame := sameKey_eq hh (ht.trans (Multiset.le_cons_self _ _))
      (hseen.1.trans (Multiset.le_cons_self _ _))
    have hrest := @ih (w ++ [other]) (by
      rwa [PlacedPair.elements_append, PlacedPair.elements_cons, PlacedPair.elements_nil,
        List.append_assoc (PlacedPair.elements w), List.singleton_append]) hseen.2
    rw [List.length_append, List.length_singleton] at hrest
    refine (run_bind_of_ok hget _).trans ((run_bind_of_ok hsame _).trans ?_)
    rw [List.map_cons, List.any_cons]
    cases Unalix.sameKey t.parameter other.parameter with
    | true => rfl
    | false => exact hrest

/-- A parameter is written behind a text. -/
theorem exists_appendParameter {dst : ℕ} {text : Text} {t : PlacedPair}
    (hh : Holds k h ((dst, .string text) ::ₘ cells)) (ht : t.cells ≤ cells)
    (hfits : (Unalix.appendParameter text.content t.parameter).length < text.size) :
    ∃ h', appendParameter dst t.record h = .ok () h' ∧ Holds k h' ((dst, .string
      ⟨text.size, Unalix.appendParameter text.content t.parameter, hfits⟩) ::ₘ cells) := by
  have hle : t.cells ≤ (dst, .string text) ::ₘ cells := ht.trans (Multiset.le_cons_self _ _)
  have htext := readString_of_mem hh (Multiset.mem_cons_self _ _)
  have hkey := readText_of_le hh (t.key_le.trans hle)
  have hvalue := readText_of_le hh (t.value_le.trans hle)
  obtain ⟨h', hwrite, hh'⟩ := exists_writeString hh hfits
  refine ⟨h', ?_, hh'⟩
  exact (run_bind_of_ok htext _).trans ((run_bind_of_ok hkey _).trans
    ((run_bind_of_ok hvalue _).trans hwrite))

/-! ## The loop -/

/-- The array of the parameters that were written, those of `seen`, with room for `count` more. -/
def seenCells (parameters : Option ℕ) (seen : List PlacedPair) (count : ℕ) :
    Multiset (ℕ × Block) :=
  parameters.elim 0 fun a =>
    {(a, .pairs (PlacedPair.elements seen ++ List.replicate count none))}

/-- The state of the loop: the text at `dst`, in its block of `size` bytes, and the array of the
parameters in it, when duplicates are stripped. `count` parameters are left. -/
def Rebuilding (k dst size : ℕ) (parameters : Option ℕ) (items : List PlacedPair)
    (rest : Multiset (ℕ × Block)) (count position : ℕ) (state : Bytes × List Parameter)
    (h : Heap Block) : Prop :=
  ∃ (seen : List PlacedPair) (room : ℕ) (hfits : state.1.length < size), (∀ t ∈ seen, t ∈ items) ∧
    seen.length = position ∧ seen.map PlacedPair.parameter = state.2 ∧ count ≤ room ∧
    Holds k h ((dst, .string ⟨size, state.1, hfits⟩) ::ₘ (seenCells parameters seen room + rest))

/-- One parameter, for which there is room. -/
theorem exists_rebuildParameter {flags : Flags} {dst size : ℕ} {parameters : Option ℕ}
    {items : List PlacedPair} {t : PlacedPair} {count position : ℕ}
    {state : Bytes × List Parameter} (hflag : parameters.isSome ↔ flags.stripDuplicates ≠ 0)
    (hitems : PlacedPair.itemCells items ≤ rest) (ht : t ∈ items)
    (hnext : (Unalix.rebuildParameter flags state t.parameter).1.length < size)
    (hh : Rebuilding k dst size parameters items rest (count + 1) position state h) :
    ∃ position' h', rebuildParameter flags dst parameters position t.record h = .ok position' h' ∧
      Rebuilding k dst size parameters items rest count position'
        (Unalix.rebuildParameter flags state t.parameter) h' := by
  obtain ⟨seen, room, hfits, hmem, rfl, hseen, hroom, hh⟩ := hh
  obtain ⟨text, parameters'⟩ := state
  have htext := (PlacedPair.le_itemCells ht).trans (hitems.trans
    (Multiset.le_add_left _ (seenCells parameters seen room)))
  have hskipped : Rebuilding k dst size parameters items rest count seen.length
      (text, parameters') h := ⟨seen, room, hfits, hmem, rfl, hseen, by omega, hh⟩
  have hempty : (t.record.key.isNone || t.record.value.isNone) =
      (t.parameter.key.isNone || t.parameter.value.isNone) := by
    rw [PlacedPair.record, PlacedPair.parameter, PlacedText.isNone_record,
      PlacedText.isNone_record]
  rw [Unalix.rebuildParameter] at hnext
  rw [rebuildParameter, Unalix.rebuildParameter, hempty]
  by_cases hstrip : (flags.stripEmpty ≠ 0 &&
      (t.parameter.key.isNone || t.parameter.value.isNone)) = true
  · rw [if_pos hstrip, if_pos hstrip]
    exact ⟨seen.length, h, rfl, hskipped⟩
  · rw [if_neg hstrip] at hnext
    rw [if_neg hstrip, if_neg hstrip]
    by_cases hduplicates : flags.stripDuplicates ≠ 0
    · rw [if_pos hduplicates] at hnext
      rw [if_pos hduplicates, if_pos hduplicates]
      obtain ⟨a, rfl⟩ := Option.isSome_iff_exists.1 (hflag.2 hduplicates)
      obtain ⟨room, rfl⟩ := Nat.exists_eq_add_of_lt hroom
      rw [seenCells, Option.elim_some, Multiset.singleton_add, Multiset.cons_swap] at hh
      have hle {other : PlacedPair} (hother : other ∈ items) :
          other.cells ≤ (dst, Block.string ⟨size, text, hfits⟩) ::ₘ rest :=
        (PlacedPair.le_itemCells hother).trans (hitems.trans (Multiset.le_cons_self _ _))
      have hdup := @isDuplicate_eq k h ((dst, .string ⟨size, text, hfits⟩) ::ₘ rest) a t [] seen
        (List.replicate (count + room + 1) none) hh (hle ht) fun other hother =>
          hle (hmem other hother)
      rw [hseen] at hdup
      cases hany : parameters'.any (Unalix.sameKey t.parameter) with
      | true =>
        rw [hany] at hdup
        exact ⟨seen.length, h, run_bind_of_ok hdup _, hskipped⟩
      | false =>
        rw [hany] at hdup hnext
        rw [List.replicate_succ] at hh
        obtain ⟨h₁, hset, hh⟩ := Holds.setAt (K := pairArray) hh invalid t.record
        rw [PlacedPair.length_elements] at hset
        rw [Multiset.cons_swap] at hh
        obtain ⟨h', happend, hh⟩ := exists_appendParameter hh ((PlacedPair.le_itemCells ht).trans
          (hitems.trans (Multiset.le_cons_self _ _))) hnext
        refine ⟨seen.length + 1, h', ?_, seen ++ [t], count + room, hnext, ?_, by simp, ?_, by omega,
          ?_⟩
        · exact (run_bind_of_ok hdup _).trans ((run_bind_of_ok hset _).trans
            (run_bind_of_ok happend _))
        · simpa [or_imp, forall_and, ht] using hmem
        · rw [List.map_append, hseen]
          rfl
        · rw [seenCells, Option.elim_some, Multiset.singleton_add, PlacedPair.elements_append,
            List.append_assoc]
          exact hh
    · rw [if_neg hduplicates] at hnext
      rw [if_neg hduplicates, if_neg hduplicates]
      obtain ⟨h', happend, hh'⟩ := exists_appendParameter hh htext hnext
      exact ⟨seen.length, h', run_bind_of_ok happend _, seen, room, hnext, hmem, rfl, hseen,
        by omega, hh'⟩

/-- The loop over the parameters of `items`, from those of `tail` on, when there is room for the text
at each time. -/
theorem exists_rebuildLoop {flags : Flags} {dst size : ℕ} {q : PlacedQuery}
    {parameters : Option ℕ} (hflag : parameters.isSome ↔ flags.stripDuplicates ≠ 0)
    (hq : q.cells ≤ rest)
    (hroom : ∀ done, done <+: q.items.map PlacedPair.parameter →
      (done.foldl (Unalix.rebuildParameter flags) ([], [])).1.length < size)
    (w tail : List PlacedPair) (hitems : q.items = w ++ tail) {position : ℕ}
    (hh : Rebuilding k dst size parameters q.items rest tail.length position
      ((w.map PlacedPair.parameter).foldl (Unalix.rebuildParameter flags) ([], [])) h) :
    ∃ position' h', rebuildLoop flags dst q.record parameters tail.length w.length position h =
        .ok () h' ∧
      Rebuilding k dst size parameters q.items rest 0 position'
        ((q.items.map PlacedPair.parameter).foldl (Unalix.rebuildParameter flags) ([], [])) h' := by
  induction tail generalizing w position h with
  | nil =>
    rw [List.append_nil] at hitems
    rw [hitems] at hh ⊢
    exact ⟨position, h, rfl, hh⟩
  | cons t tail ih =>
    have hget : getPair q.record.parameters w.length h = .ok t.record h := by
      obtain ⟨seen, room, _, -, -, -, -, hh⟩ := hh
      exact getPair_eq hh (hq.trans ((Multiset.le_add_left _ _).trans (Multiset.le_cons_self _ _)))
        hitems
    have ht : t ∈ q.items := hitems ▸ List.mem_append_right w List.mem_cons_self
    have hstate : ((w ++ [t]).map PlacedPair.parameter).foldl (Unalix.rebuildParameter flags)
        ([], []) = Unalix.rebuildParameter flags
          ((w.map PlacedPair.parameter).foldl (Unalix.rebuildParameter flags) ([], []))
          t.parameter := by
      rw [List.map_append, List.foldl_append]
      rfl
    have hdone : (w ++ [t]).map PlacedPair.parameter <+: q.items.map PlacedPair.parameter := by
      refine ⟨tail.map PlacedPair.parameter, ?_⟩
      rw [← List.map_append, hitems, List.append_assoc, List.singleton_append]
    have hnext := hroom _ hdone
    rw [hstate] at hnext
    obtain ⟨position₁, h₁, hstep, hh⟩ := exists_rebuildParameter hflag
      ((Multiset.le_add_left _ _).trans hq) ht hnext hh
    rw [← hstate] at hh
    obtain ⟨position', h', hloop, hh'⟩ := ih (w ++ [t]) (by simpa using hitems) hh
    rw [List.length_append, List.length_singleton] at hloop
    refine ⟨position', h', ?_, hh'⟩
    exact (run_bind_of_ok hget _).trans ((run_bind_of_ok hstep _).trans hloop)

/-! ## The query -/

theorem exists_allocParameters (flags : Flags) (q : PlacedQuery) (hh : Holds k h rest) :
    ∃ parameters h', allocParameters flags q.record h = .ok parameters h' ∧
      (parameters.isSome ↔ flags.stripDuplicates ≠ 0) ∧
      Holds k h' (seenCells parameters [] q.items.length + rest) := by
  rw [allocParameters]
  by_cases hflag : flags.stripDuplicates ≠ 0
  · have hsize : q.record.size / sizeofParameter = q.items.length :=
      Nat.mul_div_cancel_left _ (by decide)
    obtain ⟨a, h', halloc, hh'⟩ := hh.allocArray (ε := Failure) (K := pairArray) q.items.length
    rw [if_pos hflag, hsize]
    exact ⟨some a, h', run_bind_of_ok halloc _, by simpa using hflag, hh'⟩
  · rw [if_neg hflag]
    exact ⟨none, h, rfl, by simpa using hflag, by rwa [seenCells, Option.elim_none, zero_add]⟩

theorem exists_freeParameters {parameters : Option ℕ} {seen : List PlacedPair} {room : ℕ}
    (hh : Holds k h (seenCells parameters seen room + rest)) :
    ∃ h', freePointer parameters h = .ok () h' ∧ Holds k h' rest := by
  cases parameters with
  | none => exact ⟨h, rfl, by rwa [seenCells, Option.elim_none, zero_add] at hh⟩
  | some a =>
    rw [seenCells, Option.elim_some, Multiset.singleton_add] at hh
    exact hh.free invalid

/-- A query that is empty is freed, and another one stays. -/
theorem exists_dropEmptyQuery {p : PlacedUri} {dst : ℕ} {text : Text}
    (hh : Holds k h ((dst, .string text) ::ₘ (p.others .query + rest))) :
    ∃ (p' : PlacedUri) (h' : Heap Block),
      dropEmptyQuery { p.record with query := some dst } dst h = .ok p'.record h' ∧
      p'.value = { p.value with query := nonempty text.content } ∧
      Holds k h' (p'.cells + rest) := by
  have hread := readString_of_mem hh (Multiset.mem_cons_self _ _)
  by_cases htext : text.content = []
  · obtain ⟨h', hfree, hh'⟩ := hh.free invalid
    refine ⟨p.put .query none, h', ?_, ?_, ?_⟩
    · refine (run_bind_of_ok hread _).trans ?_
      rw [if_pos htext]
      exact run_bind_of_ok hfree _
    · rw [htext]
      rfl
    · rwa [PlacedUri.cells_put, PlacedText.cells_none, zero_add]
  · refine ⟨p.put .query (some (dst, text)), h, ?_, ?_, ?_⟩
    · refine (run_bind_of_ok hread _).trans ?_
      rw [if_neg htext]
      rfl
    · rw [nonempty_of_ne_nil htext]
      rfl
    · rwa [PlacedUri.cells_put, PlacedText.cells_some, add_assoc, Multiset.singleton_add]

/-- **The query is written again in memory**, if it is not the empty text, and only the URI and its
texts are left of it. -/
theorem exists_rebuildQuery (flags : Flags) {p : PlacedUri} (hne : NotEmpty p.value.query)
    (hh : Holds k h (p.cells + rest)) :
    ∃ (p' : PlacedUri) (h' : Heap Block), rebuildQuery flags p.record h = .ok p'.record h' ∧
      p'.value = { p.value with query := Unalix.rebuildQuery flags p.value.query } ∧
      Holds k h' (p'.cells + rest) := by
  cases hquery : p.texts .query with
  | none =>
    have hpointer : p.record.query = none := congrArg PlacedText.record hquery
    have hvalue : p.value.query = none := congrArg PlacedText.value hquery
    refine ⟨p, h, by rw [rebuildQuery, hpointer]; rfl, ?_, hh⟩
    rw [hvalue, Unalix.rebuildQuery, ← hvalue]
  | some t =>
    obtain ⟨a, s⟩ := t
    have hpointer : p.record.query = some a := congrArg PlacedText.record hquery
    have hvalue : p.value.query = some s.content := congrArg PlacedText.value hquery
    have hcontent : s.content ≠ [] := hne s.content hvalue
    rw [p.cells_eq .query, hquery, PlacedText.cells_some, add_assoc, Multiset.singleton_add] at hh
    have hread := readString_of_mem hh (Multiset.mem_cons_self _ _)
    -- the parameters are read, and the array for those that are written is allocated
    obtain ⟨q, h₁, hparse, hitems, hh⟩ := exists_queryParse_zeroed s.content hh
    obtain ⟨parameters, h₂, hparameters, hflag, hh⟩ := exists_allocParameters flags q hh
    -- the text is moved
    rw [Multiset.add_cons, Multiset.add_cons] at hh
    obtain ⟨h₃, hfree, hh⟩ := hh.free invalid
    obtain ⟨dst, h₄, halloc, hh⟩ := exists_mallocString (s := []) hh
      (Nat.succ_pos (s.content.length * 3))
    -- the loop
    have hrebuilding : Rebuilding k dst (s.content.length * 3 + 1) parameters q.items
        (q.cells + (p.others .query + rest)) q.items.length 0 ([], []) h₄ :=
      ⟨[], q.items.length, Nat.succ_pos _, by simp, rfl, rfl, le_rfl, hh⟩
    have hroom (done : List Parameter) (hdone : done <+: q.items.map PlacedPair.parameter) :
        (done.foldl (Unalix.rebuildParameter flags) ([], [])).1.length <
          s.content.length * 3 + 1 := by
      rw [hitems] at hdone
      exact Nat.lt_succ_of_le (rebuildParameter_fits flags hcontent hdone).1
    obtain ⟨position, h₅, hloop, seen, room, _, -, -, -, -, hh⟩ := exists_rebuildLoop hflag
      (Multiset.le_add_right _ _) hroom [] q.items rfl hrebuilding
    -- the parameters and the array are freed
    rw [add_left_comm, ← Multiset.add_cons] at hh
    obtain ⟨h₆, hqueryFree, hh⟩ := exists_queryFree hh
    rw [← Multiset.add_cons] at hh
    obtain ⟨h₇, hfreeParameters, hh⟩ := exists_freeParameters hh
    obtain ⟨p', h', hdrop, hvalue', hh⟩ := exists_dropEmptyQuery hh
    refine ⟨p', h', ?_, ?_, hh⟩
    · rw [rebuildQuery, hpointer]
      refine (run_bind_of_ok hread _).trans ((run_bind_of_ok hparse _).trans ?_)
      refine (run_bind_of_ok hparameters _).trans ((run_bind_of_ok hfree _).trans ?_)
      refine (run_bind_of_ok halloc _).trans ((run_bind_of_ok hloop _).trans ?_)
      exact (run_bind_of_ok hqueryFree _).trans ((run_bind_of_ok hfreeParameters _).trans hdrop)
    · rw [hvalue', hvalue, Unalix.rebuildQuery, ← hitems]

end Spec

end Unalix.OnHeap
