import Unalix.CleanUrl.Rebuild
import Unalix.Foundations.Buffers
import Unalix.Parameters

/-!
# The memory of the query that is written again (`clean_url.c`)

Before the loop over the parameters `unalix_clean_url` extends the memory of the query to three times
its length, and allocates as many parameters as the query has, to look for duplicates in. The loop
writes with `strcat` and counts its position up, and asks for neither size. Its states are those of
`rebuildParameter` (`rebuildTurn_spec`), and the bound on their text is a bound on all that is
written (`rebuildLoop_fits`).
-/

namespace Unalix

open CString Buffers

/-- The memory of the loop: the query, and the parameters that are compared with; `position` is the
length of `parameters`, and `parametersSize` the size of their memory, if it is allocated. -/
structure RebuildMemory where
  query : Buffer UInt8
  parametersSize : ℕ
  parameters : List Parameter
  deriving DecidableEq, Repr

def RebuildMemory.position (st : RebuildMemory) : ℕ := st.parameters.length

/-- The calls of `strcat` for a parameter. -/
def writeParameter (dst : Buffer UInt8) (parameter : Parameter) : Buffer UInt8 :=
  let dst := if dst.content ≠ [] then dst.strcat [andSign] else dst
  let dst := if parameter.key.isSome then dst.strcat (text parameter.key) else dst
  let dst := dst.strcat [equalSign]
  if parameter.value.isSome then dst.strcat (text parameter.value) else dst

/-- The memory before the loop, for a query and what it was parsed as. -/
def rebuildStart (flags : Flags) (query : Bytes) (obj : Query) : RebuildMemory where
  query := (Buffer.ofSize (query.length * 3 + 1)).strcpy []
  parametersSize := if flags.stripDuplicates ≠ 0 then obj.size else 0
  parameters := []

/-- The body of the loop over its memory. -/
def rebuildTurn (flags : Flags) (st : RebuildMemory) (parameter : Parameter) : RebuildMemory :=
  if flags.stripEmpty ≠ 0 && (parameter.key.isNone || parameter.value.isNone) then st
  else if flags.stripDuplicates ≠ 0 then
    if st.parameters.any (sameKey parameter) then st
    else { st with
      query := writeParameter st.query parameter
      parameters := st.parameters ++ [parameter] }
  else { st with query := writeParameter st.query parameter }

/-- Everything that is written lies inside the memory, and the text has at most `n` bytes. -/
structure RebuildMemory.Bounded (n : ℕ) (st : RebuildMemory) : Prop where
  fits : st.query.Fits
  text : st.query.content.length ≤ n
  parameters : st.position * sizeofParameter ≤ st.parametersSize

/-! ## What is written -/

theorem writeParameter_spec {dst : Buffer UInt8} (h : dst.Terminated) (parameter : Parameter) :
    (writeParameter dst parameter).Terminated ∧ (writeParameter dst parameter).size = dst.size ∧
      (writeParameter dst parameter).content = appendParameter dst.content parameter := by
  have hif {p : Prop} [Decidable p] {b : Buffer UInt8} (hb : b.Terminated) (s : Bytes) :
      (if p then b.strcat s else b).Terminated ∧ (if p then b.strcat s else b).size = b.size ∧
        (if p then b.strcat s else b).content = b.content ++ if p then s else [] := by
    split_ifs
    · exact ⟨hb.strcat s, rfl, rfl⟩
    · exact ⟨hb, rfl, (List.append_nil _).symm⟩
  have htext (field : Option Bytes) : (if field.isSome then text field else []) = text field := by
    cases field <;> rfl
  obtain ⟨h₁, hsize₁, hcontent₁⟩ := @hif (dst.content ≠ []) _ _ h [andSign]
  obtain ⟨h₂, hsize₂, hcontent₂⟩ := @hif (parameter.key.isSome = true) _ _ h₁ (text parameter.key)
  obtain ⟨h₃, hsize₃, hcontent₃⟩ :=
    @hif (parameter.value.isSome = true) _ _ (h₂.strcat [equalSign]) (text parameter.value)
  refine ⟨h₃, hsize₃.trans (hsize₂.trans hsize₁), hcontent₃.trans ?_⟩
  rw [Buffer.content_strcat, hcontent₂, hcontent₁, htext, htext, appendParameter]
  split_ifs
  · rfl
  · rw [List.append_nil]

/-- What the loop keeps: its memory holds the state of `rebuildParameter`, up to a terminator. -/
structure RebuildMemory.Holds (st : RebuildMemory) (size parametersSize : ℕ)
    (state : Bytes × List Parameter) : Prop where
  terminated : st.query.Terminated
  size : st.query.size = size
  parametersSize : st.parametersSize = parametersSize
  content : st.query.content = state.1
  parameters : st.parameters = state.2

/-- **One turn of the loop.** -/
theorem rebuildTurn_spec {flags : Flags} {st : RebuildMemory} {size parametersSize : ℕ}
    {state : Bytes × List Parameter} (h : st.Holds size parametersSize state)
    (parameter : Parameter) : (rebuildTurn flags st parameter).Holds size parametersSize
      (rebuildParameter flags state parameter) := by
  obtain ⟨hterminated, hsize, hcontent⟩ := writeParameter_spec h.terminated parameter
  rw [h.content] at hcontent
  rw [h.size] at hsize
  rw [rebuildTurn, rebuildParameter, h.parameters]
  split
  · exact h
  · split
    · split
      · exact h
      · exact ⟨hterminated, hsize, h.parametersSize, hcontent, rfl⟩
    · exact ⟨hterminated, hsize, h.parametersSize, hcontent, rfl⟩

/-- **The loop**, after any number of parameters. -/
theorem rebuildLoop_spec (flags : Flags) (parameters : List Parameter) {st : RebuildMemory}
    {size parametersSize : ℕ} {state : Bytes × List Parameter}
    (h : st.Holds size parametersSize state) :
    (parameters.foldl (rebuildTurn flags) st).Holds size parametersSize
      (parameters.foldl (rebuildParameter flags) state) := by
  induction parameters generalizing st state with
  | nil => exact h
  | cons parameter parameters ih => exact ih (rebuildTurn_spec h parameter)

/-- A parsed query has memory for its parameters. -/
theorem Query.size_putAll {obj obj' : Query} {parameters : List Parameter}
    (h : obj.putAll parameters = .ok obj') :
    obj'.size = obj.size + parameters.length * sizeofParameter ∧
      obj'.parameters = obj.parameters ++ parameters := by
  induction parameters generalizing obj with
  | nil =>
    obtain rfl := Except.ok.inj h
    simp
  | cons parameter parameters ih =>
    rw [putAll, List.foldlM_cons, putParameter_eq, Outcome.ok_bind] at h
    obtain ⟨hsize, hparameters⟩ := ih h
    constructor
    · rw [hsize, List.length_cons]
      ring
    · rw [hparameters, List.append_assoc, List.singleton_append]

/-- **The rebuilt query fits its memory**: after any number of parameters the text has at most three
times the length of the query, no byte has been written behind it or its terminator, and there is
memory for every parameter that is kept. -/
theorem rebuildLoop_fits (flags : Flags) {query : Bytes} {obj : Query} (hne : query ≠ [])
    (hparse : Query.parse {} query = .ok obj) : ∀ parameters, parameters <+: obj.parameters →
      (parameters.foldl (rebuildTurn flags) (rebuildStart flags query obj)).Bounded
          (3 * query.length) ∧
        (parameters.foldl (rebuildTurn flags) (rebuildStart flags query obj)).position ≤
          obj.size / sizeofParameter := by
  intro parameters hprefix
  rw [Query.parse_eq] at hparse
  obtain ⟨hobj, hall⟩ := Query.size_putAll hparse
  rw [List.nil_append] at hall
  rw [hall] at hprefix
  have hstart : (rebuildStart flags query obj).Holds (query.length * 3 + 1)
      (if flags.stripDuplicates ≠ 0 then obj.size else 0) ([], []) :=
    ⟨Buffer.terminated_strcpy _ [], rfl, rfl, rfl, rfl⟩
  have hholds := rebuildLoop_spec flags parameters hstart
  obtain ⟨htext, hcount⟩ := rebuildParameter_fits flags hne hprefix
  generalize parameters.foldl (rebuildTurn flags) (rebuildStart flags query obj) = st at hholds ⊢
  have hposition : st.position ≤ (queryParse query).length := by
    rw [RebuildMemory.position, hholds.parameters]
    exact hcount
  rw [← hholds.content] at htext
  have hsize : obj.size = (queryParse query).length * sizeofParameter := by
    rw [hobj]
    exact Nat.zero_add _
  refine ⟨⟨?_, by omega, ?_⟩, ?_⟩
  · rw [hholds.terminated.fits_iff, hholds.size]
    omega
  · -- without the flag no parameter is kept
    rw [hholds.parametersSize]
    split_ifs with hflag
    · rw [hsize]
      exact Nat.mul_le_mul_right _ hposition
    · have hnone : st.position = 0 := by
        rw [RebuildMemory.position, hholds.parameters, foldl_rebuildParameter, rebuiltState,
          if_neg hflag]
        rfl
      rw [hnone, Nat.zero_mul]
  · rw [hsize, Nat.mul_div_cancel _ (by decide)]
    exact hposition

/-- The query `&` and all of its two parameters, whose text is as long as the bound allows. -/
theorem rebuildLoop_fits_and :
    (([⟨none, none⟩, ⟨none, none⟩] : List Parameter).foldl (rebuildTurn {})
        (rebuildStart {} (str "&") ⟨32, 3, [⟨none, none⟩, ⟨none, none⟩]⟩)).Bounded
          (3 * (str "&").length) ∧
      (([⟨none, none⟩, ⟨none, none⟩] : List Parameter).foldl (rebuildTurn {})
        (rebuildStart {} (str "&") ⟨32, 3, [⟨none, none⟩, ⟨none, none⟩]⟩)).position ≤
          32 / sizeofParameter :=
  @rebuildLoop_fits {} (str "&") ⟨32, 3, [⟨none, none⟩, ⟨none, none⟩]⟩ (by decide) (by
    rw [Query.parse_eq, queryParse_eq]
    rfl) [⟨none, none⟩, ⟨none, none⟩] List.prefix_rfl

end Unalix
