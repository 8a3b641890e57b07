import Unalix.Http.NormPath
import Unalix.Foundations.Buffers

/-!
# The array of a normalised path (`utils.c`, `http.c`)

`httpnormpath` writes its result to an array of the caller, which has two bytes more than the path.
It is never asked for its size: components are appended to it, cut off again, and in the end it gets
a slash when it is empty, and the suffix. What is in it at any time is the text of `httpnormpath`
(`normLoopInto_spec`), which is no longer than what was read of the path (`addComponentInto_spec`),
but for the slash before the first component of a path that does not begin with one.
-/

namespace Unalix

open CString Ascii Buffers

/-- `*(basename(normalized_path) - 1) = 0` in the array. A text without a slash is taken as empty,
and left as it is. -/
def truncateInto (b : Buffer UInt8) : Buffer UInt8 :=
  if slash ∈ b.content then b.cut (b.content.length - (basename b.content).length - 1) else b

/-- What a component does to the array. -/
def addComponentInto (b : Buffer UInt8) (comp : Bytes) : Buffer UInt8 :=
  if !isDotted comp || isDotted (basename b.content) then (b.strcat [slash]).strcat comp
  else if b.content ≠ [] then truncateInto^[countp comp dot] b
  else b

/-- The loop over the path, with its array. -/
def normLoopInto (b : Buffer UInt8) (comp : Bytes) : Bytes → Buffer UInt8 × Option Bytes
  | [] => (if comp = [] then b else addComponentInto b comp, none)
  | ch :: path =>
    if ch = slash || ch = questionMark || ch = hashtag then
      if comp = [] then normLoopInto b [] path
      else if ch = questionMark || ch = hashtag then (addComponentInto b comp, some (ch :: path))
      else normLoopInto (addComponentInto b comp) [] path
    else normLoopInto b (comp ++ [ch]) path

/-- `httpnormpath`, with the array it writes to. -/
def httpnormpathInto (b : Buffer UInt8) (path : Bytes) : Buffer UInt8 :=
  let result := normLoopInto (b.strcpy []) [] path
  let b := if result.1.content = [] then result.1.strcat [slash] else result.1
  if result.2.isSome then b.strcat (text result.2) else b

/-- The array that `http_get_redirect` declares for it. -/
def normalizedPath (path : Bytes) : Buffer UInt8 := Buffer.ofSize (path.length + [slash].length + 1)

/-- The array of a path with `n` bytes holds the text of the loop, and was not left. -/
structure NormPath.InArray (st : NormPath) (n : ℕ) (b : Buffer UInt8) : Prop where
  content : b.content = st.normalized
  size : b.size = n + 2
  fits : b.Fits

theorem NormPath.InArray.truncateInto {st : NormPath} {n : ℕ} {b : Buffer UInt8}
    (h : st.InArray n b) (hlen : b.content.length ≤ n + 1) :
    (truncate st).InArray n (truncateInto b) ∧
      (truncateInto b).content.length ≤ b.content.length := by
  rw [Unalix.truncateInto, truncate, ← h.content]
  split_ifs
  · refine ⟨⟨rfl, h.size, h.fits.cut ?_⟩, List.length_take_le' _ _⟩
    rw [h.size]
    omega
  · exact ⟨⟨rfl, h.size, h.fits⟩, le_rfl⟩

theorem NormPath.InArray.iterate_truncateInto {st : NormPath} {n : ℕ} {b : Buffer UInt8}
    (h : st.InArray n b) (hlen : b.content.length ≤ n + 1) (count : ℕ) :
    (truncate^[count] st).InArray n (Unalix.truncateInto^[count] b) ∧
      (Unalix.truncateInto^[count] b).content.length ≤ b.content.length := by
  induction count with
  | zero => exact ⟨h, le_rfl⟩
  | succ count ih =>
    rw [Function.iterate_succ_apply', Function.iterate_succ_apply']
    obtain ⟨hcut, hle⟩ := ih.1.truncateInto (ih.2.trans hlen)
    exact ⟨hcut, hle.trans ih.2⟩

/-- **A component** adds at most itself and a slash. -/
theorem NormPath.InArray.addComponentInto {st : NormPath} {n : ℕ} {b : Buffer UInt8} {comp : Bytes}
    (h : st.InArray n b) (hlen : b.content.length + comp.length ≤ n) :
    (addComponent st comp).InArray n (addComponentInto b comp) ∧
      (addComponentInto b comp).content.length ≤ b.content.length + comp.length + 1 := by
  rw [Unalix.addComponentInto, addComponent, ← h.content]
  split_ifs
  · refine ⟨⟨by simp, h.size, (h.fits.strcat ?_).strcat ?_⟩, ?_⟩
    · rw [h.size, List.length_singleton]
      omega
    · rw [Buffer.size_strcat, h.size, Buffer.content_strcat, List.length_append,
        List.length_singleton]
      omega
    · simp only [Buffer.content_strcat, List.length_append, List.length_singleton]
      omega
  · obtain ⟨hcut, hle⟩ := h.iterate_truncateInto (by omega) (countp comp dot)
    exact ⟨hcut, by omega⟩
  · exact ⟨h, by omega⟩

/-- **The loop** puts the text of `normLoop` into the array; `n` bounds the text, the component that is
being read and the rest of the path together. -/
theorem normLoopInto_spec {st : NormPath} {n : ℕ} {b : Buffer UInt8} {comp : Bytes} (path : Bytes)
    (h : st.InArray n b) (hlen : b.content.length + comp.length + path.length ≤ n) :
    (normLoop st comp path).1.InArray n (normLoopInto b comp path).1 ∧
      (normLoopInto b comp path).2 = (normLoop st comp path).2 ∧
      (text (normLoop st comp path).2).length ≤ n ∧
      (normLoopInto b comp path).1.content.length +
        (text (normLoop st comp path).2).length ≤ n + 1 := by
  induction path generalizing st b comp with
  | nil =>
    rw [List.length_nil, Nat.add_zero] at hlen
    rw [normLoopInto, normLoop]
    split_ifs
    · exact ⟨h, rfl, Nat.zero_le n, by simpa [text] using by omega⟩
    · obtain ⟨hadd, hle⟩ := h.addComponentInto hlen
      exact ⟨hadd, rfl, Nat.zero_le n, by simpa [text] using by omega⟩
  | cons ch path ih =>
    rw [List.length_cons] at hlen
    rw [normLoopInto, normLoop]
    split_ifs with _ hnil
    · exact ih h (by rw [List.length_nil]; omega)
    · -- what follows the component is the suffix, as it is
      obtain ⟨hadd, hle⟩ := @h.addComponentInto _ _ _ comp (by omega)
      refine ⟨hadd, rfl, ?_, ?_⟩ <;> simp only [text, Option.getD_some, List.length_cons] <;> omega
    · have hpos : 0 < comp.length := List.length_pos_iff.2 hnil
      obtain ⟨hadd, hle⟩ := @h.addComponentInto _ _ _ comp (by omega)
      exact ih hadd (by rw [List.length_nil]; omega)
    · exact ih h (by rw [List.length_append, List.length_singleton]; omega)

theorem inArray_normalizedPath (path : Bytes) :
    NormPath.InArray {} path.length ((normalizedPath path).strcpy []) := by
  refine ⟨rfl, rfl, ?_⟩
  rw [normalizedPath, (Buffer.terminated_strcpy _ []).fits_iff, Buffer.content_strcpy,
    Buffer.size_strcpy, Buffer.size_ofSize, List.length_nil]
  omega

/-- **The array and its string**: it is the one of `httpnormpath`, and the array was not left. -/
theorem httpnormpathInto_eq (path : Bytes) :
    (httpnormpathInto (normalizedPath path) path).content = httpnormpath path ∧
      (httpnormpathInto (normalizedPath path) path).size = path.length + 2 ∧
      (httpnormpathInto (normalizedPath path) path).Fits := by
  obtain ⟨hloop, hsuffix, hle, hlen⟩ := @normLoopInto_spec _ _ _ [] path
    (inArray_normalizedPath path) (by simp)
  rw [httpnormpathInto, httpnormpath, hsuffix]
  generalize normLoopInto ((normalizedPath path).strcpy []) [] path = loop at hloop hlen
  generalize normLoop {} [] path = result at hloop hle hlen
  have hsize := hloop.size
  -- the slash for a text that is empty
  have hslash : ∃ b : Buffer UInt8,
      (if loop.1.content = [] then loop.1.strcat [slash] else loop.1) = b ∧
        b.content = (if result.1.normalized = [] then [slash] else result.1.normalized) ∧
        b.size = path.length + 2 ∧ b.Fits ∧
        b.content.length + (text result.2).length ≤ path.length + 1 := by
    refine ⟨_, rfl, ?_⟩
    rw [← hloop.content]
    split_ifs with hempty
    · refine ⟨by simp [hempty], hsize, hloop.fits.strcat ?_, ?_⟩
      · simp [hempty, hsize]
      · simp only [Buffer.content_strcat, hempty, List.nil_append, List.length_singleton]
        omega
    · exact ⟨rfl, hsize, hloop.fits, hlen⟩
  obtain ⟨b, hb, hcontent, hbsize, hfits, hblen⟩ := hslash
  simp only [hb, ← hcontent]
  cases hs : result.2 with
  | none => exact ⟨(List.append_nil _).symm, hbsize, hfits⟩
  | some s =>
    rw [hs] at hblen
    exact ⟨rfl, hbsize, hfits.strcat (by rw [hbsize]; omega)⟩

/-- **Normalised paths**: what is left in the array is a slash, or components behind slashes, and
behind that a suffix of the path. The array was written up to its end at most, so at no time the
string in it had more than one character more than the path. -/
theorem httpnormpathInto_shape (path : Bytes) :
    (∃ comps s, (httpnormpathInto (normalizedPath path) path).content = pathText comps ++ s ∧
        (∀ comp ∈ comps, NormalComponent comp) ∧ s <:+ path ∧ IsSuffixText s) ∧
      (httpnormpathInto (normalizedPath path) path).reach ≤ (path.length + 1) + 1 ∧
      (httpnormpathInto (normalizedPath path) path).Fits := by
  obtain ⟨hcontent, hsize, hfits⟩ := httpnormpathInto_eq path
  obtain ⟨comps, s, heq, hcomps, hsuf, hs⟩ := exists_httpnormpath_eq path
  refine ⟨⟨comps, s, hcontent.trans heq, hcomps, hsuf, hs⟩, ?_, hfits⟩
  rw [← hsize]
  exact hfits

end Unalix
