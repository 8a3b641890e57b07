import Unalix.CleanUrl.Unquote
import Unalix.Foundations.Arrays

/-!
# The array of a redirection target (`clean_url.c`, `uri.c`)

`unalix_clean_url` decodes the text that a redirection has captured into an array with room for it,
its terminator and `https://`, and `prepend_scheme_if_needed` moves what is in it to put `http://` in
front. The decoder goes over its source by index, one byte or three at a time, and writes one byte
for each turn; it looks two bytes ahead only if they belong to the string. So it writes no more than
it reads (`unquoteLoop_spec`), and both texts have room in the array (`redirectArray_suffices`).
-/

namespace Unalix

open CString Ascii Arrays

/-- The variables of `rfc3986_unquote_safe`, with the array it writes to. -/
structure UnquoteState where
  index : ℕ := 0
  dst : Bytes
  dstPosition : ℕ := 0
  deriving DecidableEq, Repr

/-- The body of its loop. -/
def unquoteTurn (src : Bytes) (srcLength : ℕ) (st : UnquoteState) : Option UnquoteState := do
  let ch ← src[st.index]?
  if ch = percent ∧ srcLength > st.index + 2 then
    let ch1 ← src[st.index + 1]?
    let ch2 ← src[st.index + 2]?
    if isalnum ch || ch ∈ uriSafeSymbols then
      let dst ← writeAt st.dst st.dstPosition [fromHex ch1 <<< 4 ||| fromHex ch2]
      return ⟨st.index + 3, dst, st.dstPosition + 1⟩
    else
      let dst ← writeAt st.dst st.dstPosition [ch]
      return ⟨st.index + 1, dst, st.dstPosition + 1⟩
  else
    let dst ← writeAt st.dst st.dstPosition [ch]
    return ⟨st.index + 1, dst, st.dstPosition + 1⟩

/-- The loop, with a bound on its turns. -/
def unquoteLoop (src : Bytes) (srcLength : ℕ) : ℕ → UnquoteState → Option UnquoteState
  | 0, st => if st.index < srcLength then none else some st
  | fuel + 1, st =>
    if st.index < srcLength then (unquoteTurn src srcLength st).bind (unquoteLoop src srcLength fuel)
    else some st

/-- `rfc3986_unquote_safe` over its two arrays: there is no result when an access leaves one. -/
def rfc3986UnquoteSafeInto (src dst : Bytes) : Option Bytes :=
  let srcLength := (cString src).length
  (unquoteLoop src srcLength srcLength { dst }).bind fun st =>
    writeAt st.dst st.dstPosition [0]

/-- What `prepend_scheme_if_needed` does to the array of a URL without a scheme. -/
def prependSchemeInto (src : Bytes) : Option Bytes :=
  let prefixText := httpScheme ++ schemeSeparator
  (memmove src prefixText.length 0 ((cString src).length + 1)).bind fun src =>
    writeAt src 0 prefixText

/-- `prepend_scheme_if_needed` over the array. -/
def prependSchemeIfNeededInto (src : Bytes) : Outcome Bytes :=
  match uriParse {} (cString src) with
  | .error (.code .uriSchemeMissing) =>
    match prependSchemeInto src with
    | some src => .ok src
    | none => .error (.fault .outOfBounds)
  | .error (.fault f) => .error (.fault f)
  | _ => .ok src

/-- The size of `safe_unquoted_url` for a captured text. -/
def safeUnquotedUrlSize (url : Bytes) : ℕ :=
  (url.length + 1) + httpsScheme.length + schemeSeparator.length

/-! ## The decoder -/

section Turn

variable {x y m w z : Bytes} {ch : UInt8}

/-- A byte that begins no triple is copied. -/
theorem unquoteTurn_copy (h : ch = percent → y.length < 2) (c : UInt8) :
    unquoteTurn (x ++ (ch :: y ++ m)) (x.length + (ch :: y).length)
        ⟨x.length, w ++ c :: z, w.length⟩ =
      some ⟨x.length + 1, w ++ ch :: z, w.length + 1⟩ := by
  have hread : (x ++ (ch :: y ++ m))[x.length]? = some ch := by simp
  have htest : ¬ (ch = percent ∧ x.length + (ch :: y).length > x.length + 2) := by
    rintro ⟨hch, hlen⟩
    have hshort := h hch
    rw [List.length_cons] at hlen
    omega
  simp only [unquoteTurn, hread, Option.bind_eq_bind, Option.bind_some, if_neg htest,
    writeAt_append_cons]
  rfl

/-- A triple is decoded; its two digits are bytes of the string. -/
theorem unquoteTurn_decode (c ch1 ch2 : UInt8) :
    unquoteTurn (x ++ (percent :: ch1 :: ch2 :: y ++ m))
        (x.length + (percent :: ch1 :: ch2 :: y).length) ⟨x.length, w ++ c :: z, w.length⟩ =
      some ⟨x.length + 3, w ++ (fromHex ch1 <<< 4 ||| fromHex ch2) :: z, w.length + 1⟩ := by
  have hread : (x ++ (percent :: ch1 :: ch2 :: y ++ m))[x.length]? = some percent := by simp
  have hread₁ : (x ++ (percent :: ch1 :: ch2 :: y ++ m))[x.length + 1]? = some ch1 := by simp
  have hread₂ : (x ++ (percent :: ch1 :: ch2 :: y ++ m))[x.length + 2]? = some ch2 := by simp
  have htest : x.length + (percent :: ch1 :: ch2 :: y).length > x.length + 2 := by
    simp only [List.length_cons]
    omega
  have hsafe : (isalnum percent || decide (percent ∈ uriSafeSymbols)) = true := by decide
  simp only [unquoteTurn, hread, hread₁, hread₂, Option.bind_eq_bind, Option.bind_some,
    true_and, if_pos htest, if_pos hsafe, writeAt_append_cons]
  rfl

end Turn

/-- A byte that begins no triple stays. -/
theorem rfc3986UnquoteSafe_copy {ch : UInt8} {y : Bytes} (h : ch = percent → y.length < 2) :
    rfc3986UnquoteSafe (ch :: y) = ch :: rfc3986UnquoteSafe y := by
  rcases y with _ | ⟨x, _ | ⟨y, src⟩⟩
  · rfl
  · rfl
  · refine rfc3986UnquoteSafe_cons (fun hch => ?_) _
    have hshort := h hch
    simp only [List.length_cons] at hshort
    omega

theorem length_rfc3986UnquoteSafe_le (src : Bytes) :
    (rfc3986UnquoteSafe src).length ≤ src.length := by
  fun_induction rfc3986UnquoteSafe src with
  | case1 ch1 ch2 src _ ih =>
    simp only [List.length_cons]
    omega
  | case2 ch1 ch2 src _ ih | case3 ch ch1 ch2 src _ ih =>
    simp only [List.length_cons] at ih ⊢
    omega
  | case4 src => exact le_rfl

/-- **The loop** writes the decoded text. It has read `x` and written `w`; `y` is left of the string,
and `m` lies behind it. -/
theorem unquoteLoop_spec (fuel : ℕ) {x y m w z : Bytes} (hfuel : y.length ≤ fuel)
    (hroom : y.length ≤ z.length) :
    unquoteLoop (x ++ (y ++ m)) (x.length + y.length) fuel ⟨x.length, w ++ z, w.length⟩ =
      some ⟨x.length + y.length,
        w ++ (rfc3986UnquoteSafe y ++ z.drop (rfc3986UnquoteSafe y).length),
        w.length + (rfc3986UnquoteSafe y).length⟩ := by
  induction fuel generalizing x y w z with
  | zero =>
    obtain rfl := List.eq_nil_of_length_eq_zero (Nat.le_zero.1 hfuel)
    simp [unquoteLoop, rfc3986UnquoteSafe]
  | succ fuel ih =>
    cases y with
    | nil => simp [unquoteLoop, rfc3986UnquoteSafe]
    | cons ch y =>
      obtain ⟨c, z, rfl⟩ := List.exists_cons_of_length_pos (Nat.zero_lt_of_lt hroom)
      -- what is left after the bytes of one turn have been read and one has been written
      have hrest (u y : Bytes) (c : UInt8) (hfuel : y.length ≤ fuel) (hroom : y.length ≤ z.length) :
          unquoteLoop (x ++ (u ++ y ++ m)) (x.length + (u ++ y).length) fuel
              ⟨x.length + u.length, w ++ c :: z, w.length + 1⟩ =
            some ⟨x.length + (u ++ y).length,
              w ++ (c :: rfc3986UnquoteSafe y ++ z.drop (rfc3986UnquoteSafe y).length),
              w.length + (c :: rfc3986UnquoteSafe y).length⟩ := by
        have hrun := @ih (x ++ u) y (w ++ [c]) z hfuel hroom
        simpa [Nat.add_assoc, Nat.add_comm 1] using hrun
      have hlt : x.length < x.length + (ch :: y).length := by
        rw [List.length_cons]
        omega
      simp only [List.length_cons] at hfuel hroom
      rw [unquoteLoop, if_pos hlt]
      by_cases htriple : ch = percent ∧ 2 ≤ y.length
      · obtain ⟨rfl, hlen⟩ := htriple
        rcases y with _ | ⟨ch1, _ | ⟨ch2, y⟩⟩
        · exact absurd hlen (by decide)
        · exact absurd hlen (by simp)
        · simp only [List.length_cons] at hfuel hroom
          rw [unquoteTurn_decode, Option.bind_some, rfc3986UnquoteSafe_percent]
          exact hrest [percent, ch1, ch2] y _ (by omega) (by omega)
      · have hcopy : ch = percent → y.length < 2 := fun hch =>
          Nat.lt_of_not_le fun hlen => htriple ⟨hch, hlen⟩
        rw [unquoteTurn_copy hcopy, Option.bind_some, rfc3986UnquoteSafe_copy hcopy]
        exact hrest [ch] y ch (by omega) (by omega)

/-- **The decoder** writes the decoded text and a terminator, and reads nothing behind the one of its
source. -/
theorem rfc3986UnquoteSafeInto_eq {url dst : Bytes} (hurl : 0 ∉ url) (behind : Bytes)
    (hroom : url.length < dst.length) : rfc3986UnquoteSafeInto (url ++ 0 :: behind) dst =
      some (rfc3986UnquoteSafe url ++ 0 :: dst.drop ((rfc3986UnquoteSafe url).length + 1)) := by
  have hlength : cString (url ++ 0 :: behind) = url := before_cut hurl behind
  have hloop := @unquoteLoop_spec url.length [] url (0 :: behind) [] dst le_rfl hroom.le
  have hlt : (rfc3986UnquoteSafe url).length < dst.length :=
    (length_rfc3986UnquoteSafe_le url).trans_lt hroom
  rw [List.drop_eq_getElem_cons hlt] at hloop
  simp only [List.nil_append, List.length_nil, Nat.zero_add] at hloop
  simp only [rfc3986UnquoteSafeInto, hlength, hloop, Option.bind_some, writeAt_append_cons]

/-- **The scheme in front of a string**, in an array with room for it. -/
theorem prependSchemeInto_eq {s behind : Bytes} (hs : 0 ∉ s)
    (hroom : (httpScheme ++ schemeSeparator).length ≤ behind.length) :
    prependSchemeInto (s ++ 0 :: behind) = some (httpScheme ++ schemeSeparator ++
      (s ++ 0 :: behind.drop (httpScheme ++ schemeSeparator).length)) := by
  have hlength : cString (s ++ 0 :: behind) = s := before_cut hs behind
  have hshift := @memmove_writeAt _ (s ++ [0]) behind (httpScheme ++ schemeSeparator) hroom
  simpa only [prependSchemeInto, hlength, List.length_append, List.length_singleton,
    List.append_assoc, List.singleton_append] using hshift

/-- With room for the scheme, the array holds the URL of `prepend_scheme_if_needed`. -/
theorem prependSchemeIfNeededInto_eq {s behind : Bytes} (hs : 0 ∉ s)
    (hroom : (httpScheme ++ schemeSeparator).length ≤ behind.length) :
    (prependSchemeIfNeededInto (s ++ 0 :: behind)).map cString = prependSchemeIfNeeded s := by
  have hstring : cString (s ++ 0 :: behind) = s := before_cut hs behind
  have hprefix : 0 ∉ httpScheme ++ schemeSeparator ++ s := by
    rw [List.mem_append, not_or]
    exact ⟨by decide, hs⟩
  have hprepended : cString (httpScheme ++ schemeSeparator ++ (s ++ 0 ::
      behind.drop (httpScheme ++ schemeSeparator).length)) = httpScheme ++ schemeSeparator ++ s := by
    rw [← List.append_assoc]
    exact before_cut hprefix _
  rw [prependSchemeIfNeededInto, prependSchemeIfNeeded, hstring, prependSchemeInto_eq hs hroom]
  rcases uriParse {} s with (⟨e⟩ | ⟨f⟩) | uri
  · cases e <;> first | exact congrArg Except.ok hprepended | exact congrArg Except.ok hstring
  · rfl
  · exact congrArg Except.ok hstring

/-- **The array of a redirection suffices**: the decoder stays in it, and so does the scheme that is
put in front, if the URL has none; this does not depend on what follows the terminator of the source,
nor on what the array held before. What is decoded may contain a NUL, which ends the text that gets
the scheme. -/
theorem redirectArray_suffices (url : Bytes) {initial : Bytes}
    (hinitial : initial.length = safeUnquotedUrlSize url) :
    ∃ decoded prepended : Bytes,
      rfc3986UnquoteSafeInto (url ++ [0]) initial = some decoded ∧
      (∀ behind, rfc3986UnquoteSafeInto (cString url ++ 0 :: behind) initial = some decoded) ∧
      rfc3986UnquoteSafe (cString url) ++ [0] <+: decoded ∧ decoded.length = initial.length ∧
      prependSchemeInto decoded = some prepended ∧
      httpScheme ++ schemeSeparator ++ cString decoded ++ [0] <+: prepended ∧
      prepended.length = initial.length ∧
      (prependSchemeIfNeededInto decoded).map cString =
        prependSchemeIfNeeded (cString (rfc3986UnquoteSafe (cString url))) := by
  have hurl : 0 ∉ cString url := not_mem_before 0 url
  have hle : (cString url).length ≤ url.length := length_cString_le url
  have hdecodedLe := length_rfc3986UnquoteSafe_le (cString url)
  have hscheme : httpsScheme.length + schemeSeparator.length =
      (httpScheme ++ schemeSeparator).length + 1 := by decide
  rw [safeUnquotedUrlSize] at hinitial
  have hdecode (behind : Bytes) :=
    @rfc3986UnquoteSafeInto_eq (cString url) initial hurl behind (by omega)
  -- the array of the source, up to its terminator and behind it
  have hsource : cString url ++ 0 :: after 0 (url ++ [0]) = url ++ [0] := by
    have hstring : cString (url ++ [0]) = cString url := before_append_cons 0 url []
    rw [← hstring]
    exact before_append_cut (by simp)
  -- the decoded text, up to the terminator that ends it first
  obtain ⟨decoded, hdecoded⟩ : ∃ decoded : Bytes, decoded = rfc3986UnquoteSafe (cString url) ++
      0 :: initial.drop ((rfc3986UnquoteSafe (cString url)).length + 1) := ⟨_, rfl⟩
  have hlength : decoded.length = initial.length := by
    rw [hdecoded, List.length_append, List.length_cons, List.length_drop]
    omega
  have hstring : cString decoded = cString (rfc3986UnquoteSafe (cString url)) := by
    rw [hdecoded]
    exact before_append_cons 0 _ _
  have hcut : cString decoded ++ 0 :: after 0 decoded = decoded :=
    before_append_cut (by simp [hdecoded])
  have hsplit := congrArg List.length hcut
  rw [List.length_append, List.length_cons] at hsplit
  have hroom : (httpScheme ++ schemeSeparator).length ≤ (after 0 decoded).length := by
    have hcutLe := length_cString_le (rfc3986UnquoteSafe (cString url))
    rw [hstring] at hsplit
    omega
  have hno : 0 ∉ cString decoded := not_mem_before 0 decoded
  have hprepend := prependSchemeInto_eq hno hroom
  have hneeded := prependSchemeIfNeededInto_eq hno hroom
  rw [hcut] at hprepend hneeded
  refine ⟨decoded, _, ?_, fun behind => ?_, ?_, hlength, hprepend, ?_, ?_, ?_⟩
  · rw [← hsource, hdecode, hdecoded]
  · rw [hdecode, hdecoded]
  · rw [hdecoded]
    exact ⟨initial.drop ((rfc3986UnquoteSafe (cString url)).length + 1),
      by rw [List.append_assoc, List.singleton_append]⟩
  · exact ⟨(after 0 decoded).drop (httpScheme ++ schemeSeparator).length,
      by simp only [List.append_assoc, List.singleton_append]⟩
  · simp only [List.length_append, List.length_cons, List.length_drop] at hsplit hroom ⊢
    omega
  · rw [hneeded, hstring]

/-- The text `%zz%41`, whose first triple is decoded to a NUL. -/
theorem redirectArray_suffices_nul : ∃ decoded prepended : Bytes,
    rfc3986UnquoteSafeInto (str "%zz%41" ++ [0]) (List.replicate 15 255) = some decoded ∧
      (∀ behind, rfc3986UnquoteSafeInto (cString (str "%zz%41") ++ 0 :: behind)
        (List.replicate 15 255) = some decoded) ∧
      rfc3986UnquoteSafe (cString (str "%zz%41")) ++ [0] <+: decoded ∧
      decoded.length = (List.replicate 15 (255 : UInt8)).length ∧
      prependSchemeInto decoded = some prepended ∧
      httpScheme ++ schemeSeparator ++ cString decoded ++ [0] <+: prepended ∧
      prepended.length = (List.replicate 15 (255 : UInt8)).length ∧
      (prependSchemeIfNeededInto decoded).map cString =
        prependSchemeIfNeeded (cString (rfc3986UnquoteSafe (cString (str "%zz%41")))) :=
  redirectArray_suffices (str "%zz%41") (by decide)

end Unalix
