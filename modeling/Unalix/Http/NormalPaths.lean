import Unalix.Http.DotSegments
import Unalix.Http.Redirect

/-!
# What normalisation leaves alone (`utils.c`, `http.c`)

A query or a fragment should come through `httpnormpath` as it is, and so should a path that is
normal already. Both are lost to one early `continue`: a delimiter after an empty component is
skipped before it is looked at. So a suffix is seen only behind a component
(`httpnormpath_suffix_iff`), and a slash at the end of a path goes away, which sends the redirection
of a directory back to where it came from (`httpnormpath_normal_iff`, `httpGetRedirect_back`).
-/

namespace Unalix

open CString Ascii Outcome

/-! ## Suffixes -/

/-- The suffix of a path is not looked for before its first `?` or `#`. -/
theorem readComponents_append_slash {p : Bytes} (hp : ∀ c ∈ p, ¬ IsSuffixStart c) (y : Bytes) :
    readComponents [] (p ++ slash :: y) =
      ((readComponents [] p).1 ++ (readComponents [] y).1, (readComponents [] y).2) := by
  rcases readComponents_cut [] p y with ⟨s, hs⟩ | hs
  · exfalso
    obtain ⟨-, hsuf, htext⟩ := readComponents_spec noDelim_nil (p ++ slash :: y)
    rw [hs] at hsuf htext
    have hend : s <:+ p := List.suffix_append_self_iff.1 hsuf
    rcases htext with hnil | ⟨c, x, hcons, hc⟩
    · simp [text] at hnil
    · cases s with
      | nil =>
        obtain ⟨rfl, -⟩ := List.cons.inj hcons
        exact not_isSuffixStart_slash hc
      | cons d s =>
        obtain ⟨rfl, -⟩ := List.cons.inj hcons
        exact hp d (hend.subset List.mem_cons_self) hc
  · exact hs

/-- Behind a component the suffix is seen. -/
theorem readComponents_append_suffix {c : UInt8} (hc : IsSuffixStart c) {comp p : Bytes}
    (hp : ∀ c ∈ p, ¬ IsSuffixStart c) (hend : ¬ [slash] <:+ p) (hne : p = [] → comp ≠ [])
    (x : Bytes) :
    readComponents comp (p ++ c :: x) = ((readComponents comp p).1, some (c :: x)) := by
  induction p generalizing comp with
  | nil =>
    rw [List.nil_append, readComponents_suffixStart hc (hne rfl), readComponents, if_neg (hne rfl)]
  | cons ch p ih =>
    rw [List.forall_mem_cons] at hp
    have hend' : ¬ [slash] <:+ p := fun h => hend (h.trans (List.suffix_cons ch p))
    rw [List.cons_append]
    by_cases hslash : ch = slash
    · subst hslash
      have hp' : p ≠ [] := by
        rintro rfl
        exact hend List.suffix_rfl
      have hrest := @ih [] hp.2 hend' (fun h => absurd h hp')
      by_cases hnil : comp = []
      · rw [hnil, readComponents_slash_nil, readComponents_slash_nil, hrest]
      · rw [readComponents_slash hnil, readComponents_slash hnil, hrest]
    · have hch : ¬ IsDelim ch := by
        rintro (hd | hd)
        · exact hslash hd
        · exact hp.1 hd
      rw [readComponents_cons hch, readComponents_cons hch]
      exact ih hp.2 hend' (fun _ => by simp)

/-- Behind a slash, or at the beginning, the first character of a suffix is skipped. -/
theorem pathSuffix_suffix_tail {c : UInt8} (hc : IsSuffixStart c) {p : Bytes}
    (hp : ∀ c ∈ p, ¬ IsSuffixStart c) (hend : p = [] ∨ [slash] <:+ p) (x : Bytes) :
    pathSuffix (p ++ c :: x) <:+ x := by
  have hskip : text (readComponents [] (c :: x)).2 <:+ x := by
    rw [readComponents_suffixStart_nil hc]
    exact (readComponents_spec noDelim_nil x).2.1
  rcases hend with rfl | ⟨q, rfl⟩
  · exact hskip
  · rw [List.append_assoc, List.singleton_append, pathSuffix,
      readComponents_append_slash fun c hc => hp c (List.mem_append_left _ hc)]
    exact hskip

/-- **A suffix is kept** if and only if there is none, or it comes directly after a component. -/
theorem httpnormpath_suffix_iff {p s : Bytes} (hp : ∀ c ∈ p, ¬ IsSuffixStart c)
    (hs : IsSuffixText s) :
    (∃ x, UpToSlash x (httpnormpath p) ∧ httpnormpath (p ++ s) = x ++ s) ↔
      s = [] ∨ p ≠ [] ∧ ¬ [slash] <:+ p := by
  rcases hs with rfl | ⟨c, t, rfl, hc⟩
  · refine iff_of_true ⟨httpnormpath p, .inl rfl, ?_⟩ (.inl rfl)
    rw [List.append_nil, List.append_nil]
  rw [or_iff_right (List.cons_ne_nil c t)]
  constructor
  · rintro ⟨x, -, heq⟩
    by_contra hnot
    have hend : p = [] ∨ [slash] <:+ p := by
      rwa [not_and_or, not_not, not_not] at hnot
    -- what is kept is shorter than the suffix, so the character that begins it is in the path part
    have hshort := (pathSuffix_suffix_tail hc hp hend t).length_le
    have hstack := not_isSuffixStart_pathText (isStack_pathStack (p ++ c :: t)).2
    rw [httpnormpath_eq] at heq
    rcases List.append_eq_append_iff.1 heq with ⟨a, -, ha⟩ | ⟨a, hx, ha⟩
    · rw [ha, List.length_append, List.length_cons] at hshort
      omega
    · cases a with
      | nil =>
        rw [← List.nil_append (pathSuffix _), ← ha, List.length_cons] at hshort
        omega
      | cons d a =>
        obtain ⟨rfl, -⟩ := List.cons.inj ha
        exact hstack c (by rw [hx]; simp) hc
  · rintro ⟨hne, hend⟩
    have hread := @readComponents_append_suffix c hc [] p hp hend (fun h => absurd h hne) t
    refine ⟨httpnormpath p, .inl rfl, ?_⟩
    rw [httpnormpath_eq, httpnormpath_eq_pathText hp, pathStack, pathSuffix, hread]
    rfl

/-- A query behind a component. -/
theorem httpnormpath_suffix_query :
    (∃ x, UpToSlash x (httpnormpath (str "/a/b")) ∧
      httpnormpath (str "/a/b" ++ str "?x/../y") = x ++ str "?x/../y") ↔
      str "?x/../y" = [] ∨ str "/a/b" ≠ [] ∧ ¬ [slash] <:+ str "/a/b" :=
  httpnormpath_suffix_iff (by decide) (.inr ⟨questionMark, _, rfl, .inl rfl⟩)

/-- Behind a slash the question mark goes away, and the query becomes a component. -/
theorem not_httpnormpath_suffix_slash : httpnormpath (str "/a/" ++ str "?x") = str "/a/x" ∧
    ¬ ∃ x, UpToSlash x (httpnormpath (str "/a/")) ∧
      httpnormpath (str "/a/" ++ str "?x") = x ++ str "?x" := by
  have hresult : httpnormpath (str "/a/" ++ str "?x") = str "/a/x" := by decide
  refine ⟨hresult, ?_⟩
  rintro ⟨x, -, heq⟩
  have hmem : questionMark ∈ str "/a/x" := by
    rw [← hresult, heq]
    simp [show str "?x" = [questionMark, 120] by decide]
  exact absurd hmem (by decide)

/-! ## Normal paths -/

section Names

variable {comps : List Bytes} (h : ∀ comp ∈ comps, NormalComponent comp)

include h

theorem httpnormpath_of_segments {path : Bytes} (hpath : ∀ c ∈ path, ¬ IsSuffixStart c)
    (hsegs : segments path = comps) : httpnormpath path = pathText comps := by
  rw [httpnormpath_eq_pathText hpath, pathStack_eq hpath, hsegs,
    foldl_stackComponent fun comp hcomp => (h comp hcomp).not_dotted, List.nil_append]

/-- The text of names is normal. -/
theorem httpnormpath_pathText : httpnormpath (pathText comps) = pathText comps :=
  httpnormpath_of_segments h (not_isSuffixStart_pathText h)
    (segments_pathText fun comp hcomp => (h comp hcomp).isComponent)

/-- A slash at the end goes away. -/
theorem httpnormpath_concat_slash (hne : comps ≠ []) :
    httpnormpath (joinComponents comps ++ [slash]) = joinComponents comps := by
  have hstart : ∀ c ∈ joinComponents comps ++ [slash], ¬ IsSuffixStart c :=
    List.forall_mem_append.2 ⟨not_isSuffixStart_joinComponents h,
      by simpa using not_isSuffixStart_slash⟩
  have hsegs : segments (joinComponents comps ++ [slash]) = comps := by
    rw [segments_concat_slash, segments_joinComponents fun comp hcomp => (h comp hcomp).isSegment]
  rw [httpnormpath_of_segments h hstart hsegs, pathText, if_neg hne]

/-- Names do not end with a slash. -/
theorem not_isSuffix_joinComponents : ¬ [slash] <:+ joinComponents comps := by
  rcases comps.eq_nil_or_concat' with rfl | ⟨comps, comp, rfl⟩
  · rw [joinComponents_nil, List.suffix_nil]
    decide
  · have hcomp := h comp (by simp)
    rw [joinComponents_concat]
    rintro ⟨x, hx⟩
    have hbase : slash ∉ comp := hcomp.noDelim.not_mem isDelim_slash
    have hlast := congrArg basename hx
    rw [basename_append hbase, basename_append (by simp)] at hlast
    exact hcomp.ne_nil hlast.symm

end Names

/-- A slash alone, or names after slashes and perhaps a slash at the end. -/
def IsNormalPath (path : Bytes) : Prop := ∃ comps, (∀ comp ∈ comps, NormalComponent comp) ∧
  (path = pathText comps ∨ comps ≠ [] ∧ path = joinComponents comps ++ [slash])

/-- A redirection of a request to the same path with a slash at its end goes to that path. -/
def FollowedToSlash (path : Bytes) : Prop :=
  ∀ (request : HTTPRequest) (response : HTTPResponse) (connection : Connection)
    (host key orig : Bytes), HasHost request host → isRedirectStatus response.status.code = true →
    httpHeadersGet response.headers httpHeaderLocation = some ⟨key, path⟩ →
    request.uri.path = some orig → path = slash :: orig ++ [slash] →
    httpGetRedirect ⟨request, response, connection⟩ =
      .ok (some (text request.uri.scheme ++ schemeSeparator ++ host ++ path))

/-- **A normal path is a fixed point**, and a redirection to it is followed, if and only if it does
not end with a slash. -/
theorem httpnormpath_normal_iff {path : Bytes} (h : IsNormalPath path) :
    httpnormpath path = path ∧ FollowedToSlash path ↔ path = [slash] ∨ ¬ [slash] <:+ path := by
  obtain ⟨comps, hcomps, rfl | ⟨hne, rfl⟩⟩ := h
  · have hshape : pathText comps = [slash] ∨ ¬ [slash] <:+ pathText comps := by
      unfold pathText
      split_ifs
      · exact .inl rfl
      · exact .inr (not_isSuffix_joinComponents hcomps)
    refine iff_of_true ⟨httpnormpath_pathText hcomps, ?_⟩ hshape
    intro request response connection host key orig _ _ _ _ hslash
    rcases hshape with hone | hend
    · rw [hone] at hslash
      simp at hslash
    · exact absurd ⟨slash :: orig, hslash.symm⟩ hend
  · have hlost := httpnormpath_concat_slash hcomps hne
    have hdiff : httpnormpath (joinComponents comps ++ [slash]) ≠ joinComponents comps ++ [slash] := by
      rw [hlost]
      simp
    refine iff_of_false (fun hkept => hdiff hkept.1) ?_
    rintro (hone | hend)
    · have hnil : joinComponents comps = [] := by simpa using hone
      exact hne (joinComponents_eq_nil_iff.1 hnil)
    · exact hend ⟨joinComponents comps, rfl⟩

/-- Two names. -/
theorem httpnormpath_normal_names : httpnormpath (str "/docs/a") = str "/docs/a" ∧
    FollowedToSlash (str "/docs/a") ↔ str "/docs/a" = [slash] ∨ ¬ [slash] <:+ str "/docs/a" :=
  httpnormpath_normal_iff ⟨[str "docs", str "a"], by decide, .inl (by decide)⟩

/-- A directory loses its slash, and the redirection to it goes back to the path without it. -/
theorem not_httpnormpath_normal_directory :
    ¬ httpnormpath (str "/docs/") = str "/docs/" ∧ ∃ request,
      httpRequestSetUrl {} (str "http://example.com/docs") = .ok request ∧
        httpGetRedirect ⟨request, redirectExample (str "/docs/"), {}⟩ =
          .ok (some (str "http://example.com/docs")) :=
  ⟨by decide, _, rfl, rfl⟩

/-- **Back to where it came from**: a redirection to the path of the request with a slash at its end
goes to the path of the request. -/
theorem httpGetRedirect_back {request : HTTPRequest} {response : HTTPResponse}
    {connection : Connection} {host key orig path : Bytes} (hhost : HasHost request host)
    (hstatus : isRedirectStatus response.status.code = true)
    (hlocation : httpHeadersGet response.headers httpHeaderLocation = some ⟨key, path⟩)
    (hpath : path = slash :: orig ++ [slash]) (hnormal : IsNormalPath path)
    (hwell : WellClassified path) :
    httpGetRedirect ⟨request, response, connection⟩ =
      .ok (some (text request.uri.scheme ++ schemeSeparator ++ host ++ slash :: orig)) := by
  obtain ⟨comps, hcomps, hshape⟩ := hnormal
  have hjoin : joinComponents comps = slash :: orig ∧ comps ≠ [] := by
    rcases hshape with htext | ⟨hne, hslash⟩
    · exfalso
      rw [hpath] at htext
      unfold pathText at htext
      split_ifs at htext
      · simp at htext
      · exact not_isSuffix_joinComponents hcomps ⟨slash :: orig, htext⟩
    · exact ⟨List.append_cancel_right (hslash.symm.trans hpath), hne⟩
  have hnorm : httpnormpath path = slash :: orig := by
    rw [hpath, ← hjoin.1, httpnormpath_concat_slash hcomps hjoin.2]
  have hhead : path.head? = some slash := by rw [hpath]; rfl
  obtain ⟨rest, rfl⟩ := List.head?_eq_some_iff.1 hhead
  have hhttp : ¬ httpScheme <+: slash :: rest := fun hp => head?_of_httpScheme hp rfl
  have habs : ¬ (str "http://" <+: slash :: rest ∨ str "https://" <+: slash :: rest) := fun hp =>
    hhttp (isPrefix_httpScheme_of_absolute hp)
  have htwo : ¬ str "//" <+: slash :: rest := by
    rcases hwell with hp | ⟨c, rest', hcons, hc, -⟩ | ⟨hne, -⟩
    · exact absurd hp habs
    · rw [hcons]
      intro hp
      exact hc (List.cons_prefix_cons.1 (List.cons_prefix_cons.1 hp).2).1.symm
    · exact absurd rfl hne
  rw [(httpGetRedirect_iff_of_slash hhost hstatus hlocation).2 hwell, redirectReference,
    if_neg habs, if_neg htwo, if_pos ⟨rest, rfl⟩, hnorm]

end Unalix
