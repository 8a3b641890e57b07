import Unalix.Uri.Reading

/-!
# Which tails can move the authority

Two URIs with the same scheme and authority and different tails should name the same party. They
need not: the userinfo is looked for in the whole rest of the string, so an `@` in the tail makes
everything before it a userinfo, and the port of an address in brackets depends on the tail as
well. `Harmless` is the condition on one tail, `Confining` the condition on a scheme and an
authority under which no tail does harm, and `authority_confined_iff` says that they are exact.
-/

namespace Unalix

open CString Ascii Outcome

/-- The two URIs agree on scheme, credentials, host and port. -/
structure SameAuthority (u v : URI) : Prop where
  scheme : u.scheme = v.scheme
  username : u.username = v.username
  password : u.password = v.password
  hasAuthentication : u.hasAuthentication = v.hasAuthentication
  hostname : u.hostname = v.hostname
  isIpv6 : u.isIpv6 = v.isIpv6
  port : u.port = v.port

/-- The URI with this scheme, authority and tail. -/
def joinUri (scheme authority tail : Bytes) : Bytes :=
  scheme ++ (schemeSeparator ++ (authority ++ tail))

/-- With either tail, the authority is read alike. -/
def Confined (scheme authority t₁ t₂ : Bytes) : Prop :=
  ∀ u₁ u₂, uriParse {} (joinUri scheme authority t₁) = .ok u₁ →
    uriParse {} (joinUri scheme authority t₂) = .ok u₂ → SameAuthority u₁ u₂

/-- The host and port of an authority that may have a userinfo. -/
def hostPart (authority : Bytes) : Bytes :=
  if atSign ∈ authority then after atSign authority else authority

/-- The part of the host after `]`. -/
def afterBracket (authority : Bytes) : Bytes := after bracketEnd (hostPart authority).tail

/-- A tail that moves neither the userinfo nor the port. -/
structure Harmless (authority t : Bytes) : Prop where
  at_sign : atSign ∈ authority ∨ atSign ∉ t
  port : (hostPart authority).head? = some bracketStart → PortSettled (afterBracket authority) t

/-- The text after `[` begins with an address and its `]`. -/
def ValidAddress (a : Bytes) : Prop :=
  bracketEnd ∈ a ∧ minIpv6AddressSize ≤ (before bracketEnd a).length ∧
    (before bracketEnd a).length ≤ maxIpv6AddressSize ∧ isipv6 (before bracketEnd a) = true

/-- A scheme and an authority that no tail can change: nothing is accepted, or the authority has
its own `@`, and the port of an address in brackets cannot come or go. -/
def Confining (scheme authority : Bytes) : Prop :=
  ¬ SchemeOk scheme ∨ atSign ∈ authority ∧
    ((hostPart authority).head? = some bracketStart → ValidAddress (hostPart authority).tail →
      colon ∈ afterBracket authority ∧ (after colon (afterBracket authority) = [] ∨
        ¬ PortOk (after colon (afterBracket authority))))

/-! ## Readings of a scheme, an authority and a tail -/

theorem strstr_schemeSeparator {scheme : Bytes} (h : ¬ schemeSeparator <:+: scheme) (r : Bytes) :
    strstr (scheme ++ (schemeSeparator ++ r)) schemeSeparator = some (schemeSeparator ++ r) := by
  apply strstr_eq_some (List.prefix_append _ _)
  intro b c hbc hc hsep
  have hsc : slash ≠ colon := by decide
  -- an earlier occurrence lies inside the scheme or overlaps the separator
  rcases c with _ | ⟨x, _ | ⟨y, _ | ⟨z, c⟩⟩⟩
  · exact hc rfl
  · have := (List.cons_prefix_cons.1 hsep).2
    exact hsc (List.cons_prefix_cons.1 this).1
  · have := (List.cons_prefix_cons.1 (List.cons_prefix_cons.1 hsep).2).2
    exact hsc (List.cons_prefix_cons.1 this).1
  · refine h (hbc ▸ List.IsInfix.trans ?_ (List.suffix_append b _).isInfix)
    apply List.IsPrefix.isInfix
    exact List.prefix_of_prefix_length_le hsep (List.prefix_append _ _)
      (by simp [schemeSeparator, str])

/-- The scheme of a reading ends at the first `://`. -/
theorem Reading.scheme_eq {R : Reading} {scheme r : Bytes} (h : ¬ schemeSeparator <:+: scheme)
    (hR : R.text = scheme ++ (schemeSeparator ++ r)) :
    R.scheme = scheme ∧ userinfoText R.userinfo ++ (R.authority ++ R.tail) = r := by
  have hno : ¬ schemeSeparator <:+: R.scheme := fun hs =>
    R.scheme_ok.colon_not_mem (hs.subset (by simp [schemeSeparator, str, colon]))
  have h₁ := strstr_schemeSeparator hno (userinfoText R.userinfo ++ (R.authority ++ R.tail))
  have h₂ := strstr_schemeSeparator h r
  rw [← hR, Reading.text, h₁, Option.some.injEq, List.append_cancel_left_eq] at h₂
  rw [Reading.text, h₂, List.append_cancel_right_eq] at hR
  exact ⟨hR, h₂⟩

/-- The authority of a reading, when the `@` of the tail is not reached. -/
theorem Reading.split {R : Reading} {authority t : Bytes} (hA : NoDelim authority)
    (ht : IsTail t) (hat : atSign ∈ authority ∨ atSign ∉ t)
    (hR : userinfoText R.userinfo ++ (R.authority ++ R.tail) = authority ++ t) :
    R.userinfo = (if atSign ∈ authority then some (before atSign authority) else none) ∧
      R.authority = hostPart authority ∧ R.tail = t := by
  rcases hu : R.userinfo with _ | info
  · have hno : atSign ∉ authority := fun hm => R.no_at hu (by
      rw [hu, userinfoText, List.nil_append] at hR
      rw [hR]
      exact List.mem_append_left t hm)
    rw [hu, userinfoText, List.nil_append] at hR
    obtain ⟨h₁, h₂⟩ := head_tail_unique hR R.authority_ok R.tail_ok.isTail hA ht
    simp [hostPart, hno, h₁, h₂]
  · have hinfo : atSign ∉ info := R.userinfo_ok info hu
    rw [hu, userinfoText, List.append_assoc, List.singleton_append] at hR
    have hin : atSign ∈ authority := by
      by_contra hno
      have : atSign ∈ authority ++ t := hR ▸ by simp
      rcases List.mem_append.1 this with hm | hm
      · exact hno hm
      · exact hat.elim hno fun h => h hm
    have hcut : authority ++ t =
        before atSign authority ++ atSign :: (after atSign authority ++ t) := by
      rw [← List.cons_append, ← List.append_assoc, before_append_cut hin]
    obtain ⟨rfl, hrest⟩ := cut_unique (hR.trans hcut) hinfo (not_mem_before _ _)
    have hafter : NoDelim (after atSign authority) := fun c hc => hA c (mem_of_mem_after hc)
    obtain ⟨h₁, h₂⟩ := head_tail_unique hrest R.authority_ok R.tail_ok.isTail hafter ht
    simp [hostPart, hin, h₁, h₂]

/-! ## URIs with and without an `@` -/

/-- The result of reading a URI without userinfo. -/
def plainUri (scheme authority tail : Bytes) : URI where
  isIpv6 := readIsIpv6 authority
  hasAuthentication := 0
  username := none
  password := none
  scheme := some (scheme.map lower)
  hostname := some (readHostname authority)
  port := atoi (readPort authority tail)
  path := readPath tail
  query := readQuery tail
  fragment := readFragment tail

theorem SchemeOk.not_schemeSeparator {scheme : Bytes} (h : SchemeOk scheme) :
    ¬ schemeSeparator <:+: scheme := fun hs =>
  h.colon_not_mem (hs.subset (by simp [schemeSeparator, str, colon]))

/-- **URIs without `@`**: the tail is in order and the host is accepted before it. -/
theorem uriParse_joinUri_iff {scheme a t : Bytes} {v : URI} (hs : SchemeOk scheme)
    (ha : NoDelim a) (ht : IsTail t) (hat : atSign ∉ a ++ t) :
    uriParse {} (joinUri scheme a t) = .ok v ↔
      (TailOk t ∧ HostOk a t) ∧ v = plainUri scheme a t := by
  rw [uriParse_eq_ok_iff]
  constructor
  · rintro ⟨R, hR, rfl⟩
    obtain ⟨hscheme, hrest⟩ := R.scheme_eq hs.not_schemeSeparator hR
    have hat' : atSign ∉ a ∧ atSign ∉ t := by simpa using hat
    obtain ⟨hinfo, hauth, htail⟩ := R.split ha ht (.inr hat'.2) hrest
    rw [hostPart, if_neg hat'.1] at hauth
    rw [if_neg hat'.1] at hinfo
    have htok := R.tail_ok
    have hhok := R.host_ok
    rw [hauth, htail] at hhok
    rw [htail] at htok
    refine ⟨⟨htok, hhok⟩, ?_⟩
    rw [Reading.uri, plainUri, hinfo, hauth, htail, hscheme]
    rfl
  · rintro ⟨⟨htok, hhok⟩, rfl⟩
    exact ⟨⟨scheme, none, a, t, hs, by simp, fun _ => hat, ha, htok, hhok⟩, rfl, rfl⟩

/-- **URIs with an `@`**: the host is looked for after the first one. -/
theorem uriParse_joinUri_at_iff {scheme info rest : Bytes} {v : URI} (hs : SchemeOk scheme)
    (hinfo : atSign ∉ info) :
    uriParse {} (joinUri scheme info (atSign :: rest)) = .ok v ↔
      ∃ a t, rest = a ++ t ∧ NoDelim a ∧ TailOk t ∧ HostOk a t ∧
        v = { plainUri scheme a t with
          hasAuthentication := authenticated info
          username := nonempty (before colon info)
          password := nonempty (after colon info) } := by
  rw [uriParse_eq_ok_iff]
  constructor
  · rintro ⟨R, hR, rfl⟩
    obtain ⟨hscheme, hrest⟩ := R.scheme_eq hs.not_schemeSeparator hR
    rcases huser : R.userinfo with _ | info'
    · have hno := R.no_at huser
      rw [huser, Reading.userinfoText, List.nil_append] at hrest
      rw [hrest] at hno
      simp at hno
    · have hinfo' : atSign ∉ info' := R.userinfo_ok info' huser
      rw [huser, Reading.userinfoText, List.append_assoc, List.singleton_append] at hrest
      obtain ⟨rfl, hrest'⟩ := cut_unique hrest hinfo' hinfo
      refine ⟨R.authority, R.tail, hrest'.symm, R.authority_ok, R.tail_ok, R.host_ok, ?_⟩
      rw [Reading.uri, plainUri, huser, hscheme]
      rfl
  · rintro ⟨a, t, rfl, ha, htok, hhok, rfl⟩
    refine ⟨⟨scheme, some info, a, t, hs, ?_, by simp, ha, htok, hhok⟩, ?_, rfl⟩
    · intro info' h
      cases h
      exact hinfo
    · simp [Reading.text, Reading.userinfoText, joinUri]

/-! ## The two directions -/

/-- Readings with the same parts up to the tail agree when their ports do. -/
theorem sameAuthority_of_eq {R S : Reading} (hscheme : R.scheme = S.scheme)
    (hinfo : R.userinfo = S.userinfo) (hauth : R.authority = S.authority)
    (hport : readPort R.authority R.tail = readPort S.authority S.tail) :
    SameAuthority R.uri S.uri := by
  rw [hauth] at hport
  refine ⟨?_, ?_, ?_, ?_, ?_, ?_, ?_⟩ <;> simp only [Reading.uri, hscheme, hinfo, hauth, hport]

/-- The port read after a harmless tail. -/
theorem Harmless.readPort_eq {A : Bytes} {R : Reading} (h : Harmless A R.tail)
    (hauth : R.authority = hostPart A) :
    readPort R.authority R.tail = readPort R.authority [] := by
  unfold readPort
  split_ifs with hb
  · rw [hauth] at hb
    have hok := R.host_ok.port
    rw [readPort, if_pos (hauth ▸ hb)] at hok
    rw [hauth] at hok ⊢
    have heq := (h.port hb).portText_eq R.tail_ok hok
    rw [afterBracket] at heq
    rw [heq]
    simp [portText, portRegion]
  · rfl

/-- A userinfo that reaches into the tail is not empty. -/
theorem authenticated_of_isDelim {info : Bytes} {c : UInt8} (hc : c ∈ info) (hd : IsDelim c) :
    authenticated info = 1 := by
  have hne : c ≠ colon := by
    rintro rfl
    exact absurd hd (by decide)
  unfold authenticated
  rw [if_neg]
  rintro ⟨hb, ha⟩
  rw [nonempty_eq_none_iff] at hb ha
  by_cases hin : colon ∈ info
  · rw [← before_append_cut hin, hb, ha] at hc
    exact hne (by simpa using hc)
  · rw [before_of_not_mem hin] at hb
    rw [hb] at hc
    simp at hc

/-- When only the tail has an `@`, the authority is read as a part of a userinfo. -/
theorem Reading.hasAuthentication_of_at_in_tail {R : Reading} {A t : Bytes} (hA : atSign ∉ A)
    (ht : IsTail t) (hmem : atSign ∈ t)
    (hR : userinfoText R.userinfo ++ (R.authority ++ R.tail) = A ++ t) :
    R.uri.hasAuthentication = 1 := by
  obtain ⟨c, x, rfl, hc⟩ : ∃ c x, t = c :: x ∧ IsDelim c := by
    rcases ht with rfl | h
    · simp at hmem
    · exact h
  have hne : c ≠ atSign := by
    rintro rfl
    exact absurd hc (by decide)
  have hmem' : atSign ∈ x := by simpa [hne.symm] using hmem
  rcases hinfo : R.userinfo with _ | info
  · rw [hinfo, userinfoText, List.nil_append] at hR
    exact absurd (hR ▸ List.mem_append_right A hmem) (R.no_at hinfo)
  · rw [hinfo, userinfoText, List.append_assoc, List.singleton_append] at hR
    have hcut : A ++ c :: x = (A ++ c :: before atSign x) ++ atSign :: after atSign x := by
      rw [List.append_assoc, List.cons_append, before_append_cut hmem']
    have hnot : atSign ∉ A ++ c :: before atSign x := by
      simp [hA, hne.symm, not_mem_before]
    obtain ⟨rfl, -⟩ := cut_unique (hR.trans hcut) (R.userinfo_ok info hinfo) hnot
    simp only [uri, hinfo, Option.getD_some]
    exact authenticated_of_isDelim (c := c) (by simp) hc

/-- The reading of a string with this scheme, authority and tail. -/
theorem exists_reading_joinUri {scheme A t : Bytes} {u : URI} (hs : ¬ schemeSeparator <:+: scheme)
    (h : uriParse {} (joinUri scheme A t) = .ok u) :
    ∃ R : Reading, R.uri = u ∧ R.scheme = scheme ∧
      Reading.userinfoText R.userinfo ++ (R.authority ++ R.tail) = A ++ t := by
  obtain ⟨R, hR, rfl⟩ := uriParse_eq_ok_iff.1 h
  obtain ⟨hscheme, hrest⟩ := R.scheme_eq hs hR
  exact ⟨R, rfl, hscheme, hrest⟩

/-- After a harmless tail, exactly the harmless tails leave the authority as it is. -/
theorem sameAuthority_iff_harmless {scheme A t₁ t₂ : Bytes} {u₁ u₂ : URI}
    (hs : ¬ schemeSeparator <:+: scheme) (hA : NoDelim A) (ht₁ : IsTail t₁) (ht₂ : IsTail t₂)
    (h₁ : uriParse {} (joinUri scheme A t₁) = .ok u₁)
    (h₂ : uriParse {} (joinUri scheme A t₂) = .ok u₂) (hh : Harmless A t₁) :
    SameAuthority u₁ u₂ ↔ Harmless A t₂ := by
  obtain ⟨R, rfl, hRs, hR⟩ := exists_reading_joinUri hs h₁
  obtain ⟨S, rfl, hSs, hS⟩ := exists_reading_joinUri hs h₂
  obtain ⟨hRu, hRa, rfl⟩ := R.split hA ht₁ hh.at_sign hR
  by_cases hat : atSign ∈ A ∨ atSign ∉ t₂
  · obtain ⟨hSu, hSa, rfl⟩ := S.split hA ht₂ hat hS
    constructor
    · intro hsame
      refine ⟨hat, fun hb => ?_⟩
      by_contra hset
      have hokS := S.host_ok.port
      have hokR := R.host_ok.port
      have hport : atoi (readPort R.authority R.tail) = atoi (readPort S.authority S.tail) :=
        hsame.port
      rw [hRa, readPort, if_pos hb] at hport hokR
      rw [hSa, readPort, if_pos hb] at hport hokS
      have heq := (hh.port hb).portText_eq R.tail_ok hokR
      rw [afterBracket] at heq hset
      rw [heq] at hport hokR
      exact atoi_portText_ne hset hokS hokR hport.symm
    · intro hharm
      refine sameAuthority_of_eq (hRs.trans hSs.symm) (hRu.trans hSu.symm)
        (hRa.trans hSa.symm) ?_
      rw [hh.readPort_eq hRa, hharm.readPort_eq hSa, hRa, hSa]
  · -- the `@` of the second tail makes the authority a userinfo
    have hno : atSign ∉ A ∧ atSign ∈ t₂ := by
      simpa only [not_or, not_not] using hat
    obtain ⟨hnA, hmem⟩ := hno
    refine iff_of_false (fun hsame => ?_) fun h => hat h.at_sign
    rw [if_neg hnA] at hRu
    have hzero : R.uri.hasAuthentication = 0 := by simp [Reading.uri, hRu, authenticated, before,
      after]
    have hone := S.hasAuthentication_of_at_in_tail hnA ht₂ hmem hS
    have := hsame.hasAuthentication
    omega

/-- **An `@` in the path chooses the host**: whatever the authority, if it has no `@` of its own,
the host named after `/@` is the one that is read. -/
theorem uriParse_at_in_path {scheme A host : Bytes} (hs : SchemeOk scheme) (hA : atSign ∉ A)
    (hhost : NoDelim host) (hok : HostOk host []) :
    ∃ u, uriParse {} (joinUri scheme A (slash :: atSign :: host)) = .ok u ∧
      u.hostname = some (readHostname host) := by
  have hinfo : ∀ info ∈ some (A ++ [slash]), atSign ∉ info := by
    intro info h
    cases h
    simp [hA, show atSign ≠ slash by decide]
  let R : Reading := ⟨scheme, some (A ++ [slash]), host, [], hs, hinfo, by simp, hhost, .nil, hok⟩
  refine ⟨R.uri, uriParse_eq_ok_iff.2 ⟨R, ?_, rfl⟩, rfl⟩
  simp [R, Reading.text, Reading.userinfoText, joinUri]

/-- An authority with an `@` of its own is accepted with every tail that its host allows. -/
theorem uriParse_joinUri {scheme A t : Bytes} (hs : SchemeOk scheme) (hat : atSign ∈ A)
    (hA : NoDelim A) (ht : TailOk t) (hok : HostOk (hostPart A) t) :
    ∃ u, uriParse {} (joinUri scheme A t) = .ok u ∧ u.port = atoi (readPort (hostPart A) t) := by
  have hinfo : ∀ info ∈ some (before atSign A), atSign ∉ info := by
    intro info h
    cases h
    exact not_mem_before _ _
  have hafter : NoDelim (hostPart A) := by
    intro c hc
    rw [hostPart, if_pos hat] at hc
    exact hA c (mem_of_mem_after hc)
  let R : Reading := ⟨scheme, some (before atSign A), hostPart A, t, hs, hinfo, by simp, hafter,
    ht, hok⟩
  refine ⟨R.uri, uriParse_eq_ok_iff.2 ⟨R, ?_, rfl⟩, rfl⟩
  have hcut : before atSign A ++ [atSign] ++ (hostPart A ++ t) = A ++ t := by
    rw [hostPart, if_pos hat, ← List.append_assoc, List.append_assoc _ [atSign],
      List.singleton_append, before_append_cut hat]
  simp only [R, Reading.text, Reading.userinfoText, joinUri, hcut]

/-- A host by name without labels. -/
theorem nameOk_of_checkLabels {a h : Bytes} (hl : checkLabels 0 0 a = .ok h)
    (hmin : minHostnameSize ≤ a.length) (hmax : a.length ≤ maxHostnameSize) : NameOk a [] := by
  have hlabels := (checkLabels_eq_ok_iff.1 hl).1
  have hc := hlabels.colon_not_mem
  refine ⟨?_, ?_, ?_, ?_, by simp, by simp⟩
  · rwa [before_of_not_mem hc]
  · rwa [before_of_not_mem hc]
  · rwa [before_of_not_mem hc]
  · exact .inl (after_of_not_mem hc)

/-- An authority without an `@` confines nothing. -/
theorem not_confined_of_not_mem {scheme A : Bytes} (hs : SchemeOk scheme) (hA : atSign ∉ A) :
    ¬ ∀ t₁ t₂, IsTail t₁ → IsTail t₂ → Confined scheme A t₁ t₂ := by
  intro h
  have hok₁ : HostOk (str "good.com") [] := by
    rw [HostOk, if_neg (by decide)]
    exact nameOk_of_checkLabels (h := str "good.com") (by decide) (by decide) (by decide)
  have hok₂ : HostOk (str "evil.com") [] := by
    rw [HostOk, if_neg (by decide)]
    exact nameOk_of_checkLabels (h := str "evil.com") (by decide) (by decide) (by decide)
  obtain ⟨u₁, hu₁, hn₁⟩ := uriParse_at_in_path hs hA (by decide) hok₁
  obtain ⟨u₂, hu₂, hn₂⟩ := uriParse_at_in_path hs hA (by decide) hok₂
  have hsame := h _ _ (.inr ⟨_, _, rfl, isDelim_slash⟩) (.inr ⟨_, _, rfl, isDelim_slash⟩)
    u₁ u₂ hu₁ hu₂
  have := hsame.hostname
  rw [hn₁, hn₂] at this
  exact absurd this (by decide)

/-- The port is dropped by every tail that is accepted. -/
theorem portText_eq_nil {rest t : Bytes} (ht : TailOk t) (hc : colon ∈ rest)
    (hv : after colon rest = [] ∨ ¬ PortOk (after colon rest)) (hok : PortOk (portText rest t)) :
    portText rest t = [] := by
  by_cases hq : t.head? = some questionMark
  · exact portText_query hq
  · rcases portText_eq_of_not_query ht hq hok with heq | ⟨-, -, hno, -⟩
    · rw [heq] at hok ⊢
      exact hv.resolve_right fun h => h hok
    · exact absurd hc hno

/-- An address whose port can come or go with the tail is not confined. -/
theorem not_confined_of_address {scheme A : Bytes} (hs : SchemeOk scheme) (hA : NoDelim A)
    (hat : atSign ∈ A) (hb : (hostPart A).head? = some bracketStart)
    (hv : ValidAddress (hostPart A).tail)
    (hport : colon ∈ afterBracket A → after colon (afterBracket A) ≠ [] ∧
      PortOk (after colon (afterBracket A))) :
    ¬ ∀ t₁ t₂, IsTail t₁ → IsTail t₂ → Confined scheme A t₁ t₂ := by
  intro h
  obtain ⟨hclosed, hmin, hmax, hi⟩ := hv
  have hok {t : Bytes} (hp : PortOk (portText (afterBracket A) t)) : HostOk (hostPart A) t := by
    rw [HostOk, if_pos hb]
    exact ⟨hclosed, hmin, hmax, hi, hp⟩
  have hread (t : Bytes) : readPort (hostPart A) t = portText (afterBracket A) t := by
    rw [readPort, if_pos hb, afterBracket]
  have hempty : portText (afterBracket A) [] = after colon (afterBracket A) := by
    simp [portText, portRegion]
  by_cases hc : colon ∈ afterBracket A
  · obtain ⟨hne, hpok⟩ := hport hc
    have hquery : portText (afterBracket A) [questionMark] = [] := portText_query rfl
    obtain ⟨u₁, hu₁, hp₁⟩ := uriParse_joinUri (t := []) hs hat hA .nil (hok (by rwa [hempty]))
    obtain ⟨u₂, hu₂, hp₂⟩ := uriParse_joinUri (t := [questionMark]) hs hat hA (.query (by simp))
      (hok (by rw [hquery]; exact .inl rfl))
    have hsame := (h _ _ (.inl rfl) (.inr ⟨_, _, rfl, isDelim_questionMark⟩) u₁ u₂ hu₁ hu₂).port
    have hzero : atoi [] = 0 := rfl
    have hpos := hpok.pos hne
    rw [hp₁, hp₂, hread, hread, hempty, hquery] at hsame
    omega
  · have hnone : after colon (afterBracket A) = [] := after_of_not_mem hc
    have hfrag : portText (afterBracket A) (str "#:80/") = str "80" := by
      rw [portText, portRegion, if_neg (by decide), if_pos (by decide),
        after_append_of_not_mem hc]
      decide
    obtain ⟨u₁, hu₁, hp₁⟩ := uriParse_joinUri (t := []) hs hat hA .nil
      (hok (by rw [hempty, hnone]; exact .inl rfl))
    obtain ⟨u₂, hu₂, hp₂⟩ := uriParse_joinUri (t := str "#:80/") hs hat hA
      (.fragment (x := str ":80/") (by decide)) (hok (by rw [hfrag]; exact .inr (by decide)))
    have hsame := (h _ _ (.inl rfl) (.inr ⟨_, _, rfl, isDelim_hashtag⟩) u₁ u₂ hu₁ hu₂).port
    rw [hp₁, hp₂, hread, hread, hempty, hnone, hfrag] at hsame
    exact absurd hsame (by decide)

/-- **Authority confinement**: no tail changes the party that a scheme and an authority name if and
only if the two are confining; and a tail that is accepted changes it, compared with a harmless
one, if and only if it is not harmless. -/
theorem authority_confined_iff {scheme A : Bytes} (hs : ¬ schemeSeparator <:+: scheme)
    (hA : NoDelim A) :
    ((∀ t₁ t₂, IsTail t₁ → IsTail t₂ → Confined scheme A t₁ t₂) ↔ Confining scheme A) ∧
      ∀ t₁ t₂ u₁ u₂, IsTail t₁ → IsTail t₂ → uriParse {} (joinUri scheme A t₁) = .ok u₁ →
        uriParse {} (joinUri scheme A t₂) = .ok u₂ → Harmless A t₁ →
          (SameAuthority u₁ u₂ ↔ Harmless A t₂) := by
  refine ⟨⟨?_, ?_⟩, fun t₁ t₂ u₁ u₂ ht₁ ht₂ h₁ h₂ hh =>
    sameAuthority_iff_harmless hs hA ht₁ ht₂ h₁ h₂ hh⟩
  · intro h
    by_cases hscheme : SchemeOk scheme
    · by_cases hat : atSign ∈ A
      · refine .inr ⟨hat, fun hb hv => ?_⟩
        by_contra hno
        refine not_confined_of_address hscheme hA hat hb hv (fun hc => ?_) h
        simpa only [hc, true_and, not_or, not_not] using hno
      · exact absurd h (not_confined_of_not_mem hscheme hat)
    · exact .inl hscheme
  · intro hconf t₁ t₂ ht₁ ht₂ u₁ u₂ h₁ h₂
    obtain ⟨R, rfl, hRs, hR⟩ := exists_reading_joinUri hs h₁
    obtain ⟨S, rfl, hSs, hS⟩ := exists_reading_joinUri hs h₂
    rcases hconf with hbad | ⟨hat, hport⟩
    · exact absurd (hRs ▸ R.scheme_ok) hbad
    · obtain ⟨hRu, hRa, rfl⟩ := R.split hA ht₁ (.inl hat) hR
      obtain ⟨hSu, hSa, rfl⟩ := S.split hA ht₂ (.inl hat) hS
      refine sameAuthority_of_eq (hRs.trans hSs.symm) (hRu.trans hSu.symm)
        (hRa.trans hSa.symm) ?_
      have hokR := R.host_ok
      have hokS := S.host_ok
      rw [hRa] at hokR ⊢
      rw [hSa] at hokS ⊢
      unfold readPort
      split_ifs with hb
      · rw [HostOk, if_pos hb] at hokR hokS
        obtain ⟨hc, hv⟩ := hport hb ⟨hokR.closed, hokR.size_min, hokR.size_max, hokR.address⟩
        have hRnil := portText_eq_nil R.tail_ok hc hv hokR.port
        have hSnil := portText_eq_nil S.tail_ok hc hv hokS.port
        exact hRnil.trans hSnil.symm
      · rfl

/-- With credentials before a host by name, the tail is of no account. -/
theorem authority_confined_user :
    Confined (str "http") (str "user@example.com") (str "/a") (str "/@evil.com") := by
  have hall := (authority_confined_iff (by decide) (by decide)).1.2
    (.inr ⟨by decide, fun h => absurd h (by decide)⟩ : Confining (str "http")
      (str "user@example.com"))
  exact hall _ _ (.inr ⟨_, _, rfl, isDelim_slash⟩) (.inr ⟨_, _, rfl, isDelim_slash⟩)

/-- Without credentials, the path can name another host. -/
theorem not_confined_example :
    ¬ Confined (str "http") (str "example.com") [] (str "/@evil.com") := by
  intro h
  have hsame := h
    { scheme := some (str "http"), hostname := some (str "example.com") }
    { scheme := some (str "http"), hasAuthentication := 1
      username := some (str "example.com/"), hostname := some (str "evil.com") }
    (by decide) (by decide)
  exact absurd hsame.hostname (by decide)

end Unalix
