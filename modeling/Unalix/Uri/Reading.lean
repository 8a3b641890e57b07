import Unalix.Uri.Authority

/-!
# Readings: the strings that `uri_parse` accepts

A `Reading` is a string cut into a scheme, a userinfo, an authority and a tail, with the proofs
that each part is accepted in its place. `uri_parse` succeeds exactly on the texts of readings,
and its result is the URI of the reading (`uriParse_eq_ok_iff`).

The userinfo ends at the first `@` after the scheme, wherever that is: a reading without userinfo
has no `@` at all (`Reading.no_at`), and a userinfo may contain delimiters.
-/

namespace Unalix

open CString Ascii Outcome

/-- An accepted host and port, before the tail `t`. -/
def HostOk (a t : Bytes) : Prop :=
  if a.head? = some bracketStart then AddressOk a.tail t else NameOk a t

/-- The host read from an authority. -/
def readHostname (a : Bytes) : Bytes :=
  if a.head? = some bracketStart then before bracketEnd a.tail else (before colon a).map lower

def readIsIpv6 (a : Bytes) : ℤ := if a.head? = some bracketStart then 1 else 0

@[simp] theorem readIsIpv6_ne_zero_iff {a : Bytes} :
    readIsIpv6 a ≠ 0 ↔ a.head? = some bracketStart := by
  unfold readIsIpv6
  split_ifs with h <;> simp [h]

/-- The text read as the port. -/
def readPort (a t : Bytes) : Bytes :=
  if a.head? = some bracketStart then portText (after bracketEnd a.tail) t else after colon a

theorem HostOk.port {a t : Bytes} (h : HostOk a t) : PortOk (readPort a t) := by
  unfold HostOk at h
  unfold readPort
  split_ifs at h ⊢
  · exact h.port
  · exact h.port

/-- **Hosts**, in brackets or not. -/
theorem parseHost_eq_ok_iff {obj u : URI} {a t : Bytes} (hport : obj.port = 0) (ht : TailOk t) :
    parseHost obj (a ++ t) (strstr t [slash]) (strstr t [questionMark]) (strstr t [hashtag]) =
        .ok u ↔
      HostOk a t ∧ u = { obj with
        hostname := some (readHostname a)
        isIpv6 := readIsIpv6 a
        port := atoi (readPort a t) } := by
  unfold HostOk readHostname readIsIpv6 readPort
  split_ifs with hb
  · obtain ⟨a', rfl⟩ := List.head?_eq_some_iff.1 hb
    exact parseHost_address hport ht
  · exact parseHost_name hport ht hb

/-! ## Schemes -/

theorem parseScheme_cut {scheme r : Bytes} (h : SchemeOk scheme) :
    parseScheme (scheme ++ (schemeSeparator ++ r)) = .ok (scheme.map lower, r) := by
  have hfind : strstr (scheme ++ (schemeSeparator ++ r)) schemeSeparator =
      some (schemeSeparator ++ r) := strstr_cut h.colon_not_mem
  have hsize : (scheme ++ (schemeSeparator ++ r)).length - (schemeSeparator ++ r).length =
      scheme.length := by simp
  have hpos : ¬ scheme.length < 1 := by
    have := List.length_pos_iff.2 h.ne_nil
    omega
  simp only [parseScheme, hfind, hsize, hpos, if_false, List.take_left,
    (checkScheme_eq_ok_iff h.ne_nil).2 ⟨h, rfl⟩, ok_bind, pure_eq, List.drop_left]

theorem exists_of_parseScheme {s scheme r : Bytes} (h : parseScheme s = .ok (scheme, r)) :
    ∃ a, s = a ++ (schemeSeparator ++ r) ∧ SchemeOk a ∧ scheme = a.map lower := by
  unfold parseScheme at h
  rcases hfind : strstr s schemeSeparator with _ | t
  · simp [hfind] at h
  · obtain ⟨a, rfl, ⟨r', rfl⟩, -⟩ := exists_of_strstr hfind
    have hsize : (a ++ (schemeSeparator ++ r')).length - (schemeSeparator ++ r').length =
        a.length := by simp
    simp only [hfind, hsize, List.take_left, List.drop_left] at h
    split_ifs at h with hpos
    · exact absurd h (fail_ne_ok _ _)
    · have ha : a ≠ [] := by
        rintro rfl
        exact hpos (by simp)
      simp only [bind_eq_ok, checkScheme_eq_ok_iff ha, pure_eq, Except.ok.injEq,
        Prod.mk.injEq] at h
      obtain ⟨_, ⟨hok, rfl⟩, rfl, rfl⟩ := h
      exact ⟨a, rfl, hok, rfl⟩

/-! ## Readings -/

/-- A string cut into its components, each accepted in its place. -/
structure Reading where
  scheme : Bytes
  userinfo : Option Bytes
  authority : Bytes
  tail : Bytes
  scheme_ok : SchemeOk scheme
  userinfo_ok : ∀ info ∈ userinfo, atSign ∉ info
  no_at : userinfo = none → atSign ∉ authority ++ tail
  authority_ok : NoDelim authority
  tail_ok : TailOk tail
  host_ok : HostOk authority tail

namespace Reading

/-- The userinfo with its `@`. -/
def userinfoText (userinfo : Option Bytes) : Bytes :=
  match userinfo with
  | none => []
  | some info => info ++ [atSign]

/-- The string that is read. -/
def text (R : Reading) : Bytes :=
  R.scheme ++ (schemeSeparator ++ (userinfoText R.userinfo ++ (R.authority ++ R.tail)))

/-- The result of reading it. -/
def uri (R : Reading) : URI where
  isIpv6 := readIsIpv6 R.authority
  hasAuthentication := authenticated (R.userinfo.getD [])
  username := nonempty (before colon (R.userinfo.getD []))
  password := nonempty (after colon (R.userinfo.getD []))
  scheme := some (R.scheme.map lower)
  hostname := some (readHostname R.authority)
  port := atoi (readPort R.authority R.tail)
  path := readPath R.tail
  query := readQuery R.tail
  fragment := readFragment R.tail

/-- What is left of the string after the userinfo is read by its delimiters. -/
theorem parseUserinfo_text {scheme userinfo : Option Bytes} {r : Bytes}
    (hinfo : ∀ info ∈ userinfo, atSign ∉ info) (hno : userinfo = none → atSign ∉ r) :
    parseUserinfo { scheme := scheme } (userinfoText userinfo ++ r) = .ok
      ({ scheme := scheme
         username := nonempty (before colon (userinfo.getD []))
         password := nonempty (after colon (userinfo.getD []))
         hasAuthentication := authenticated (userinfo.getD []) }, r) := by
  cases userinfo with
  | none => simpa [userinfoText, authenticated, before, after] using parseUserinfo_none (hno rfl)
  | some info =>
    have := @parseUserinfo_cut scheme info r (hinfo info rfl)
    simpa [userinfoText] using this

end Reading

/-- **The userinfo is cut off at the first `@`**, if there is one. -/
theorem exists_userinfo (r : Bytes) : ∃ userinfo h, r = Reading.userinfoText userinfo ++ h ∧
    (∀ info ∈ userinfo, atSign ∉ info) ∧ (userinfo = none → atSign ∉ h) := by
  by_cases hat : atSign ∈ r
  · obtain ⟨info, h, rfl, hinfo⟩ := List.eq_append_cons_of_mem hat
    refine ⟨some info, h, by simp [Reading.userinfoText], ?_, by simp⟩
    intro info' h'
    cases h'
    exact hinfo
  · exact ⟨none, r, rfl, by simp, fun _ => hat⟩

/-- **`uri_parse` accepts the texts of readings and nothing else**, and returns their URIs. -/
theorem uriParse_eq_ok_iff {s : Bytes} {u : URI} :
    uriParse {} s = .ok u ↔ ∃ R : Reading, R.text = s ∧ R.uri = u := by
  constructor
  · intro h
    simp only [uriParse, parseUri, bind_eq_ok, Prod.exists] at h
    obtain ⟨scheme, r, hscheme, obj, hostnameStart, hinfo, v, hhost, hcomp⟩ := h
    obtain ⟨a, rfl, ha, rfl⟩ := exists_of_parseScheme hscheme
    obtain ⟨userinfo, h, rfl, hok, hno⟩ := exists_userinfo r
    rw [Reading.parseUserinfo_text hok hno] at hinfo
    obtain ⟨rfl, rfl⟩ := Prod.mk.injEq .. ▸ Except.ok.inj hinfo
    obtain ⟨authority, t, rfl, hauth, ht⟩ := exists_head_tail IsDelim h
    have hauth' : NoDelim authority := hauth
    rw [hauth'.strstr_append isDelim_slash, hauth'.strstr_append isDelim_questionMark,
      hauth'.strstr_append isDelim_hashtag] at hhost hcomp
    obtain ⟨htail, rfl⟩ := (parseComponents_eq_ok_iff ht).1 hcomp
    obtain ⟨hhost', rfl⟩ := (parseHost_eq_ok_iff rfl htail).1 hhost
    refine ⟨⟨a, userinfo, authority, t, ha, hok, hno, hauth', htail, hhost'⟩, rfl, ?_⟩
    simp [Reading.uri]
  · rintro ⟨R, rfl, rfl⟩
    have hauth := R.authority_ok
    simp only [uriParse, parseUri, Reading.text, parseScheme_cut R.scheme_ok, ok_bind,
      Reading.parseUserinfo_text R.userinfo_ok R.no_at, hauth.strstr_append isDelim_slash,
      hauth.strstr_append isDelim_questionMark, hauth.strstr_append isDelim_hashtag]
    rw [(parseHost_eq_ok_iff rfl R.tail_ok).2 ⟨R.host_ok, rfl⟩, ok_bind,
      parseComponents_eq_ok_iff R.tail_ok.isTail]
    exact ⟨R.tail_ok, by simp [Reading.uri]⟩

end Unalix
