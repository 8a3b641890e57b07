import Unalix.Uri.Reading

/-!
# Which strings can be put together again

A parsed URI with the delimiters of the string it was read from should give that string back.
`Reassembled s u` says that `s` is the concatenation of the components of `u`, each with its
delimiter where `s` has it, up to case and up to the digits of the port. `Lossless` is the condition on
authority and tail under which the parser neither drops nor doubles a byte, and
`reassembled_iff_lossless` says that it is exact: a path without a query swallows the fragment, a
port is dropped before a query, and so on.
-/

namespace Unalix

open CString Ascii Outcome

/-! ## Components with their delimiters -/

/-- A component with its delimiter `c`, or neither. -/
def ComponentText (c : UInt8) (field : Option Bytes) (t : Bytes) : Prop :=
  t = [] ∧ field = none ∨ t = c :: text field

/-- The userinfo and its `@`, with a `:` or without one, or neither. -/
def UserinfoText (u : URI) (t : Bytes) : Prop :=
  (t = [] ∧ u.username = none ∧ u.password = none) ∨
    (t = text u.username ++ [atSign] ∧ u.password = none) ∨
    t = (text u.username ++ colon :: text u.password) ++ [atSign]

/-- The host up to case, in brackets when it is an address. -/
def HostText (u : URI) (t : Bytes) : Prop :=
  ∃ h : Bytes, h.map lower = (text u.hostname).map lower ∧
    t = if u.isIpv6 ≠ 0 then bracketStart :: (h ++ [bracketEnd]) else h

/-- The port as a `:` and digits, or neither. -/
def PortText (u : URI) (t : Bytes) : Prop :=
  t = [] ∧ u.port = 0 ∨
    ∃ d, t = colon :: d ∧ (∀ c ∈ d, isdigit c = true) ∧ (digitsValue d : ℤ) = u.port

/-- The string `s` is the concatenation of the components of `u`. The first `?` or `#` of `s` behind
the authority ends its path, and the first `#` its query, so it is `s` that says which delimiters
there are. -/
def Reassembled (s : Bytes) (u : URI) : Prop :=
  ∃ scheme userinfo host port path query fragment,
    u.scheme = some (scheme.map lower) ∧ UserinfoText u userinfo ∧ HostText u host ∧
    PortText u port ∧ ComponentText slash u.path path ∧ questionMark ∉ path ∧ hashtag ∉ path ∧
    ComponentText questionMark u.query query ∧ hashtag ∉ query ∧
    ComponentText hashtag u.fragment fragment ∧
    s = scheme ++ (schemeSeparator ++ (userinfo ++ (host ++ (port ++ (path ++ (query ++
      fragment))))))

/-! ## The condition -/

/-- The host of an authority as it is written, with its brackets. -/
def hostHead (a : Bytes) : Bytes :=
  if a.head? = some bracketStart then bracketStart :: (before bracketEnd a.tail ++ [bracketEnd])
  else before colon a

/-- What follows the host in an authority. -/
def hostRest (a : Bytes) : Bytes :=
  if a.head? = some bracketStart then after bracketEnd a.tail
  else onward colon a

/-- The rest of the authority is nothing, or a port whose value is kept. -/
def PortLossless (rest t : Bytes) : Prop :=
  (rest = [] ∧ (t.head? = some hashtag → slash ∈ t → after colon (before slash t) = [])) ∨
    ∃ d, rest = colon :: d ∧ (∀ c ∈ d, isdigit c = true) ∧ (digitsValue d : ℤ) ≤ maxPortNumber ∧
      (t.head? = some questionMark → digitsValue d = 0)

/-- The path does not take a fragment along, and is not found in one. -/
structure TailLossless (t : Bytes) : Prop where
  path : t.head? = some slash → questionMark ∉ t → hashtag ∉ t
  fragment : t.head? = some hashtag → after slash t = []

/-- No byte of the authority `a` and the tail `t` is dropped or read twice. -/
def Lossless (a t : Bytes) : Prop := PortLossless (hostRest a) t ∧ TailLossless t

/-! ## Tails -/

theorem componentText_nonempty (c : UInt8) (x : Bytes) :
    ComponentText c (nonempty x) (c :: x) := by
  right
  rw [text_nonempty]

theorem componentText_onward (c : UInt8) (s : Bytes) :
    ComponentText c (nonempty (after c s)) (onward c s) := by
  by_cases h : c ∈ s
  · rw [onward_of_mem h]
    exact componentText_nonempty c _
  · rw [onward_of_not_mem h, after_of_not_mem h]
    exact .inl ⟨rfl, rfl⟩

theorem Precedes.not_mem_before {c d : UInt8} {s : Bytes} (h : Precedes c d s) (hc : c ∈ s) :
    d ∉ before c s := by
  intro hd
  have hin := h (mem_of_mem_before hd) hc
  rw [← before_append_onward c s, before_append_of_mem hd] at hin
  exact CString.not_mem_before c s (mem_of_mem_before hin)

/-- A lossless tail is put together from its components. -/
theorem exists_of_tailLossless {t : Bytes} (ht : TailOk t) (h : TailLossless t) :
    ∃ path query fragment, ComponentText slash (readPath t) path ∧ questionMark ∉ path ∧
      hashtag ∉ path ∧ ComponentText questionMark (readQuery t) query ∧ hashtag ∉ query ∧
      ComponentText hashtag (readFragment t) fragment ∧ t = path ++ (query ++ fragment) := by
  have hsq : questionMark ≠ slash := by decide
  have hsh : hashtag ≠ slash := by decide
  have hqh : hashtag ≠ questionMark := by decide
  unfold readPath readQuery readFragment
  cases ht with
  | nil =>
    exact ⟨[], [], [], .inl ⟨rfl, rfl⟩, by simp, by simp, .inl ⟨rfl, rfl⟩, by simp, .inl ⟨rfl, rfl⟩,
      rfl⟩
  | @path x hx =>
    have hq₁ : after questionMark (slash :: x) = after questionMark x :=
      after_append_of_not_mem (a := [slash]) (by simpa using hsq) x
    have hh₁ : after hashtag (slash :: x) = after hashtag x :=
      after_append_of_not_mem (a := [slash]) (by simpa using hsh) x
    rw [after_cons_self, hq₁, hh₁]
    by_cases hq : questionMark ∈ x
    · -- path, query and fragment
      have hcut := before_append_cut hq
      have hh₂ : after hashtag x = after hashtag (after questionMark x) := by
        conv_lhs => rw [← hcut]
        rw [after_append_of_not_mem (hx.not_mem_before hq)]
        exact after_append_of_not_mem (a := [questionMark]) (by simpa using hqh) _
      refine ⟨_, _, _, componentText_nonempty slash _, ?_, ?_, componentText_nonempty questionMark _,
        ?_, hh₂ ▸ componentText_onward hashtag (after questionMark x), ?_⟩
      · simp [hsq, CString.not_mem_before]
      · simp [hsh, hx.not_mem_before hq]
      · simp [hqh, CString.not_mem_before]
      rw [List.cons_append, List.cons_append, before_append_onward, hcut]
    · -- no query: the path is the whole rest
      have hno : hashtag ∉ slash :: x := h.path rfl (by simp [hsq, hq])
      have hnil : after hashtag x = [] := after_of_not_mem fun hm => hno (List.mem_cons_of_mem _ hm)
      rw [before_of_not_mem hq, after_of_not_mem hq, hnil]
      exact ⟨_, _, _, componentText_nonempty slash x, by simp [hsq, hq], hno, .inl ⟨rfl, rfl⟩,
        by simp, .inl ⟨rfl, rfl⟩, by simp⟩
  | @query x hx =>
    have hs : slash ∉ questionMark :: x := by simp [hsq.symm, hx]
    have hh₁ : after hashtag (questionMark :: x) = after hashtag x :=
      after_append_of_not_mem (a := [questionMark]) (by simpa using hqh) x
    rw [after_of_not_mem hs, after_cons_self, hh₁]
    refine ⟨[], _, _, .inl ⟨rfl, rfl⟩, by simp, by simp, componentText_nonempty questionMark _,
      by simp [hqh, CString.not_mem_before], componentText_onward hashtag x, ?_⟩
    rw [List.nil_append, List.cons_append, before_append_onward]
  | @fragment x hx =>
    have hq : questionMark ∉ hashtag :: x := by simp [hqh.symm, hx]
    rw [h.fragment rfl, after_of_not_mem hq, after_cons_self]
    exact ⟨[], [], _, .inl ⟨rfl, rfl⟩, by simp, by simp, .inl ⟨rfl, rfl⟩, by simp,
      componentText_nonempty hashtag x, rfl⟩

/-- Conversely the components of a tail make it up only when it is lossless. -/
theorem tailLossless_of_eq {t path query fragment : Bytes} (ht : TailOk t)
    (hp : ComponentText slash (readPath t) path) (hhash : hashtag ∉ path)
    (heq : t = path ++ (query ++ fragment)) : TailLossless t := by
  constructor
  · intro hs hquestion
    obtain ⟨x, rfl⟩ := List.head?_eq_some_iff.1 hs
    have hqx : questionMark ∉ x := fun h => hquestion (List.mem_cons_of_mem _ h)
    rw [readPath, after_cons_self, before_of_not_mem hqx] at hp
    rcases hp with ⟨rfl, hx⟩ | rfl
    · rw [nonempty_eq_none_iff] at hx
      subst hx
      simp [show hashtag ≠ slash by decide]
    · -- the path is the whole tail
      rwa [text_nonempty] at hhash
  · intro hh
    obtain ⟨x, rfl⟩ := List.head?_eq_some_iff.1 hh
    have hquestion : questionMark ∉ after slash (hashtag :: x) := by
      intro hm
      cases ht with
      | fragment hx =>
        have := mem_of_mem_after hm
        simp [hx, show questionMark ≠ hashtag by decide] at this
    rcases hp with ⟨-, hnone⟩ | rfl
    · rwa [readPath, nonempty_eq_none_iff, before_of_not_mem hquestion] at hnone
    · simp [show hashtag ≠ slash by decide] at heq

/-! ## Ports -/

/-- The port is read from what follows the host. -/
theorem HostOk.readPort_eq {a t : Bytes} (h : HostOk a t) (ht : TailOk t) :
    readPort a t = portText (hostRest a) t := by
  unfold HostOk at h
  unfold readPort hostRest
  split_ifs at h ⊢
  · rfl
  · have hafter : after colon (onward colon a) = after colon a := by
      by_cases hc : colon ∈ a
      · rw [onward_of_mem hc, after_cons_self]
      · rw [onward_of_not_mem hc, after_of_not_mem hc]
        rfl
    by_cases hq : t.head? = some questionMark
    · rw [portText_query hq, after_of_not_mem (h.query hq)]
    · rw [portText, portRegion_of_not_mem hq h.fragment ht, hafter]

/-- The rest of the authority writes the port that was read exactly when it is lossless. -/
theorem portText_iff_portLossless {u : URI} {rest t : Bytes} (ht : TailOk t)
    (hok : PortOk (portText rest t)) (hu : u.port = atoi (portText rest t)) :
    PortText u rest ↔ PortLossless rest t := by
  have hzero : atoi [] = 0 := rfl
  constructor
  · rintro (⟨rfl, hport⟩ | ⟨d, rfl, hd, hport⟩)
    · refine .inl ⟨rfl, fun hh hs => ?_⟩
      by_contra hne
      have hset : ¬ PortSettled [] t := fun h => hne (h.fragment hh hs (by simp))
      refine atoi_portText_ne hset hok (.inl rfl) ?_
      rw [← hu, hport]
      rfl
    · refine .inr ⟨d, rfl, hd, ?_, fun hq => ?_⟩
      · rw [hport, hu]
        rcases hok with hnil | ⟨-, -, hmax⟩
        · rw [hnil, hzero]
          decide
        · exact hmax
      · rw [hu, portText_query hq, hzero] at hport
        exact_mod_cast hport
  · rintro (⟨rfl, hfrag⟩ | ⟨d, rfl, hd, hmax, hquery⟩)
    · have hset : PortSettled [] t := ⟨fun _ => rfl, fun hh hs _ => hfrag hh hs⟩
      refine .inl ⟨rfl, ?_⟩
      rw [hu, hset.portText_eq ht hok]
      rfl
    · refine .inr ⟨d, rfl, hd, ?_⟩
      rw [hu]
      by_cases hq : t.head? = some questionMark
      · rw [portText_query hq, hzero, hquery hq]
        rfl
      · rcases portText_eq_of_not_query ht hq hok with heq | ⟨-, -, hno, -⟩
        · have hlt : digitsValue d < 2 ^ 31 := by
            have : maxPortNumber = 65535 := rfl
            omega
          rw [heq, after_cons_self, atoi_of_lt hd hlt]
        · simp at hno

/-! ## Hosts -/

theorem HostOk.hostHead_append {a t : Bytes} (h : HostOk a t) : hostHead a ++ hostRest a = a := by
  unfold HostOk at h
  unfold hostHead hostRest
  split_ifs at h ⊢ with hb
  · obtain ⟨a', rfl⟩ := List.head?_eq_some_iff.1 hb
    have hcut := before_append_cut h.closed
    rw [List.cons_append, List.append_assoc, List.singleton_append, hcut]
    rfl
  · exact before_append_onward colon a

/-- The host of a reading, as it is written. -/
theorem hostText_uri_iff {R : Reading} {host : Bytes} : HostText R.uri host ↔
    if R.authority.head? = some bracketStart then
      ∃ h : Bytes, h.map lower = (before bracketEnd R.authority.tail).map lower ∧
        host = bracketStart :: (h ++ [bracketEnd])
    else host.map lower = (before colon R.authority).map lower := by
  have hmap (x : Bytes) : (x.map lower).map lower = x.map lower := by simp
  simp only [HostText, Reading.uri, readIsIpv6_ne_zero_iff, readHostname, text, Option.getD_some]
  split_ifs with hb
  · rfl
  · rw [hmap]
    constructor
    · rintro ⟨h, hh, rfl⟩
      exact hh
    · intro h
      exact ⟨host, h, rfl⟩

theorem hostText_hostHead (R : Reading) : HostText R.uri (hostHead R.authority) := by
  rw [hostText_uri_iff, hostHead]
  split_ifs with hb
  · exact ⟨_, rfl, rfl⟩
  · rfl

/-- The host that is printed has the length of the host that was read. -/
theorem HostText.length_eq {R : Reading} {host : Bytes} (h : HostText R.uri host) :
    host.length = (hostHead R.authority).length := by
  rw [hostText_uri_iff] at h
  unfold hostHead
  split_ifs at h ⊢ with hb
  · obtain ⟨x, hx, rfl⟩ := h
    have hlen := congrArg List.length hx
    simpa using hlen
  · simpa using congrArg List.length h

/-- No host begins with the characters that end a userinfo. -/
theorem HostText.head_ne {R : Reading} {host y : Bytes} {c : UInt8} (h : HostText R.uri host)
    (hc : c = atSign ∨ c = colon) : (host ++ y).head? ≠ some c := by
  intro heq
  have hok := R.host_ok
  rw [hostText_uri_iff] at h
  unfold HostOk at hok
  split_ifs at h hok with hb
  · obtain ⟨x, -, rfl⟩ := h
    simp only [List.cons_append, List.head?_cons, Option.some.injEq] at heq
    rcases hc with rfl | rfl <;> exact absurd heq (by decide)
  · have hpos : 0 < (before colon R.authority).length := by
      have hmin := hok.size_min
      have : minHostnameSize = 4 := rfl
      omega
    obtain ⟨z, n, hn⟩ := List.exists_cons_of_length_pos hpos
    have hz := hok.labels.chars z (by simp [hn])
    rw [hn] at h
    cases host with
    | nil => simp at h
    | cons w x =>
      simp only [List.map_cons, List.cons.injEq] at h
      simp only [List.cons_append, List.head?_cons, Option.some.injEq] at heq
      subst heq
      have hlow : lower w = w := by
        rcases hc with rfl | rfl <;> decide
      rw [hlow] at h
      rcases hz with hz | rfl | rfl
      · have := isalnum_lower hz
        rw [← h.1] at this
        rcases hc with rfl | rfl <;> exact absurd this (by decide)
      · rcases hc with rfl | rfl <;> exact absurd h.1 (by decide)
      · rcases hc with rfl | rfl <;> exact absurd h.1 (by decide)

/-! ## Userinfos -/

theorem text_username (R : Reading) :
    text R.uri.username = before colon (R.userinfo.getD []) := text_nonempty _

theorem text_password (R : Reading) :
    text R.uri.password = after colon (R.userinfo.getD []) := text_nonempty _

theorem userinfoText_userinfo (R : Reading) :
    UserinfoText R.uri (Reading.userinfoText R.userinfo) := by
  rcases hu : R.userinfo with _ | info
  · refine .inl ⟨rfl, ?_, ?_⟩ <;> simp [Reading.uri, hu, before, after]
  · right
    rw [text_username, text_password, hu, Option.getD_some]
    by_cases hc : colon ∈ info
    · right
      rw [before_append_cut hc]
      rfl
    · left
      rw [before_of_not_mem hc]
      refine ⟨rfl, ?_⟩
      simp [Reading.uri, hu, after_of_not_mem hc]

/-- The userinfo that is printed is the one that was read. -/
theorem UserinfoText.eq {R : Reading} {userinfo host y : Bytes} (h : UserinfoText R.uri userinfo)
    (hhost : HostText R.uri host)
    (heq : userinfo ++ (host ++ y) =
      Reading.userinfoText R.userinfo ++ (R.authority ++ R.tail)) :
    userinfo = Reading.userinfoText R.userinfo := by
  rw [UserinfoText, text_username, text_password] at h
  rcases hu : R.userinfo with _ | info
  · -- without a userinfo there is no `@` to print
    rw [hu, Reading.userinfoText, List.nil_append] at heq
    have hno : atSign ∉ userinfo := fun hm => R.no_at hu (heq ▸ List.mem_append_left _ hm)
    rcases h with ⟨rfl, -⟩ | ⟨rfl, -⟩ | rfl
    · rfl
    · simp at hno
    · simp at hno
  · have hinfo : atSign ∉ info := R.userinfo_ok info hu
    rw [hu, Option.getD_some] at h
    rw [hu, Reading.userinfoText] at heq
    have hcut {w : Bytes} (hw : atSign ∉ w) (h : userinfo = w ++ [atSign]) :
        userinfo = Reading.userinfoText (some info) := by
      rw [h, List.append_assoc, List.append_assoc, List.singleton_append,
        List.singleton_append] at heq
      rw [h, (cut_unique heq hw hinfo).1]
      rfl
    rcases h with ⟨rfl, huser, hpass⟩ | ⟨rfl, -⟩ | rfl
    · simp only [Reading.uri, hu, Option.getD_some, nonempty_eq_none_iff] at huser hpass
      rw [List.nil_append] at heq
      refine absurd (congrArg List.head? heq) ?_
      by_cases hc : colon ∈ info
      · have hsplit := before_append_cut hc
        rw [huser, hpass, List.nil_append] at hsplit
        rw [← hsplit]
        exact hhost.head_ne (.inr rfl)
      · rw [before_of_not_mem hc] at huser
        rw [huser]
        exact hhost.head_ne (.inl rfl)
    · exact hcut (fun hm => hinfo (mem_of_mem_before hm)) rfl
    · refine hcut ?_ rfl
      intro hm
      rcases List.mem_append.1 hm with hm | hm
      · exact hinfo (mem_of_mem_before hm)
      · rcases List.mem_cons.1 hm with hm | hm
        · exact absurd hm (by decide)
        · exact hinfo (mem_of_mem_after hm)

/-! ## Putting a string together again -/

theorem NoDelim.hostRest {a : Bytes} (h : NoDelim a) : NoDelim (hostRest a) := by
  intro c hc
  unfold Unalix.hostRest at hc
  split_ifs at hc
  · exact h c (List.mem_of_mem_tail (mem_of_mem_after hc))
  · exact h c (List.dropWhile_subset _ hc)

theorem PortText.noDelim {u : URI} {t : Bytes} (h : PortText u t) : NoDelim t := by
  rcases h with ⟨rfl, -⟩ | ⟨d, rfl, hd, -⟩
  · simp [NoDelim]
  · intro c hc
    rcases List.mem_cons.1 hc with rfl | hc
    · decide
    · have := hd c hc
      rintro (rfl | rfl | rfl) <;> exact absurd this (by decide)

theorem ComponentText.isTail_append {c : UInt8} {field : Option Bytes} {t y : Bytes}
    (h : ComponentText c field t) (hc : IsDelim c) (hy : IsTail y) : IsTail (t ++ y) := by
  rcases h with ⟨rfl, -⟩ | rfl
  · exact hy
  · exact .inr ⟨c, _, rfl, hc⟩

/-- The pieces of a reassembled reading are the pieces it was cut into. -/
theorem Reading.pieces_eq {R : Reading} {scheme userinfo host port path query fragment : Bytes}
    (hs : R.uri.scheme = some (scheme.map lower)) (hu : UserinfoText R.uri userinfo)
    (hh : HostText R.uri host) (hport : PortText R.uri port)
    (hp : ComponentText slash R.uri.path path)
    (hq : ComponentText questionMark R.uri.query query)
    (hf : ComponentText hashtag R.uri.fragment fragment)
    (heq : R.text = scheme ++ (schemeSeparator ++ (userinfo ++ (host ++ (port ++ (path ++ (query ++
      fragment))))))) :
    port = hostRest R.authority ∧ R.tail = path ++ (query ++ fragment) := by
  have hlen : R.scheme.length = scheme.length := by
    have := congrArg List.length (Option.some.inj hs)
    simpa using this
  have htext := (List.append_inj heq hlen).2
  rw [List.append_cancel_left_eq] at htext
  rw [hu.eq hh htext.symm, List.append_cancel_left_eq, ← R.host_ok.hostHead_append,
    List.append_assoc] at htext
  have hrest := (List.append_inj htext hh.length_eq.symm).2
  have hf' : IsTail fragment := by
    simpa using hf.isTail_append isDelim_hashtag (.inl rfl)
  have htail : IsTail (path ++ (query ++ fragment)) :=
    hp.isTail_append isDelim_slash (hq.isTail_append isDelim_questionMark hf')
  obtain ⟨h₁, h₂⟩ := head_tail_unique hrest R.authority_ok.hostRest R.tail_ok.isTail hport.noDelim
    htail
  exact ⟨h₁.symm, h₂⟩

/-- **Reassembly of a reading.** -/
theorem Reading.reassembled_iff (R : Reading) :
    Reassembled R.text R.uri ↔ Lossless R.authority R.tail := by
  have hread := R.host_ok.readPort_eq R.tail_ok
  have hport : R.uri.port = atoi (portText (hostRest R.authority) R.tail) := by
    rw [← hread]
    rfl
  have hok : PortOk (portText (hostRest R.authority) R.tail) := hread ▸ R.host_ok.port
  have hiff := portText_iff_portLossless R.tail_ok hok hport
  constructor
  · rintro ⟨scheme, userinfo, host, port, path, query, fragment, hs, hu, hh, hp, hpath, -, hhash,
      hq, -, hf, heq⟩
    obtain ⟨rfl, htail⟩ := R.pieces_eq hs hu hh hp hpath hq hf heq
    exact ⟨hiff.1 hp, tailLossless_of_eq R.tail_ok hpath hhash htail⟩
  · rintro ⟨hp, htail⟩
    obtain ⟨path, query, fragment, hpath, hquestion, hhash, hq, hhash', hf, heq⟩ :=
      exists_of_tailLossless R.tail_ok htail
    refine ⟨R.scheme, _, _, _, path, query, fragment, rfl, userinfoText_userinfo R,
      hostText_hostHead R, hiff.2 hp, hpath, hquestion, hhash, hq, hhash', hf, ?_⟩
    rw [← heq, ← List.append_assoc (hostHead _), R.host_ok.hostHead_append]
    rfl

/-- **No byte lost or duplicated**: an accepted string is put together again from the components
read from it if and only if its authority and tail are lossless. -/
theorem reassembled_iff_lossless {s : Bytes} {u : URI} (h : uriParse {} s = .ok u) :
    Reassembled s u ↔ ∃ R : Reading, R.text = s ∧ Lossless R.authority R.tail := by
  constructor
  · intro hs
    obtain ⟨R, rfl, rfl⟩ := uriParse_eq_ok_iff.1 h
    exact ⟨R, rfl, R.reassembled_iff.1 hs⟩
  · rintro ⟨R, rfl, hR⟩
    have hu := uriParse_eq_ok_iff.2 ⟨R, rfl, rfl⟩
    rw [h, Except.ok.injEq] at hu
    rw [hu]
    exact R.reassembled_iff.2 hR

/-- A string with every component. -/
theorem reassembled_iff_lossless_full :
    let s := str "http://user:pw@example.com:80/a?b#c"
    let u : URI :=
      { scheme := some (str "http"), hasAuthentication := 1, username := some (str "user")
        password := some (str "pw"), hostname := some (str "example.com"), port := 80
        path := some (str "a"), query := some (str "b"), fragment := some (str "c") }
    Reassembled s u ↔ ∃ R : Reading, R.text = s ∧ Lossless R.authority R.tail :=
  reassembled_iff_lossless (by decide)

/-- Without a query, the fragment is also a part of the path. -/
theorem not_reassembled_fragment : ∃ u, uriParse {} (str "http://example.com/a#b") = .ok u ∧
    ¬ Reassembled (str "http://example.com/a#b") u := by
  refine ⟨{ scheme := some (str "http"), hostname := some (str "example.com")
            path := some (str "a#b"), fragment := some (str "b") }, by decide, ?_⟩
  rintro ⟨scheme, userinfo, host, port, path, query, fragment, hs, -, ⟨h, hh, rfl⟩, -, hp, -, -, -,
    -, hf, heq⟩
  have hpath : path = str "/a#b" := hp.resolve_left fun h => Option.some_ne_none _ h.2
  have hfragment : fragment = str "#b" := hf.resolve_left fun h => Option.some_ne_none _ h.2
  have hscheme := congrArg List.length (Option.some.inj hs)
  have hhost := congrArg List.length hh
  have hlen := congrArg List.length heq
  simp [hpath, hfragment, str, schemeSeparator, text] at hscheme hhost hlen
  omega

end Unalix
