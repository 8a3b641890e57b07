import Unalix.Uri.Tail

/-!
# The authority of a URI: userinfo, host and port

`parseUserinfo` cuts at the first `@` of the whole rest of the string (`parseUserinfo_cut`). What
follows is an authority without delimiters and a tail, and `parseHost` reads the two together:

* a registered name ends at its first `:`, and is accepted when nothing of the tail is taken for
  its port or its end (`NameOk`, `parseHost_name`);
* an address in brackets ends at its `]`; its port is the text after the first `:` in what the
  parser regards as the authority, `portRegion`, which for a tail that begins with `#` reaches
  into the fragment and for one that begins with `?` is empty (`Ipv6Ok`, `parseHost_ipv6`).
-/

namespace Unalix

open CString Ascii Outcome

/-! ## Userinfo -/

theorem parseUserinfo_none {obj : URI} {r : Bytes} (h : atSign ∉ r) :
    parseUserinfo obj r = .ok (obj, r) := by
  rw [parseUserinfo, strstr_singleton_eq_none_iff.2 h]

/-- Whether a userinfo has a username or a password. -/
def authenticated (info : Bytes) : ℤ :=
  if nonempty (before colon info) = none ∧ nonempty (after colon info) = none then 0 else 1

theorem findSeparator_cut {u p h : Bytes} (hu : colon ∉ u) :
    findSeparator (u ++ colon :: (p ++ atSign :: h)) (atSign :: h) =
      colon :: (p ++ atSign :: h) := by
  have hlen : ¬ (colon :: (p ++ atSign :: h)).length < (atSign :: h).length := by
    simp
    omega
  simp only [findSeparator, strstr_singleton_cut hu, hlen, if_false]

theorem findSeparator_of_not_mem {info h : Bytes} (hinfo : colon ∉ info) :
    findSeparator (info ++ atSign :: h) (atSign :: h) = atSign :: h := by
  have hne : atSign ≠ colon := by decide
  rw [findSeparator, strstr_singleton_append hinfo, strstr_singleton]
  simp only [hne.symm, if_false]
  rcases hs : strstr h [colon] with _ | separator
  · rfl
  · have := (suffix_of_strstr hs).length_le
    simp only [List.length_cons, ite_eq_left_iff, not_lt]
    omega

/-- The credentials of a zeroed struct are the two sides of the first `:`. -/
theorem parseUserinfo_cut {scheme : Option Bytes} {info h : Bytes} (hinfo : atSign ∉ info) :
    parseUserinfo { scheme := scheme } (info ++ atSign :: h) = .ok
      ({ scheme := scheme
         username := nonempty (before colon info)
         password := nonempty (after colon info)
         hasAuthentication := authenticated info }, h) := by
  have hne : colon ≠ atSign := by decide
  rw [parseUserinfo, strstr_singleton_cut hinfo]
  by_cases hc : colon ∈ info
  · obtain ⟨u, p, rfl, hu⟩ := List.eq_append_cons_of_mem hc
    have hassoc : u ++ colon :: p ++ atSign :: h = u ++ colon :: (p ++ atSign :: h) := by simp
    have hsep : colon :: (p ++ atSign :: h) ≠ atSign :: h := by simp [hne]
    rw [hassoc]
    simp only [findSeparator_cut hu, copyRange_append, ok_bind, hsep, ne_eq, not_false_eq_true,
      if_true, List.drop_one, List.tail_cons, before_cut hu, after_cut hu, pure_eq,
      authenticated]
    rcases u with _ | ⟨x, u⟩ <;> rcases p with _ | ⟨y, p⟩ <;>
      simp [nonempty, setAuthentication]
  · have hpass : copyRange (atSign :: h) (atSign :: h) = .ok none :=
      copyRange_append [] (atSign :: h)
    simp only [findSeparator_of_not_mem hc, copyRange_append, ok_bind, ne_eq, not_true_eq_false,
      if_false, hpass, before_of_not_mem hc, after_of_not_mem hc, List.drop_one, List.tail_cons,
      pure_eq, authenticated, nonempty_nil, and_true]
    rcases info with _ | ⟨x, info⟩ <;> simp [nonempty, setAuthentication]

/-! ## The port and the pointers around it -/

/-- The part of the rest of the authority `rest` and of the tail in which a `:` begins a port. -/
def portRegion (rest tail : Bytes) : Bytes :=
  if tail.head? = some questionMark then []
  else if slash ∈ tail then rest ++ before slash tail else rest

/-- The text that is read as a port. -/
def portText (rest tail : Bytes) : Bytes := after colon (portRegion rest tail)

theorem portRegion_of_not_mem {rest tail : Bytes} (hq : tail.head? ≠ some questionMark)
    (hs : tail.head? = some hashtag → slash ∉ tail) (ht : TailOk tail) :
    portRegion rest tail = rest := by
  unfold portRegion
  rw [if_neg hq]
  split
  · rename_i hmem
    cases ht with
    | nil => simp at hmem
    | path _ => rw [before_cons_self, List.append_nil]
    | query _ => exact absurd rfl hq
    | fragment _ => exact absurd hmem (hs rfl)
  · rfl

/-- The port after an address in brackets does not depend on the tail `t`: a query drops the port,
and a fragment with a slash in it can hold one. -/
structure PortSettled (rest t : Bytes) : Prop where
  query : t.head? = some questionMark → after colon rest = []
  fragment : t.head? = some hashtag → slash ∈ t → colon ∉ rest → after colon (before slash t) = []

theorem portText_query {rest t : Bytes} (h : t.head? = some questionMark) :
    portText rest t = [] := by
  simp [portText, portRegion, h, after]

/-- Past a fragment that holds a slash, a port that has begun before is not a number. -/
theorem portText_eq_of_not_query {rest t : Bytes} (ht : TailOk t)
    (hq : t.head? ≠ some questionMark) (hok : PortOk (portText rest t)) :
    portText rest t = after colon rest ∨
      t.head? = some hashtag ∧ slash ∈ t ∧ colon ∉ rest ∧
        portText rest t = after colon (before slash t) := by
  by_cases hs : t.head? = some hashtag → slash ∉ t
  · left
    rw [portText, portRegion_of_not_mem hq hs ht]
  · have hs' : t.head? = some hashtag ∧ slash ∈ t := by
      simpa only [Classical.not_imp, not_not] using hs
    obtain ⟨hh, hmem⟩ := hs'
    obtain ⟨x, rfl⟩ := List.head?_eq_some_iff.1 hh
    have htext : portText rest (hashtag :: x) =
        after colon (rest ++ before slash (hashtag :: x)) := by
      rw [portText, portRegion, if_neg hq, if_pos hmem]
    rw [htext] at hok ⊢
    by_cases hc : colon ∈ rest
    · rw [after_append_of_mem hc] at hok
      have hin : hashtag ∈ before slash (hashtag :: x) := by
        simp [before, show hashtag ≠ slash by decide]
      exact absurd (hok.isdigit _ (List.mem_append_right _ hin)) (by decide)
    · right
      exact ⟨rfl, hmem, hc, after_append_of_not_mem hc _⟩

theorem PortSettled.portText_eq {rest t : Bytes} (h : PortSettled rest t) (ht : TailOk t)
    (hok : PortOk (portText rest t)) : portText rest t = after colon rest := by
  by_cases hq : t.head? = some questionMark
  · rw [portText_query hq, h.query hq]
  · rcases portText_eq_of_not_query ht hq hok with heq | ⟨hh, hs, hc, heq⟩
    · exact heq
    · rw [heq, h.fragment hh hs hc, after_of_not_mem hc]

/-- An unsettled port is lost or found in the fragment. -/
theorem atoi_portText_ne {rest t : Bytes} (h : ¬ PortSettled rest t)
    (hok : PortOk (portText rest t)) (hrest : PortOk (after colon rest)) :
    atoi (portText rest t) ≠ atoi (after colon rest) := by
  have hzero : atoi [] = 0 := rfl
  by_cases hq : t.head? = some questionMark
  · have hne : after colon rest ≠ [] := by
      intro heq
      refine h ⟨fun _ => heq, fun hh => ?_⟩
      rw [hq] at hh
      exact absurd hh (by decide)
    have := hrest.pos hne
    rw [portText_query hq, hzero]
    omega
  · have hfrag : t.head? = some hashtag ∧ slash ∈ t ∧ colon ∉ rest ∧
        after colon (before slash t) ≠ [] := by
      by_contra hno
      refine h ⟨fun hh => absurd hh hq, fun hh hs hc => ?_⟩
      by_contra hne
      exact hno ⟨hh, hs, hc, hne⟩
    obtain ⟨hh, hs, hc, hne⟩ := hfrag
    have htext : portText rest t = after colon (before slash t) := by
      rw [portText, portRegion, if_neg hq, if_pos hs, after_append_of_not_mem hc]
    rw [htext] at hok ⊢
    have := hok.pos hne
    rw [after_of_not_mem hc, hzero]
    omega

/-- The end of the port, for a tail that does not begin with a query. -/
theorem exists_findPortEnd (rest : Bytes) {t : Bytes} (ht : TailOk t)
    (hq : t.head? ≠ some questionMark) :
    ∃ z e, t = z ++ e ∧ portRegion rest t = rest ++ z ∧
      findPortEnd (strstr t [slash]) (strstr t [questionMark]) (strstr t [hashtag]) = some e ∧
      text ((strstr t [slash] <|> strstr t [questionMark]) <|> strstr t [hashtag]) = e ∧
      (z ≠ [] ↔ t.head? = some hashtag ∧ slash ∈ t) := by
  cases ht with
  | nil => exact ⟨[], [], rfl, by simp [portRegion], rfl, rfl, by simp⟩
  | @path x _ =>
    exact ⟨[], slash :: x, rfl, by simp [portRegion, show slash ≠ questionMark by decide],
      by simp [findPortEnd], by simp [text], by simp [show slash ≠ hashtag by decide]⟩
  | query _ => exact absurd rfl hq
  | @fragment x hx =>
    have hq' : strstr (hashtag :: x) [questionMark] = none := by
      rw [strstr_singleton_eq_none_iff]
      simp [show questionMark ≠ hashtag by decide, hx]
    have hne : slash ≠ hashtag := by decide
    by_cases hs : slash ∈ x
    · obtain ⟨y, w, rfl, hy⟩ := List.eq_append_cons_of_mem hs
      have hy' : slash ∉ hashtag :: y := by simp [hne, hy]
      have hcut : hashtag :: (y ++ slash :: w) = (hashtag :: y) ++ slash :: w := rfl
      refine ⟨hashtag :: y, slash :: w, rfl, ?_, ?_, ?_, by simp⟩
      · rw [portRegion, if_neg hq, if_pos (by simp), hcut, before_cut hy']
      · rw [hq', hcut, strstr_singleton_cut hy']
        simp [findPortEnd]
      · rw [hq', hcut, strstr_singleton_cut hy']
        simp [text]
    · have hs' : strstr (hashtag :: x) [slash] = none := by
        rw [strstr_singleton_eq_none_iff]
        simp [hne, hs]
      refine ⟨[], hashtag :: x, rfl, ?_, ?_, ?_, by simp [hne, hs]⟩
      · rw [portRegion, if_neg hq, if_neg (by simp [hne, hs]), List.append_nil]
      · rw [hs', hq']
        simp [findPortEnd]
      · rw [hs', hq']
        simp [text]

/-- A `:` before the end of the port is the beginning of one. -/
theorem parsePort_of_mem {obj u : URI} {isIpv6 : Bool} {hostnameEnd e' : Option Bytes}
    {region e : Bytes} {p q f : Option Bytes} (hc : colon ∈ region)
    (he : findPortEnd p q f = some e) :
    parsePort obj isIpv6 hostnameEnd (strstr (region ++ e) [colon]) p q f = .ok (u, e') ↔
      PortOk (after colon region) ∧
      u = { obj with
        port := if after colon region = [] then obj.port else atoi (after colon region) } ∧
      e' = if isIpv6 then hostnameEnd else some (colon :: (after colon region ++ e)) := by
  obtain ⟨a, d, rfl, ha⟩ := List.eq_append_cons_of_mem hc
  have hlt : ptrLt (colon :: (d ++ e)) (some e) = true := by
    simp [ptrLt]
  have hsize : (d ++ e).length - e.length = d.length := by simp
  rw [List.append_assoc, List.cons_append, strstr_singleton_cut ha, after_cut ha]
  simp only [parsePort, he, hlt, if_true, List.drop_one, List.tail_cons, text, Option.getD_some,
    hsize, List.take_left]
  by_cases hd : d = []
  · subst hd
    simp only [List.length_nil, lt_irrefl, if_false, ok_bind, pure_eq, Except.ok.injEq,
      Prod.mk.injEq, if_true]
    constructor
    · rintro ⟨rfl, rfl⟩
      exact ⟨.inl rfl, rfl, rfl⟩
    · rintro ⟨-, rfl, rfl⟩
      exact ⟨rfl, rfl⟩
  · have hpos : 0 < d.length := List.length_pos_iff.2 hd
    simp only [hpos, if_true, bind_eq_ok, parsePortNumber_eq_ok_iff hd, hd, if_false, pure_eq,
      Except.ok.injEq, Prod.mk.injEq]
    constructor
    · rintro ⟨_, ⟨hok, rfl⟩, rfl, rfl⟩
      exact ⟨hok, rfl, rfl⟩
    · rintro ⟨hok, rfl, rfl⟩
      exact ⟨_, ⟨hok, rfl⟩, rfl, rfl⟩

/-- A `:` after the end of the port is none. -/
theorem parsePort_of_not_mem {obj : URI} {isIpv6 : Bool} {hostnameEnd : Option Bytes}
    {region e : Bytes} {p q f : Option Bytes} (hc : colon ∉ region)
    (he : findPortEnd p q f = some e) :
    parsePort obj isIpv6 hostnameEnd (strstr (region ++ e) [colon]) p q f =
      .ok (obj, hostnameEnd) := by
  rw [strstr_singleton_append hc]
  rcases hs : strstr e [colon] with _ | s
  · rfl
  · have hlt : ptrLt s (some e) = false := by
      have := (suffix_of_strstr hs).length_le
      simp only [ptrLt, decide_eq_false_iff_not]
      omega
    simp [parsePort, he, hlt]

/-- With a query and no path, no port is read. -/
theorem parsePort_query {obj : URI} {isIpv6 : Bool} {hostnameEnd portStart q f : Option Bytes}
    (hq : q.isSome) :
    parsePort obj isIpv6 hostnameEnd portStart none q f = .ok (obj, hostnameEnd) := by
  cases portStart <;> simp [parsePort, findPortEnd, hq, ptrLt]

/-! ## Hosts -/

theorem checkHostnameSize_eq_ok_iff {isIpv6 : Bool} {size : ℕ} :
    checkHostnameSize isIpv6 size = .ok () ↔
      (if isIpv6 then minIpv6AddressSize else minHostnameSize) ≤ size ∧
        size ≤ if isIpv6 then maxIpv6AddressSize else maxHostnameSize := by
  unfold checkHostnameSize
  cases isIpv6 <;> simp only [Bool.false_eq_true, if_true, if_false] <;> split_ifs
  all_goals first
    | exact iff_of_true rfl (by omega)
    | exact iff_of_false (fail_ne_ok _ _) (by omega)

theorem setHostname_name {obj u : URI} {h e : Bytes} :
    setHostname obj false (h ++ e) e = .ok u ↔
      (minHostnameSize ≤ h.length ∧ h.length ≤ maxHostnameSize) ∧ LabelsOk h ∧
        u = { obj with hostname := some (h.map lower), isIpv6 := 0 } := by
  have hsize : sizeBetween (h ++ e) e = h.length := by simp [sizeBetween]
  rw [setHostname, check_bind_eq_ok]
  simp only [hsize, Int.toNat_natCast, List.take_left, bind_eq_ok, checkHostnameSize_eq_ok_iff,
    Bool.false_eq_true, if_false, checkLabels_eq_ok_iff, pure_eq, Except.ok.injEq]
  constructor
  · rintro ⟨hsize, _, ⟨hl, rfl⟩, rfl⟩
    exact ⟨hsize, hl, rfl⟩
  · rintro ⟨hsize, hl, rfl⟩
    exact ⟨hsize, _, ⟨hl, rfl⟩, rfl⟩

theorem setHostname_address {obj u : URI} {h e : Bytes} :
    setHostname obj true (h ++ e) e = .ok u ↔
      (minIpv6AddressSize ≤ h.length ∧ h.length ≤ maxIpv6AddressSize) ∧ isipv6 h = true ∧
        u = { obj with hostname := some h, isIpv6 := 1 } := by
  have hsize : sizeBetween (h ++ e) e = h.length := by simp [sizeBetween]
  rw [setHostname, check_bind_eq_ok]
  simp only [hsize, Int.toNat_natCast, List.take_left, checkHostnameSize_eq_ok_iff, if_true]
  cases hi : isipv6 h
  · simp
  · simp [eq_comm]

/-- An authority `name` or `name:port` that is accepted before the tail `t`. -/
structure NameOk (a t : Bytes) : Prop where
  size_min : minHostnameSize ≤ (before colon a).length
  size_max : (before colon a).length ≤ maxHostnameSize
  labels : LabelsOk (before colon a)
  port : PortOk (after colon a)
  query : t.head? = some questionMark → colon ∉ a
  fragment : t.head? = some hashtag → slash ∉ t

/-- The part after `[` of an authority `[address]` or `[address]:port` that is accepted before the
tail `t`. What stands between `]` and `:` is not looked at. -/
structure AddressOk (a t : Bytes) : Prop where
  closed : bracketEnd ∈ a
  size_min : minIpv6AddressSize ≤ (before bracketEnd a).length
  size_max : (before bracketEnd a).length ≤ maxIpv6AddressSize
  address : isipv6 (before bracketEnd a) = true
  port : PortOk (portText (after bracketEnd a) t)

/-- The host of a name is what precedes the first `:`, if no `:` is looked for in the tail. -/
theorem parseHost_name_of_region {obj u : URI} {a t z e : Bytes} (hport : obj.port = 0)
    (hb : (a ++ t).head? ≠ some bracketStart) (hsplit : t = z ++ e)
    (he : findPortEnd (strstr t [slash]) (strstr t [questionMark]) (strstr t [hashtag]) = some e)
    (hstop : text ((strstr t [slash] <|> strstr t [questionMark]) <|> strstr t [hashtag]) = e) :
    parseHost obj (a ++ t) (strstr t [slash]) (strstr t [questionMark]) (strstr t [hashtag]) =
        .ok u ↔
      PortOk (after colon (a ++ z)) ∧
      (minHostnameSize ≤ (before colon (a ++ z)).length ∧
        (before colon (a ++ z)).length ≤ maxHostnameSize) ∧
      LabelsOk (before colon (a ++ z)) ∧
      u = { obj with
        hostname := some ((before colon (a ++ z)).map lower)
        isIpv6 := 0
        port := atoi (after colon (a ++ z)) } := by
  have hjoin : a ++ t = (a ++ z) ++ e := by rw [hsplit, List.append_assoc]
  simp only [parseHost, hb, decide_false, Bool.false_eq_true, if_false, ok_bind]
  rw [hjoin, hstop]
  by_cases hc : colon ∈ a ++ z
  · have hcut : (a ++ z) ++ e =
        before colon (a ++ z) ++ colon :: (after colon (a ++ z) ++ e) := by
      rw [← List.cons_append, ← List.append_assoc, before_append_cut hc]
    have hvalue : (if after colon (a ++ z) = [] then obj.port else atoi (after colon (a ++ z))) =
        atoi (after colon (a ++ z)) := by
      split_ifs with h
      · rw [h, hport]
        rfl
      · rfl
    simp only [bind_eq_ok, Prod.exists, parsePort_of_mem hc he, Bool.false_eq_true, if_false,
      hvalue]
    rw [hcut]
    constructor
    · rintro ⟨_, _, ⟨hok, rfl, rfl⟩, hu⟩
      obtain ⟨hsize, hl, rfl⟩ := setHostname_name.1 hu
      exact ⟨hok, hsize, hl, rfl⟩
    · rintro ⟨hok, hsize, hl, rfl⟩
      exact ⟨_, _, ⟨hok, rfl, rfl⟩, setHostname_name.2 ⟨hsize, hl, rfl⟩⟩
  · have hzero : atoi [] = obj.port := hport.symm
    simp only [parsePort_of_not_mem hc he, ok_bind, setHostname_name, before_of_not_mem hc,
      after_of_not_mem hc, hzero, PortOk, true_or, true_and]

theorem head?_append_ne {a t : Bytes} (ha : a.head? ≠ some bracketStart) (ht : IsTail t) :
    (a ++ t).head? ≠ some bracketStart := by
  cases a with
  | nil =>
    rcases ht with rfl | ⟨c, x, rfl, hc⟩
    · simp
    · intro h
      rw [List.nil_append, List.head?_cons, Option.some.injEq] at h
      rw [h] at hc
      exact absurd hc (by decide)
  | cons x a => exact ha

/-- No name contains a delimiter. -/
theorem LabelsOk.not_isDelim {h : Bytes} (hh : LabelsOk h) : NoDelim h := by
  intro c hc hd
  rcases hd with rfl | rfl | rfl <;> exact absurd (hh.chars _ hc) (by decide)

theorem LabelsOk.colon_not_mem {h : Bytes} (hh : LabelsOk h) : colon ∉ h := fun hc =>
  absurd (hh.chars _ hc) (by decide)

/-- A host name does not begin like an address. -/
theorem LabelsOk.head?_ne_bracketStart {h : Bytes} (hh : LabelsOk h)
    (hmin : minHostnameSize ≤ h.length) (t : Bytes) : (h ++ t).head? ≠ some bracketStart := by
  cases h with
  | nil => exact absurd hmin (by decide)
  | cons c h =>
    rw [List.cons_append, List.head?_cons, ne_eq, Option.some.injEq]
    rintro rfl
    exact absurd (hh.chars bracketStart (by simp)) (by decide)

/-- **Hosts by name**: what `parse_uri` accepts as a name and a port, and what it reads there. -/
theorem parseHost_name {obj u : URI} {a t : Bytes} (hport : obj.port = 0) (ht : TailOk t)
    (hb : a.head? ≠ some bracketStart) :
    parseHost obj (a ++ t) (strstr t [slash]) (strstr t [questionMark]) (strstr t [hashtag]) =
        .ok u ↔
      NameOk a t ∧ u = { obj with
        hostname := some ((before colon a).map lower)
        isIpv6 := 0
        port := atoi (after colon a) } := by
  have hb' := head?_append_ne hb ht.isTail
  by_cases hq : t.head? = some questionMark
  · -- the port is dropped, so a `:` would be part of the name
    obtain ⟨x, rfl, hx⟩ : ∃ x, t = questionMark :: x ∧ slash ∉ x := by
      cases ht with
      | nil => simp at hq
      | path _ => simp [show slash ≠ questionMark by decide] at hq
      | query h => exact ⟨_, rfl, h⟩
      | fragment _ => simp [show hashtag ≠ questionMark by decide] at hq
    have hs : strstr (questionMark :: x) [slash] = none := by
      rw [strstr_singleton_eq_none_iff]
      simp [show slash ≠ questionMark by decide, hx]
    have hzero : atoi [] = obj.port := hport.symm
    have hstop (f : Option Bytes) :
        text ((none <|> some (questionMark :: x)) <|> f) = questionMark :: x := rfl
    simp only [parseHost, hb', decide_false, Bool.false_eq_true, if_false, ok_bind, hs,
      strstr_singleton_cons_self, parsePort_query (Option.isSome_some), hstop, setHostname_name]
    constructor
    · rintro ⟨⟨hmin, hmax⟩, hl, rfl⟩
      have hc := hl.colon_not_mem
      simp only [before_of_not_mem hc, after_of_not_mem hc, hzero, and_true]
      exact ⟨by rwa [before_of_not_mem hc], by rwa [before_of_not_mem hc],
        by rwa [before_of_not_mem hc], .inl (after_of_not_mem hc), fun _ => hc,
        fun h => by simp [show questionMark ≠ hashtag by decide] at h⟩
    · rintro ⟨hok, rfl⟩
      have hc := hok.query rfl
      have hmin := hok.size_min
      have hmax := hok.size_max
      have hl := hok.labels
      rw [before_of_not_mem hc] at hmin hmax hl
      simp only [before_of_not_mem hc, after_of_not_mem hc, hzero, and_true]
      exact ⟨⟨hmin, hmax⟩, hl⟩
  · obtain ⟨z, e, hsplit, -, he, hstop, hz⟩ := exists_findPortEnd a ht hq
    rw [parseHost_name_of_region hport hb' hsplit he hstop]
    cases z with
    | nil =>
      have hs : t.head? = some hashtag → slash ∉ t := fun hh hs => hz.2 ⟨hh, hs⟩ rfl
      rw [List.append_nil]
      constructor
      · rintro ⟨hp, ⟨hmin, hmax⟩, hl, rfl⟩
        exact ⟨⟨hmin, hmax, hl, hp, fun h => absurd h hq, hs⟩, rfl⟩
      · rintro ⟨hok, rfl⟩
        exact ⟨hok.port, ⟨hok.size_min, hok.size_max⟩, hok.labels, rfl⟩
    | cons c z =>
      -- the name or the port would reach into the fragment
      obtain ⟨hh, hs⟩ : t.head? = some hashtag ∧ slash ∈ t := hz.1 (by simp)
      have hc : c = hashtag := by simpa [hsplit] using hh
      subst hc
      refine iff_of_false ?_ fun h => h.1.fragment hh hs
      rintro ⟨hp, -, hl, -⟩
      by_cases hc : colon ∈ a
      · rw [after_append_of_mem hc] at hp
        exact absurd (hp.isdigit hashtag (by simp)) (by decide)
      · rw [before_append_of_not_mem hc] at hl
        refine hl.not_isDelim hashtag ?_ isDelim_hashtag
        simp [before, show hashtag ≠ colon by decide]

/-- The port of an address in brackets, for the `:` searched for after the `]`. -/
theorem parsePort_address {obj v : URI} {rest t : Bytes} {hostnameEnd e' : Option Bytes}
    (hport : obj.port = 0) (ht : TailOk t) :
    parsePort obj true hostnameEnd (strstr (rest ++ t) [colon]) (strstr t [slash])
        (strstr t [questionMark]) (strstr t [hashtag]) = .ok (v, e') ↔
      PortOk (portText rest t) ∧ v = { obj with port := atoi (portText rest t) } ∧
        e' = hostnameEnd := by
  have hzero : atoi [] = obj.port := hport.symm
  have hnone (hr : portText rest t = []) :
      (PortOk (portText rest t) ∧ v = { obj with port := atoi (portText rest t) } ∧
        e' = hostnameEnd) ↔ v = obj ∧ e' = hostnameEnd := by
    simp only [hr, PortOk, true_or, true_and, hzero]
  by_cases hq : t.head? = some questionMark
  · have hs : strstr t [slash] = none := by
      cases ht with
      | nil => simp at hq
      | path _ => simp [show slash ≠ questionMark by decide] at hq
      | query h =>
        rw [strstr_singleton_eq_none_iff]
        simp [show slash ≠ questionMark by decide, h]
      | fragment _ => simp [show hashtag ≠ questionMark by decide] at hq
    have hsome : (strstr t [questionMark]).isSome := by
      obtain ⟨x, rfl⟩ := List.head?_eq_some_iff.1 hq
      simp
    have htext : portText rest t = [] := by simp [portText, portRegion, hq, after]
    rw [hs, parsePort_query hsome, hnone htext, Except.ok.injEq, Prod.mk.injEq, eq_comm,
      @eq_comm _ hostnameEnd]
  · obtain ⟨z, e, hsplit, hr, he, -, -⟩ := exists_findPortEnd rest ht hq
    have hjoin : rest ++ t = portRegion rest t ++ e := by
      rw [hr, List.append_assoc, ← hsplit]
    rw [hjoin]
    by_cases hc : colon ∈ portRegion rest t
    · have hvalue : (if portText rest t = [] then obj.port else atoi (portText rest t)) =
          atoi (portText rest t) := by
        split_ifs with h
        · rw [h, hzero]
        · rfl
      rw [parsePort_of_mem hc he]
      simp only [show after colon (portRegion rest t) = portText rest t from rfl, hvalue, if_true]
    · rw [parsePort_of_not_mem hc he, hnone (after_of_not_mem hc), Except.ok.injEq,
        Prod.mk.injEq, eq_comm, @eq_comm _ hostnameEnd]

/-- The end of an address is not moved by its port. -/
theorem parsePort_hostnameEnd {obj v : URI} {hostnameEnd e' portStart p q f : Option Bytes}
    (h : parsePort obj true hostnameEnd portStart p q f = .ok (v, e')) : e' = hostnameEnd := by
  cases portStart with
  | none =>
    cases h
    rfl
  | some s =>
    simp only [parsePort, if_true, pure_eq, ok_bind] at h
    split_ifs at h
    · obtain ⟨w, -, hw⟩ := bind_eq_ok.1 h
      cases hw
      rfl
    · cases h
      rfl
    · cases h
      rfl

theorem parseHost_bracket_none {obj : URI} {s : Bytes} {p q f : Option Bytes}
    (h : strstr s [bracketEnd] = none) :
    parseHost obj (bracketStart :: s) p q f = fail .uriHostnameMissingClosingBracket := by
  have hfind : strstr (bracketStart :: s) [bracketEnd] = none := by
    rw [strstr_singleton]
    simp [show bracketEnd ≠ bracketStart by decide, h]
  simp [parseHost, hfind]

theorem parseHost_bracket_some {obj u : URI} {s e : Bytes} {p q f : Option Bytes}
    (h : strstr s [bracketEnd] = some e) :
    parseHost obj (bracketStart :: s) p q f = .ok u ↔
      ∃ v, parsePort obj true (some e) (strstr e [colon]) p q f = .ok (v, some e) ∧
        setHostname v true s e = .ok u := by
  have hfind : strstr (bracketStart :: s) [bracketEnd] = some e := by
    rw [strstr_singleton]
    simp [show bracketEnd ≠ bracketStart by decide, h]
  have hport : (if (strstr (bracketStart :: s) [colon]).isSome then strstr e [colon]
      else strstr (bracketStart :: s) [colon]) = strstr e [colon] := by
    split
    · rfl
    · rename_i hnone
      rw [Option.not_isSome_iff_eq_none, strstr_singleton_eq_none_iff] at hnone
      have hc : colon ∉ e := fun hm =>
        hnone (List.mem_cons_of_mem _ ((suffix_of_strstr h).subset hm))
      rw [strstr_singleton_eq_none_iff.2 hnone, strstr_singleton_eq_none_iff.2 hc]
  simp only [parseHost, List.head?_cons, decide_true, if_true, hfind, ok_bind, hport, bind_eq_ok,
    Prod.exists, List.drop_one, List.tail_cons]
  constructor
  · rintro ⟨v, e', hv, hu⟩
    obtain rfl := parsePort_hostnameEnd hv
    exact ⟨v, hv, hu⟩
  · rintro ⟨v, hv, hu⟩
    exact ⟨v, some e, hv, hu⟩

/-- An address that reaches into the tail contains a delimiter. -/
theorem parseHost_not_closed {obj : URI} {a t : Bytes} (hclosed : bracketEnd ∉ a) (ht : IsTail t)
    {p q f : Option Bytes} (u : URI) : parseHost obj (bracketStart :: (a ++ t)) p q f ≠ .ok u := by
  intro hu
  rcases hfind : strstr (a ++ t) [bracketEnd] with _ | e
  · rw [parseHost_bracket_none hfind] at hu
    exact fail_ne_ok _ _ hu
  · obtain ⟨v, -, hu⟩ := (parseHost_bracket_some hfind).1 hu
    obtain ⟨h, rest, hcut, rfl, hh⟩ := strstr_singleton_eq_some_iff.1 hfind
    rw [hcut] at hu
    obtain ⟨-, hi, -⟩ := setHostname_address.1 hu
    have hbefore : h = a ++ before bracketEnd t := by
      rw [← before_append_of_not_mem hclosed, hcut, before_cut hh]
    rcases ht with rfl | ⟨c, x, rfl, hc⟩
    · rw [List.append_nil] at hcut
      exact hclosed (hcut ▸ by simp)
    · have hne : c ≠ bracketEnd := by
        rintro rfl
        exact absurd hc (by decide)
      have hmem : c ∈ h := by
        rw [hbefore]
        simp [before, hne]
      rcases hc with rfl | rfl | rfl <;> exact absurd (isAddressChar_of_isipv6 hi _ hmem) (by decide)

/-- **Hosts by address**: what `parse_uri` accepts after a `[`, and what it reads there. -/
theorem parseHost_address {obj u : URI} {a t : Bytes} (hport : obj.port = 0) (ht : TailOk t) :
    parseHost obj (bracketStart :: (a ++ t)) (strstr t [slash]) (strstr t [questionMark])
        (strstr t [hashtag]) = .ok u ↔
      AddressOk a t ∧ u = { obj with
        hostname := some (before bracketEnd a)
        isIpv6 := 1
        port := atoi (portText (after bracketEnd a) t) } := by
  by_cases hclosed : bracketEnd ∈ a
  · obtain ⟨h, rest, rfl, hh⟩ := List.eq_append_cons_of_mem hclosed
    have hassoc : h ++ bracketEnd :: rest ++ t = h ++ bracketEnd :: (rest ++ t) := by simp
    have hcolon : strstr (bracketEnd :: (rest ++ t)) [colon] = strstr (rest ++ t) [colon] := by
      rw [strstr_singleton]
      simp [show colon ≠ bracketEnd by decide]
    rw [hassoc, parseHost_bracket_some (strstr_singleton_cut hh _), hcolon]
    simp only [parsePort_address hport ht, before_cut hh, after_cut hh, and_true]
    constructor
    · rintro ⟨_, ⟨hok, rfl⟩, hu⟩
      obtain ⟨⟨hmin, hmax⟩, hi, rfl⟩ := setHostname_address.1 hu
      refine ⟨⟨hclosed, ?_, ?_, ?_, ?_⟩, rfl⟩
      · rwa [before_cut hh]
      · rwa [before_cut hh]
      · rwa [before_cut hh]
      · rwa [after_cut hh]
    · rintro ⟨⟨-, hmin, hmax, hi, hok⟩, rfl⟩
      rw [before_cut hh] at hmin hmax hi
      rw [after_cut hh] at hok
      exact ⟨_, ⟨hok, rfl⟩, setHostname_address.2 ⟨⟨hmin, hmax⟩, hi, rfl⟩⟩
  · exact iff_of_false (parseHost_not_closed hclosed ht.isTail u) fun h => hclosed h.1.closed

end Unalix
