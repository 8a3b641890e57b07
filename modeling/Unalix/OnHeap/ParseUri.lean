import Unalix.OnHeap.Uri
import Unalix.Uri.Grammar

/-!
# Parsing in memory (`uri.c`)

Each stage of `parse_uri` does in memory what it does on values, and at each point of it the blocks
that it has allocated are the texts of the struct: the fields are null until a text is assigned to
them, and it is never lost. So `uri_parse` leaves the URI, or at an error nothing, since it frees
the struct (`uriParse_simulates`).
-/

namespace Unalix.OnHeap

open Calls Heaps CString Ascii

/-! ## Parsing -/

/-- The struct holds the URI `v`, besides its texts the blocks of `rest` are allocated, and `k` bytes
outside of blocks were accessed. -/
def Parsed (k : ℕ) (rest : Multiset (ℕ × Block)) (v : Unalix.URI) (m : Filling URI) : Prop :=
  ∃ p : PlacedUri, p.value = v ∧ m.obj = p.record ∧ Holds k m.heap (p.cells + rest)

/-- The texts that were allocated before an error are those of the struct. -/
def Owned (k : ℕ) (rest : Multiset (ℕ × Block)) (_ : Failure) (m : Filling URI) : Prop :=
  ∃ v, Parsed k rest v m

/-- A text was copied, if there is one, and belongs to no field yet. -/
def Copied (k : ℕ) (rest : Multiset (ℕ × Block)) (v : Unalix.URI) (s : Option Bytes) (pointer : Option ℕ)
    (m : Filling URI) : Prop :=
  ∃ t : PlacedText, t.record = pointer ∧ t.value = s ∧ Parsed k (t.cells + rest) v m

/-- The text of a field is at `a`, in a block of `size` bytes. -/
def Stored (k : ℕ) (rest : Multiset (ℕ × Block)) (field : Field) (a size : ℕ) (v : Unalix.URI)
    (m : Filling URI) : Prop :=
  ∃ (p : PlacedUri) (t : Text), p.texts field = some (a, t) ∧ t.size = size ∧ p.value = v ∧
    m.obj = p.record ∧ Holds k m.heap (p.cells + rest)

section Parsing

variable {k : ℕ} {rest : Multiset (ℕ × Block)} {v : Unalix.URI} {m : Filling URI}

theorem Parsed.owned {e : Failure} (hm : Parsed k rest v m) : Owned k rest e m := ⟨v, hm⟩

/-- A change of the struct that changes no text. -/
theorem Parsed.assign {f : URI → URI} (g : Unalix.URI → Unalix.URI)
    (change : PlacedUri → PlacedUri) (hvalue : ∀ p, (change p).value = g p.value)
    (hrecord : ∀ p, (change p).record = f p.record)
    (hcells : ∀ p, (change p).cells = p.cells) (hm : Parsed k rest v m) :
    ∃ m', assign f m = .ok () m' ∧ Parsed k rest (g v) m' := by
  obtain ⟨p, rfl, hobj, hh⟩ := hm
  refine ⟨_, rfl, change p, hvalue p, ?_, ?_⟩
  · exact (congrArg f hobj).trans (hrecord p).symm
  · rwa [hcells]

/-- A text is assigned to a field that was null. -/
theorem Copied.assign {f : ℕ → URI → URI} {g : Bytes → Unalix.URI → Unalix.URI} (field : Field)
    (hnone : field.get v = none) (change : PlacedUri → PlacedUri)
    (hvalue : ∀ (p : PlacedUri) t, (change (p.put field (some t))).value = g t.2.content p.value)
    (hrecord : ∀ (p : PlacedUri) t, (change (p.put field (some t))).record = f t.1 p.record)
    (hcells : ∀ p, (change p).cells = p.cells) {s : Option Bytes} {pointer : Option ℕ}
    (hm : Copied k rest v s pointer m) :
    ∃ m', assignSome pointer f m = .ok () m' ∧ Parsed k rest (s.elim v fun s => g s v) m' := by
  obtain ⟨t, rfl, rfl, p, rfl, hobj, hh⟩ := hm
  cases t with
  | none =>
    rw [PlacedText.cells_none, zero_add] at hh
    exact ⟨m, rfl, p, rfl, hobj, hh⟩
  | some t =>
    have htext : p.texts field = none :=
      PlacedText.eq_none_of_value ((p.get_value field).symm.trans hnone)
    refine ⟨_, rfl, change (p.put field (some t)), hvalue p t, ?_, ?_⟩
    · exact (congrArg (f t.1) hobj).trans (hrecord p t).symm
    · rwa [hcells, PlacedUri.cells_put_of_none htext, add_assoc, add_left_comm]

theorem Parsed.allocText (hm : Parsed k rest v m) (s : Option Bytes) :
    ∃ pointer m', heapPart.run (OnHeap.allocText s) m = .ok pointer m' ∧
      Copied k rest v s pointer m' := by
  obtain ⟨p, hp, hobj, hh⟩ := hm
  obtain ⟨t, h, halloc, ht, hh⟩ := exists_allocText hh s
  refine ⟨t.record, { m with heap := h }, Part.run_eq_ok.2 ⟨h, halloc, rfl⟩, t, rfl, ht, p, hp,
    hobj, ?_⟩
  rwa [add_left_comm] at hh

theorem copyRange_simulates (start stop : Bytes) :
    Simulates (Parsed k rest v) (copyRange start stop) (Unalix.copyRange start stop)
      (Copied k rest v) (Owned k rest) := by
  rw [← bind_pure (Unalix.copyRange start stop)]
  refine Simulates.bind (simulates_ofOutcome _ fun e m hm => hm.owned) fun s _ _ => ?_
  refine Simulates.assume ?_
  rintro rfl m hm
  exact hm.allocText _

/-- A text that was just copied is assigned to a field that was null. -/
theorem assignSome_simulates {γ δ : Type} {f : ℕ → URI → URI} {next : Unit → ParseCall γ}
    {r : Outcome δ} {Q : δ → γ → Filling URI → Prop} (g : Bytes → Unalix.URI → Unalix.URI)
    (field : Field) (hnone : field.get v = none) (change : PlacedUri → PlacedUri)
    (hvalue : ∀ (p : PlacedUri) t, (change (p.put field (some t))).value = g t.2.content p.value)
    (hrecord : ∀ (p : PlacedUri) t, (change (p.put field (some t))).record = f t.1 p.record)
    (hcells : ∀ p, (change p).cells = p.cells) (s : Option Bytes) (pointer : Option ℕ)
    (hnext : Simulates (Parsed k rest (s.elim v fun s => g s v)) (next ()) r Q (Owned k rest)) :
    Simulates (Copied k rest v s pointer) (assignSome pointer f >>= next) r Q (Owned k rest) := by
  refine Simulates.step (R := fun _ => Parsed k rest (s.elim v fun s => g s v)) (fun m hm => ?_)
    fun _ => hnext
  obtain ⟨m', hrun, hm'⟩ := hm.assign field hnone change hvalue hrecord hcells
  exact ⟨(), m', hrun, hm'⟩

/-- A text is allocated and assigned to a field that was null. -/
theorem setField_simulates {γ δ : Type} {f : ℕ → URI → URI} {next : ℕ → ParseCall γ} {r : Outcome δ}
    {Q : δ → γ → Filling URI → Prop} {s : Bytes} (g : Bytes → Unalix.URI → Unalix.URI) (field : Field)
    (hnone : field.get v = none)
    (hvalue : ∀ (p : PlacedUri) t, (p.put field (some t)).value = g t.2.content p.value)
    (hrecord : ∀ (p : PlacedUri) t, (p.put field (some t)).record = f t.1 p.record)
    (hnext : ∀ a, Simulates (Stored k rest field a (s.length + 1) (g s v)) (next a) r Q
      (Owned k rest)) :
    Simulates (Parsed k rest v)
      (heapPart.run (allocString s) >>= fun a => assign (f a) >>= fun _ => next a) r Q
      (Owned k rest) := by
  rintro m ⟨p, rfl, hobj, hh⟩
  obtain ⟨a, h, halloc, hh⟩ := exists_allocString hh s
  have htext : p.texts field = none :=
    PlacedText.eq_none_of_value ((p.get_value field).symm.trans hnone)
  have hrun : heapPart.run (allocString s) m = .ok a { m with heap := h } :=
    Part.run_eq_ok.2 ⟨h, halloc, rfl⟩
  rw [run_bind_of_ok hrun]
  refine hnext a _ ⟨p.put field (some (a, .exact s)), .exact s, ?_, rfl, hvalue p _, ?_, ?_⟩
  · rw [PlacedUri.texts_put]
  · exact (congrArg (f a) hobj).trans (hrecord p (a, .exact s)).symm
  · rwa [PlacedUri.cells_put_of_none htext, PlacedText.cells_some, add_assoc,
      Multiset.singleton_add]

theorem Stored.parsed {field : Field} {a size : ℕ} (hm : Stored k rest field a size v m) :
    Parsed k rest v m := by
  obtain ⟨p, _, -, -, hm⟩ := hm
  exact ⟨p, hm⟩

/-- A text is written in place of the one at `a`, whose block has room for it. -/
theorem Stored.write {g : Bytes → Unalix.URI → Unalix.URI} {field : Field} {a size : ℕ}
    (hvalue : ∀ (p : PlacedUri) t, (p.put field (some t)).value = g t.2.content p.value)
    (hm : Stored k rest field a size v m) {s : Bytes} (hs : s.length < size) :
    ∃ m', heapPart.run (writeString a s) m = .ok () m' ∧
      Parsed k rest (g s v) m' := by
  obtain ⟨p, t, htext, rfl, rfl, hobj, hh⟩ := hm
  rw [p.cells_eq field, htext, PlacedText.cells_some, add_assoc, Multiset.singleton_add] at hh
  obtain ⟨h, hwrite, hh⟩ := exists_writeString hh hs
  refine ⟨_, Part.run_eq_ok.2 ⟨h, hwrite, rfl⟩, p.put field (some (a, ⟨t.size, s, hs⟩)), hvalue p _,
    ?_, ?_⟩
  · exact hobj.trans (PlacedUri.record_put (by rw [htext]; rfl)).symm
  · rwa [PlacedUri.cells_put, PlacedText.cells_some, add_assoc, Multiset.singleton_add]

/-- A scheme is lowered in place. -/
theorem length_of_checkScheme {s s' : Bytes} (h : checkScheme 0 s = .ok s') :
    s'.length = s.length := by
  cases s with
  | nil =>
    cases h
    rfl
  | cons c s => rw [((checkScheme_eq_ok_iff (List.cons_ne_nil c s)).1 h).2, List.length_map]

/-- A host name is lowered in place. -/
theorem length_of_checkLabels {s s' : Bytes} (h : checkLabels 0 0 s = .ok s') :
    s'.length = s.length := by
  rw [(checkLabels_eq_ok_iff.1 h).2, List.length_map]

/-- **Scheme.** -/
theorem parseScheme_simulates (uri : Bytes) :
    Simulates (Parsed k rest {}) (parseScheme uri) (Unalix.parseScheme uri)
      (fun v start m => start = v.2 ∧ Parsed k rest { scheme := some v.1 } m) (Owned k rest) := by
  unfold parseScheme Unalix.parseScheme
  cases strstr uri schemeSeparator with
  | none => exact Simulates.throw fun m hm => hm.owned
  | some schemeEnd =>
    simp only
    split_ifs with hsize
    · exact Simulates.throw fun m hm => hm.owned
    · refine setField_simulates (fun s v => { v with scheme := some s }) .scheme rfl
        (fun _ _ => rfl) (fun _ _ => rfl) fun a => ?_
      refine Simulates.bind (simulates_ofOutcome _ fun e m hm => hm.parsed.owned)
        fun scheme _ hscheme => ?_
      refine Simulates.assume ?_
      rintro rfl m hm
      obtain ⟨m', hwrite, hm⟩ := hm.write (g := fun s v => { v with scheme := some s })
        (fun _ _ => rfl) (Nat.lt_succ_of_le (length_of_checkScheme hscheme).le)
      rw [run_bind_of_ok hwrite]
      exact ⟨_, m', rfl, rfl, hm⟩

/-- User information. -/
theorem parseUserinfo_simulates (scheme start : Bytes) :
    Simulates (Parsed k rest { scheme := some scheme }) (parseUserinfo start)
      (Unalix.parseUserinfo { scheme := some scheme } start)
      (fun v start m => start = v.2 ∧ (∀ field ∈ [.hostname, .path, .query, .fragment],
        Field.get field v.1 = none) ∧ Parsed k rest v.1 m) (Owned k rest) := by
  unfold parseUserinfo Unalix.parseUserinfo
  cases strstr start [atSign] with
  | none => exact Simulates.pure fun m hm => ⟨rfl, by simp [Field.get], hm⟩
  | some stop =>
    refine Simulates.bind (copyRange_simulates _ _) fun username pointer _ => ?_
    refine assignSome_simulates (fun s v => Unalix.setAuthentication { v with username := some s })
      .username rfl PlacedUri.setAuthentication (fun _ _ => rfl) (fun _ _ => rfl) (fun _ => rfl) _ _
      ?_
    refine Simulates.bind (copyRange_simulates _ _) fun password pointer _ => ?_
    refine assignSome_simulates (fun s v => Unalix.setAuthentication { v with password := some s })
      .password (by cases username <;> rfl) PlacedUri.setAuthentication (fun _ _ => rfl)
      (fun _ _ => rfl) (fun _ => rfl) _ _ ?_
    cases username <;> cases password <;>
      exact Simulates.pure fun m hm => ⟨rfl, by simp [Field.get, Unalix.setAuthentication], hm⟩

theorem Parsed.setPort (hm : Parsed k rest v m) (port : ℤ) :
    ∃ m', OnHeap.assign (fun obj => { obj with port := port }) m = .ok () m' ∧
      Parsed k rest { v with port := port } m' :=
  Parsed.assign (fun v => { v with port := port }) (fun p => { p with port := port })
    (fun _ => rfl) (fun _ => rfl) (fun _ => rfl) hm

theorem Parsed.setIsIpv6 (hm : Parsed k rest v m) (isIpv6 : ℤ) :
    ∃ m', OnHeap.assign (fun obj => { obj with isIpv6 := isIpv6 }) m = .ok () m' ∧
      Parsed k rest { v with isIpv6 := isIpv6 } m' :=
  Parsed.assign (fun v => { v with isIpv6 := isIpv6 }) (fun p => { p with isIpv6 := isIpv6 })
    (fun _ => rfl) (fun _ => rfl) (fun _ => rfl) hm

/-- The number of a port is stored, whether it is in its bounds or not. -/
theorem parsePortNumber_simulates (value : Bytes) :
    Simulates (Parsed k rest v) (parsePortNumber value) (Unalix.parsePortNumber v value)
      (fun v' _ m => v' = { v with port := v'.port } ∧ Parsed k rest v' m) (Owned k rest) := by
  unfold parsePortNumber Unalix.parsePortNumber
  split_ifs with hnumeric hleast hmost
  · exact Simulates.throw fun m hm => hm.owned
  all_goals
    intro m hm
    obtain ⟨m', hassign, hm'⟩ := hm.setPort (atoi value)
    rw [run_bind_of_ok hassign]
  · exact ⟨m', rfl, hm'.owned⟩
  · exact ⟨m', rfl, hm'.owned⟩
  · exact ⟨(), m', rfl, rfl, hm'⟩

/-- Port. -/
theorem parsePort_simulates (isIpv6 : Bool) (hostnameEnd portStart : Option Bytes)
    (pathStart queryStart fragmentStart : Option Bytes) :
    Simulates (Parsed k rest v)
      (parsePort isIpv6 hostnameEnd portStart pathStart queryStart fragmentStart)
      (Unalix.parsePort v isIpv6 hostnameEnd portStart pathStart queryStart fragmentStart)
      (fun v' hostnameEnd m => hostnameEnd = v'.2 ∧ v'.1 = { v with port := v'.1.port } ∧
        Parsed k rest v'.1 m) (Owned k rest) := by
  have hsame : Simulates (Parsed k rest v) (pure hostnameEnd) (.ok (v, hostnameEnd))
      (fun v' hostnameEnd m => hostnameEnd = v'.2 ∧ v'.1 = { v with port := v'.1.port } ∧
        Parsed k rest v'.1 m) (Owned k rest) := Simulates.pure fun m hm => ⟨rfl, rfl, hm⟩
  unfold parsePort Unalix.parsePort
  cases portStart with
  | none => exact hsame
  | some portStart =>
    by_cases hlt : ptrLt portStart (findPortEnd pathStart queryStart fragmentStart) = true
    · simp only [if_pos hlt]
      by_cases hsize : 0 < (portStart.drop 1).length -
          (text (findPortEnd pathStart queryStart fragmentStart)).length
      · simp only [if_pos hsize]
        exact Simulates.bind (parsePortNumber_simulates _) fun v' _ _ =>
          Simulates.pure fun m hm => ⟨rfl, hm⟩
      · simp only [if_neg hsize]
        exact Simulates.pure fun m hm => ⟨rfl, rfl, hm⟩
    · simp only [if_neg hlt]
      exact hsame

/-- Host. -/
theorem setHostname_simulates (hnone : v.hostname = none) (isIpv6 : Bool)
    (hostnameStart hostnameEnd : Bytes) :
    Simulates (Parsed k rest v) (setHostname isIpv6 hostnameStart hostnameEnd)
      (Unalix.setHostname v isIpv6 hostnameStart hostnameEnd)
      (fun v' _ m => v' = { v with hostname := v'.hostname, isIpv6 := v'.isIpv6 } ∧
        Parsed k rest v' m) (Owned k rest) := by
  unfold setHostname Unalix.setHostname
  refine Simulates.bind (simulates_ofOutcome _ fun e m hm => hm.owned) fun _ _ _ => ?_
  refine Simulates.assume fun _ => ?_
  refine setField_simulates (fun s v => { v with hostname := some s }) .hostname hnone
    (fun _ _ => rfl) (fun _ _ => rfl) fun a => ?_
  cases isIpv6 with
  | true =>
    simp only [if_true]
    split_ifs with haddress
    · exact Simulates.throw fun m hm => hm.parsed.owned
    · intro m hm
      obtain ⟨m', hassign, hm'⟩ := hm.parsed.setIsIpv6 1
      exact ⟨(), m', hassign, rfl, hm'⟩
  | false =>
    simp only [Bool.false_eq_true, if_false]
    refine Simulates.bind (simulates_ofOutcome _ fun e m hm => hm.parsed.owned)
      fun hostname _ hlabels => ?_
    refine Simulates.assume ?_
    rintro rfl m hm
    obtain ⟨m₁, hwrite, hm⟩ := hm.write (g := fun s v => { v with hostname := some s })
      (fun _ _ => rfl) (Nat.lt_succ_of_le (length_of_checkLabels hlabels).le)
    obtain ⟨m', hassign, hm'⟩ := hm.setIsIpv6 0
    rw [run_bind_of_ok hwrite]
    exact ⟨(), m', hassign, rfl, hm'⟩

/-- Host and port. -/
theorem parseHost_simulates (hnone : v.hostname = none) (hostnameStart : Bytes)
    (pathStart queryStart fragmentStart : Option Bytes) :
    Simulates (Parsed k rest v) (parseHost hostnameStart pathStart queryStart fragmentStart)
      (Unalix.parseHost v hostnameStart pathStart queryStart fragmentStart)
      (fun v' _ m => v' = { v with hostname := v'.hostname, isIpv6 := v'.isIpv6, port := v'.port } ∧
        Parsed k rest v' m) (Owned k rest) := by
  rw [parseHost_eq, parseHost]
  refine Simulates.bind (simulates_ofOutcome _ fun e m hm => hm.owned) fun pointers _ _ => ?_
  refine Simulates.assume ?_
  rintro rfl
  refine Simulates.bind (parsePort_simulates _ _ _ _ _ _) fun v' hostnameEnd _ => ?_
  refine Simulates.assume ?_
  rintro rfl
  refine Simulates.assume fun hport => ?_
  have hhost : v'.1.hostname = none := by
    rw [hport]
    exact hnone
  refine (setHostname_simulates hhost _ _ _).weaken (fun _ hm => hm) ?_ fun _ _ _ hm => hm
  rintro v'' _ m - ⟨hv'', hm⟩
  refine ⟨?_, hm⟩
  rw [hv'', hport]

/-- One of the last three components. -/
theorem copyComponent_simulates (start : Option Bytes) (stop : Bytes) :
    Simulates (Parsed k rest v) (copyComponent start stop) (Unalix.copyComponent start stop)
      (Copied k rest v) (Owned k rest) := by
  cases start with
  | none =>
    refine Simulates.pure fun m hm => ⟨none, rfl, rfl, ?_⟩
    rwa [PlacedText.cells_none, zero_add]
  | some start => exact copyRange_simulates _ _

/-- Fragment, query and path. -/
theorem parseComponents_simulates (hfragment : v.fragment = none) (hquery : v.query = none)
    (hpath : v.path = none) (pathStart queryStart fragmentStart : Option Bytes) :
    Simulates (Parsed k rest v) (parseComponents pathStart queryStart fragmentStart)
      (Unalix.parseComponents v pathStart queryStart fragmentStart)
      (fun v' _ m => Parsed k rest v' m) (Owned k rest) := by
  unfold parseComponents Unalix.parseComponents
  refine Simulates.bind (copyComponent_simulates _ _) fun fragment pointer _ => ?_
  refine assignSome_simulates (fun s v => { v with fragment := some s }) .fragment hfragment id
    (fun _ _ => rfl) (fun _ _ => rfl) (fun _ => rfl) _ _ ?_
  refine Simulates.bind (copyComponent_simulates _ _) fun query pointer _ => ?_
  refine assignSome_simulates (fun s v => { v with query := some s }) .query
    (by cases fragment <;> exact hquery) id
    (fun _ _ => rfl) (fun _ _ => rfl) (fun _ => rfl) _ _ ?_
  refine Simulates.bind (copyComponent_simulates _ _) fun path pointer _ => ?_
  rw [← bind_pure (assignSome pointer _)]
  refine assignSome_simulates (fun s v => { v with path := some s }) .path
    (by cases query <;> cases fragment <;> exact hpath) id
    (fun _ _ => rfl) (fun _ _ => rfl) (fun _ => rfl) _ _ ?_
  obtain ⟨isIpv6, hasAuthentication, username, password, scheme, hostname, port, _, _, _⟩ := v
  subst hfragment hquery hpath
  cases fragment <;> cases query <;> cases path <;> exact Simulates.pure fun m hm => hm

/-- **`parse_uri` in memory.** -/
theorem parseUri_simulates (uri : Bytes) :
    Simulates (Parsed k rest {}) (parseUri uri) (Unalix.parseUri {} uri)
      (fun v _ m => Parsed k rest v m) (Owned k rest) := by
  unfold parseUri Unalix.parseUri
  refine Simulates.bind (parseScheme_simulates uri) fun scheme start _ => ?_
  refine Simulates.assume ?_
  rintro rfl
  refine Simulates.bind (parseUserinfo_simulates scheme.1 scheme.2) fun v start _ => ?_
  refine Simulates.assume ?_
  rintro rfl
  refine Simulates.assume fun hnone => ?_
  have hfield (field : Field) (hmem : field ∈ [.hostname, .path, .query, .fragment]) :=
    hnone field hmem
  refine Simulates.bind (parseHost_simulates (hfield .hostname (by decide)) _ _ _ _)
    fun v' _ _ => ?_
  refine Simulates.assume fun hv' => ?_
  refine parseComponents_simulates ?_ ?_ ?_ _ _ _
  · rw [hv']
    exact hfield .fragment (by decide)
  · rw [hv']
    exact hfield .query (by decide)
  · rw [hv']
    exact hfield .path (by decide)

end Parsing

section Spec

variable {k : ℕ} {h : Heap Block} {rest : Multiset (ℕ × Block)}

/-- What is in memory when a function that allocates a result returns: the result and `rest`, and
`rest` alone with an error code. Where the program is at fault nothing is said. -/
def Returned (k : ℕ) (rest : Multiset (ℕ × Block)) (e : Failure) (h : Heap Block) : Prop :=
  ∀ code, e = .code code → Holds k h rest

theorem returned_fault (f : Fault) (h : Heap Block) : Returned k rest (.fault f) h := by
  intro code hcode
  cases hcode

/-- A struct of `v`, with its texts, besides the blocks of `rest`. -/
def HoldsUri (k : ℕ) (rest : Multiset (ℕ × Block)) (v : Unalix.URI) (obj : URI) (h : Heap Block) : Prop :=
  ∃ p : PlacedUri, p.value = v ∧ p.record = obj ∧ Holds k h (p.cells + rest)

/-- **`uri_parse` in memory**, into a zeroed struct: at an error it has freed what it had allocated. -/
theorem uriParse_simulates (uri : Bytes) :
    Simulates (fun h => Holds k h rest) (uriParse {} uri) (Unalix.uriParse {} uri) (HoldsUri k rest)
      (Returned k rest) := by
  intro h hh
  have hparse := @parseUri_simulates k rest uri { heap := h, obj := {} }
    ⟨{}, rfl, rfl, by simpa [PlacedUri.cells, Field.all] using hh⟩
  rw [Unalix.uriParse, uriParse]
  cases hr : Unalix.parseUri {} uri with
  | ok v =>
    rw [hr] at hparse
    obtain ⟨_, m, hrun, p, hp, hobj, hh'⟩ := hparse
    exact ⟨m.obj, m.heap, by rw [hrun], p, hp, hobj.symm, hh'⟩
  | error e =>
    rw [hr] at hparse
    obtain ⟨m, hrun, v, p, -, hobj, hh'⟩ := hparse
    cases e with
    | code code =>
      obtain ⟨h', hfree, hh'⟩ := exists_uriFree hh'
      rw [← hobj] at hfree
      refine ⟨h', ?_, fun _ _ => hh'⟩
      rw [hrun]
      exact run_bind_of_ok hfree _
    | fault f => exact ⟨m.heap, by rw [hrun], returned_fault f m.heap⟩

end Spec

end Unalix.OnHeap
