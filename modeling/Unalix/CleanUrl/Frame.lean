import Unalix.Uri.Reading
import Unalix.CleanUrl.Clean

/-!
# Cleaning only deletes

The providers strip three fields of the parsed URI and leave the others alone. Each of their
patterns takes matches out of a field, or makes it null when nothing is left. So after any number
of providers the path, the query and the fragment are null or what is left of them, and no field
is an empty string (`strippedUri_onlyDeletes`).
-/

namespace Unalix

variable {Code : Type} {pcre : Pcre Code}

/-! ## One field -/

/-- A field that is null or has a text. -/
def NotEmpty (field : Option Bytes) : Prop := ∀ s ∈ field, s ≠ []

/-- Characters of the field are deleted: it is null, or a non-empty subsequence of what it was. -/
def Deleted (field field' : Option Bytes) : Prop :=
  ∀ t ∈ field', t ≠ [] ∧ ∃ s ∈ field, t.Sublist s

theorem Deleted.notEmpty {field field' : Option Bytes} (h : Deleted field field') :
    NotEmpty field' := fun t ht => (h t ht).1

theorem NotEmpty.deleted {field : Option Bytes} (h : NotEmpty field) : Deleted field field :=
  fun s hs => ⟨h s hs, s, hs, List.Sublist.refl s⟩

theorem deleted_none (field : Option Bytes) : Deleted field none := nofun

theorem Deleted.trans {field field' field'' : Option Bytes} (h : Deleted field field')
    (h' : Deleted field' field'') : Deleted field field'' := by
  intro u hu
  obtain ⟨hne, t, ht, hut⟩ := h' u hu
  obtain ⟨-, s, hs, hts⟩ := h t ht
  exact ⟨hne, s, hs, hut.trans hts⟩

/-- A pattern leaves no empty text, whatever is deleted. -/
theorem regexStrip_notEmpty (pattern : Code) {destination : Bytes} (hne : destination ≠ []) :
    NotEmpty (regexStrip pcre pattern destination) := by
  intro output hstrip
  rcases regexStrip_cases pcre pattern destination with heq | heq | ⟨text, heq, htext, -⟩
  · rw [heq] at hstrip
    exact Option.some.inj hstrip ▸ hne
  · rw [heq] at hstrip
    cases hstrip
  · rw [heq] at hstrip
    exact Option.some.inj hstrip ▸ htext

theorem stripItems_notEmpty (items : List Code) {destination : Bytes} (hne : destination ≠ []) :
    NotEmpty (stripItems pcre items destination) := by
  induction items generalizing destination with
  | nil =>
    intro output hstrip
    exact Option.some.inj hstrip ▸ hne
  | cons pattern items ih =>
    have hstep := @regexStrip_notEmpty _ pcre pattern destination hne
    rw [stripItems]
    cases hstrip : regexStrip pcre pattern destination with
    | none => nofun
    | some output => exact ih (hstep output hstrip)

/-- One pattern. -/
theorem regexStrip_deleted (hpcre : pcre.Deletes) (pattern : Code) {destination : Bytes}
    (hne : destination ≠ []) : Deleted (some destination) (regexStrip pcre pattern destination) := by
  intro output hstrip
  obtain ⟨hout, hsub⟩ := regexStrip_sublist hpcre hne hstrip
  exact ⟨hout, destination, rfl, hsub⟩

/-- A list of patterns. -/
theorem stripItems_deleted (hpcre : pcre.Deletes) (items : List Code) {destination : Bytes}
    (hne : destination ≠ []) : Deleted (some destination) (stripItems pcre items destination) := by
  induction items generalizing destination with
  | nil =>
    have hfield : NotEmpty (some destination) := by
      intro s hs
      cases hs
      exact hne
    exact hfield.deleted
  | cons pattern items ih =>
    have hstep := regexStrip_deleted hpcre pattern hne
    rw [stripItems]
    cases hstrip : regexStrip pcre pattern destination with
    | none => exact deleted_none _
    | some output =>
      rw [hstrip] at hstep
      exact hstep.trans (ih (hstep.notEmpty output rfl))

theorem stripField_deleted (hpcre : pcre.Deletes) (ignore : ℤ) (items : List Code)
    {field : Option Bytes} (h : NotEmpty field) :
    Deleted field (stripField pcre ignore items field) := by
  cases field with
  | none => exact deleted_none _
  | some destination =>
    rw [stripField]
    split
    · exact stripItems_deleted hpcre items (h destination rfl)
    · exact h.deleted

/-! ## The URI -/

/-- What stripping does to a URI: three fields are shortened, the others are as they were. -/
structure OnlyDeletes (uri uri' : URI) : Prop where
  scheme : uri'.scheme = uri.scheme
  hasAuthentication : uri'.hasAuthentication = uri.hasAuthentication
  username : uri'.username = uri.username
  password : uri'.password = uri.password
  hostname : uri'.hostname = uri.hostname
  isIpv6 : uri'.isIpv6 = uri.isIpv6
  port : uri'.port = uri.port
  path : Deleted uri.path uri'.path
  query : Deleted uri.query uri'.query
  fragment : Deleted uri.fragment uri'.fragment

/-- The three fields that are stripped are not empty strings. -/
structure FieldsNotEmpty (uri : URI) : Prop where
  path : NotEmpty uri.path
  query : NotEmpty uri.query
  fragment : NotEmpty uri.fragment

theorem OnlyDeletes.fieldsNotEmpty {uri uri' : URI} (h : OnlyDeletes uri uri') :
    FieldsNotEmpty uri' :=
  ⟨h.path.notEmpty, h.query.notEmpty, h.fragment.notEmpty⟩

theorem OnlyDeletes.refl {uri : URI} (h : FieldsNotEmpty uri) : OnlyDeletes uri uri :=
  ⟨rfl, rfl, rfl, rfl, rfl, rfl, rfl, h.path.deleted, h.query.deleted, h.fragment.deleted⟩

theorem OnlyDeletes.trans {uri uri' uri'' : URI} (h : OnlyDeletes uri uri')
    (h' : OnlyDeletes uri' uri'') : OnlyDeletes uri uri'' where
  scheme := h'.scheme.trans h.scheme
  hasAuthentication := h'.hasAuthentication.trans h.hasAuthentication
  username := h'.username.trans h.username
  password := h'.password.trans h.password
  hostname := h'.hostname.trans h.hostname
  isIpv6 := h'.isIpv6.trans h.isIpv6
  port := h'.port.trans h.port
  path := h.path.trans h'.path
  query := h.query.trans h'.query
  fragment := h.fragment.trans h'.fragment

/-- A parsed URI has no empty component. -/
theorem fieldsNotEmpty_of_uriParse {sourceUrl : Bytes} {uri : URI}
    (h : uriParse {} sourceUrl = .ok uri) : FieldsNotEmpty uri := by
  obtain ⟨R, -, rfl⟩ := uriParse_eq_ok_iff.1 h
  exact ⟨fun s hs => ne_nil_of_mem_nonempty hs, fun s hs => ne_nil_of_mem_nonempty hs,
    fun s hs => ne_nil_of_mem_nonempty hs⟩

/-- One provider. -/
theorem stripRuleset_onlyDeletes (hpcre : pcre.Deletes) (flags : Flags) {uri : URI}
    (h : FieldsNotEmpty uri) (ruleset : Ruleset Code) :
    OnlyDeletes uri (stripRuleset pcre flags uri ruleset) := by
  have hrules {field : Option Bytes} (hfield : NotEmpty field) :
      Deleted field (stripField pcre flags.ignoreReferralMarketing ruleset.referralMarketing
        (stripField pcre flags.ignoreRules ruleset.rules field)) := by
    have hfirst := stripField_deleted hpcre flags.ignoreRules ruleset.rules hfield
    exact hfirst.trans (stripField_deleted hpcre flags.ignoreReferralMarketing _ hfirst.notEmpty)
  exact ⟨rfl, rfl, rfl, rfl, rfl, rfl, rfl,
    stripField_deleted hpcre flags.ignoreRawRules ruleset.rawRules h.path,
    hrules h.query, hrules h.fragment⟩

/-- The providers in their order. -/
theorem foldl_stripRuleset_onlyDeletes (hpcre : pcre.Deletes) (flags : Flags)
    (rulesets : List (Ruleset Code)) {uri : URI} (h : FieldsNotEmpty uri) :
    OnlyDeletes uri (rulesets.foldl (stripRuleset pcre flags) uri) := by
  induction rulesets generalizing uri with
  | nil => exact OnlyDeletes.refl h
  | cons ruleset rulesets ih =>
    have hstep := stripRuleset_onlyDeletes hpcre flags h ruleset
    exact hstep.trans (ih hstep.fieldsNotEmpty)

theorem strippedUri_onlyDeletes (hpcre : pcre.Deletes) (flags : Flags) (subject : Bytes)
    (rulesets : List (Ruleset Code)) {uri : URI} (h : FieldsNotEmpty uri) :
    OnlyDeletes uri (strippedUri pcre flags subject rulesets uri) :=
  foldl_stripRuleset_onlyDeletes hpcre flags _ h

/-! ## The call -/

/-- The URI that is printed: the query of the stripped one is written again. -/
def printedUri (pcre : Pcre Code) (flags : Flags) (subject : Bytes) (rulesets : List (Ruleset Code))
    (uri : URI) : URI :=
  let stripped := strippedUri pcre flags subject rulesets uri
  { stripped with query := rebuildQuery flags stripped.query }

/-- A call without a redirection cleans the URL at once. -/
theorem cleanStep_of_firstRedirection {rulesets : Rulesets Code} {flags : Flags}
    {sourceUrl : Bytes} {uri : URI} (hparse : uriParse {} sourceUrl = .ok uri)
    (hstore : ¬ rulesets.offset < 1)
    (hnone : firstRedirection pcre flags sourceUrl rulesets.items = none) :
    cleanStep pcre rulesets ⟨some sourceUrl, flags⟩ =
      .inr (.ok (uriStringify (printedUri pcre flags sourceUrl rulesets.items uri))) := by
  cases sourceUrl with
  | nil => cases hparse
  | cons c sourceUrl =>
    simp only [cleanStep, if_neg hstore, hparse, cleanRulesets_eq, hnone]
    rfl

/-- With an empty store no call succeeds. -/
theorem cleanStep_of_empty {rulesets : Rulesets Code} {flags : Flags} (sourceUrl : Option Bytes)
    (hstore : rulesets.offset < 1) :
    ∃ e, cleanStep pcre rulesets ⟨sourceUrl, flags⟩ = .inr (fail e) := by
  rcases sourceUrl with _ | _ | ⟨c, sourceUrl⟩
  · exact ⟨_, rfl⟩
  · exact ⟨_, rfl⟩
  · refine ⟨.rulesetsEmpty, ?_⟩
    simp only [cleanStep, if_pos hstore]

/-- **Cleaning only deletes**: when no redirection fires, the URI that is printed has the scheme,
the credentials, the host and the port of the parsed one, its path and its fragment are what is
left of the parsed ones, and so is the query before it is written again. -/
theorem cleaning_only_deletes (hpcre : pcre.Deletes) (rulesets : Rulesets Code) (flags : Flags)
    {sourceUrl target : Bytes} {uri : URI} {fuel : ℕ}
    (hparse : uriParse {} sourceUrl = .ok uri)
    (hnone : firstRedirection pcre flags sourceUrl rulesets.items = none)
    (hok : unalixCleanUrl pcre rulesets fuel (some sourceUrl) flags = some (.ok target)) :
    OnlyDeletes uri (strippedUri pcre flags sourceUrl rulesets.items uri) ∧
      target = uriStringify (printedUri pcre flags sourceUrl rulesets.items uri) := by
  refine ⟨strippedUri_onlyDeletes hpcre flags sourceUrl _ (fieldsNotEmpty_of_uriParse hparse), ?_⟩
  cases fuel with
  | zero => cases hok
  | succ fuel =>
    by_cases hstore : rulesets.offset < 1
    · obtain ⟨e, hstep⟩ := @cleanStep_of_empty Code pcre _ flags (some sourceUrl) hstore
      rw [unalixCleanUrl, Chains.follow_succ_of_inr hstep] at hok
      cases hok
    · have hstep := cleanStep_of_firstRedirection hparse hstore hnone
      rw [unalixCleanUrl, Chains.follow_succ_of_inr hstep] at hok
      simpa using hok.symm

/-- A rule is deleted from the query and from the fragment. -/
theorem cleaning_only_deletes_utm :
    let sourceUrl := str "http://a.com/?b=1&utm=1#utm=1c"
    let uri : URI :=
      { scheme := some (str "http"), hostname := some (str "a.com")
        query := some (str "b=1&utm=1"), fragment := some (str "utm=1c") }
    let rulesets : Rulesets Pattern :=
      ⟨88, [⟨.literal (str "http"), [.literal (str "utm=1")], [], [], [], []⟩]⟩
    OnlyDeletes uri (strippedUri Pattern.pcre {} sourceUrl rulesets.items uri) ∧
      str "http://a.com/?b=1&=#c" =
        uriStringify (printedUri Pattern.pcre {} sourceUrl rulesets.items uri) := by
  intro sourceUrl uri rulesets
  have hparse : uriParse {} sourceUrl = .ok uri := by decide +kernel
  have hok : unalixCleanUrl Pattern.pcre rulesets 1 (some sourceUrl) {} =
      some (.ok (str "http://a.com/?b=1&=#c")) := by
    decide +kernel
  exact cleaning_only_deletes Pattern.pcre_deletes rulesets {} hparse rfl hok

end Unalix
