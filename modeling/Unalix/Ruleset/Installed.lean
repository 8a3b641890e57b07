import Unalix.Ruleset.Update

/-!
# Updates that succeed (`ruleset.c`)

When `unalix_ruleset_update` returns success, the body of the response has been downloaded, compared
with the hash and loaded on trial. Whether it is also in its place depends on the move, whose result
is tested against zero: an error of `rename` other than `EXDEV` passes for success, and so does a
copy whose source could not be read to the end. And nothing tests the result of `fclose`, so that a
file whose last bytes were lost there passes too (`unalixRulesetUpdate_installed_iff`).
-/

namespace Unalix

open Ascii Outcome Calls

/-! ## Hexadecimal texts -/

theorem isupper_toHex {ch : UInt8} (h : ch ≤ 15) : isupper (toHex ch) = false := by
  simp only [toHex, isupper, Bool.and_eq_false_iff]
  split_ifs with h9
  · grind
  · grind

theorem nibble_low (ch : UInt8) : ch &&& 0x0F ≤ 15 := by
  rw [UInt8.le_iff_toNat_le, UInt8.toNat_and]
  exact Nat.and_le_right

theorem nibble_high (ch : UInt8) : (ch &&& 0xF0) >>> 4 ≤ 15 := by
  rw [UInt8.le_iff_toNat_le, UInt8.toNat_shiftRight, UInt8.toNat_and]
  have hle : ch.toNat &&& (0xF0 : UInt8).toNat ≤ 240 := Nat.and_le_right
  change (ch.toNat &&& (0xF0 : UInt8).toNat) >>> 4 ≤ 15
  rw [Nat.shiftRight_eq_div_pow]
  omega

theorem isupper_hexText (digest : Bytes) : ∀ c ∈ hexText digest, isupper c = false := by
  intro c hc
  obtain ⟨ch, -, hc⟩ := List.mem_flatMap.1 hc
  rcases List.mem_pair.1 hc with rfl | rfl
  · exact isupper_toHex (nibble_high ch)
  · exact isupper_toHex (nibble_low ch)

theorem lower_of_lowerHex {ch : UInt8} (h : isupper (lowerHex ch) = false) :
    lower ch = lowerHex ch := by
  simp only [lowerHex, lower, isupper] at *
  grind

/-- A text that is normalised to a digest is that digest, up to capital letters. -/
theorem map_lower_of_map_lowerHex {s digest : Bytes} (h : s.map lowerHex = hexText digest) :
    s.map lower = hexText digest := by
  rw [← h]
  apply List.map_congr_left
  intro c hc
  apply lower_of_lowerHex
  apply isupper_hexText digest
  rw [← h]
  exact List.mem_map_of_mem hc

/-! ## Success -/

section Installed

variable {Code : Type} (env : Environment) (libs : Libraries Code)

/-- Rules that load, and that have the hash that is served for them. -/
def Passes (sha256Url : Option Bytes) (body : Bytes) : Prop :=
  Succeeds (loadParsed libs.compile libs.jsonLoads body {}).1 ∧
    ∀ url, sha256Url = some url → ∃ hash, env.hashExchange.statusCode = statusOk ∧
      env.hashExchange.body = some hash ∧
      (hash.take sha256DigestSize).map lower = hexText (libs.sha256 body)

/-- What success of an update says: the file holds the body of the response, which passes. -/
def Installed (filename : Bytes) (sha256Url : Option Bytes) (w : World) : Prop :=
  ∃ body, env.exchange.statusCode = statusOk ∧ env.exchange.body = some body ∧
    w.files filename = some body ∧ Passes env libs sha256Url body

/-- The body gets into its place. Either all of it is in the temporary file when that is closed, and
the two are one file, or it is renamed, or it is read, written and closed as a whole by the copy. Or
`rename` fails with another error, and the place holds a body that passes already. -/
def MoveInstalls (filename : Bytes) (sha256Url : Option Bytes) (rulesetFile : Bytes)
    (files : Bytes → Option Bytes) : Prop :=
  ∃ body, env.exchange.body = some body ∧
    ((upTo env.disk.temporaryKept body = body ∧
        (rulesetFile = filename ∨ env.disk.rename = .done ∨
          (env.disk.rename = .crossDevice ∧ upTo env.disk.sourceLimit body = body ∧
            upTo env.disk.destinationKept body = body))) ∨
      (rulesetFile ≠ filename ∧ env.disk.rename = .failed ∧ files filename = some body ∧
        Passes env libs sha256Url body))

variable {env libs}

theorem checkHash_eq_ok {sha256Url : Option Bytes} {rulesetFile content : Bytes} {w w' : World}
    (h : checkHash env libs sha256Url rulesetFile w = .ok () w')
    (hbody : w.context.response.body = []) (hfile : w.files rulesetFile = some content) :
    w'.files = w.files ∧ w'.created = w.created ∧
      (∀ url, sha256Url = some url → ¬ HashRefused env url w) ∧
      ∀ url, sha256Url = some url → ∃ hash, env.hashExchange.statusCode = statusOk ∧
        env.hashExchange.body = some hash ∧
        (hash.take sha256DigestSize).map lower = hexText (libs.sha256 content) := by
  cases sha256Url with
  | none =>
    obtain ⟨-, rfl⟩ := run_pure_eq_ok.1 h
    exact ⟨rfl, rfl, nofun, nofun⟩
  | some url =>
    rw [checkHash, run_bind_eq_ok] at h
    obtain ⟨rsha256, w₁, hdownload, h⟩ := h
    obtain ⟨hfiles, hcreated, hrefused, hstatus, hash, hserved, hsha⟩ :=
      downloadHash_eq_ok hdownload hbody
    rw [removeOnError_eq_ok] at h
    rw [← hfiles] at hfile
    obtain ⟨heq, rfl⟩ := compareHash_eq_ok h hfile
    refine ⟨hfiles, hcreated, ?_, ?_⟩
    · intro url' hurl
      rwa [← Option.some.inj hurl]
    · intro url' _
      exact ⟨hash, hstatus, hserved, map_lower_of_map_lowerHex (hsha.symm.trans heq)⟩

theorem requireArgument_eq_ok {argument s : Bytes} {w w' : World}
    (h : requireArgument (some argument) w = .ok s w') : argument = s ∧ w' = w := by
  unfold requireArgument at h
  cases argument with
  | nil => exact absurd h run_throw_ne_ok
  | cons c argument =>
    obtain ⟨rfl, rfl⟩ := run_pure_eq_ok.1 h
    exact ⟨rfl, rfl⟩

/-- **The steps of an update that moves the file**: the world before the move, where the temporary
file holds what `fclose` has kept of the body. -/
theorem exists_before_move {url : Bytes} {sha256Url : Option Bytes}
    {rulesetFile : Bytes} {w w₁ w₂ w₃ : World} (hcontext : w.context.response.body = [])
    (hdownload : downloadRules env url rulesetFile w = .ok () w₁)
    (hcheck : checkHash env libs sha256Url rulesetFile w₁ = .ok () w₂)
    (hload : tryLoad env libs rulesetFile w₂ = .ok () w₃) :
    ∃ body, env.exchange.statusCode = statusOk ∧ env.exchange.body = some body ∧
      w₃.files rulesetFile = some (upTo env.disk.temporaryKept body) ∧
      Staged w.files rulesetFile w₃ ∧
      Passes env libs sha256Url (upTo env.disk.temporaryKept body) := by
  obtain ⟨hstaged, -, hstatus, hfile, hempty⟩ := downloadRules_eq_ok hdownload hcontext
  obtain ⟨content, hcontent⟩ := Option.ne_none_iff_exists'.1 hstaged.present
  obtain ⟨body, hbody, rfl⟩ := Option.map_eq_some_iff.1 (hfile.symm.trans hcontent)
  obtain ⟨hfiles, hcreated, -, hverified⟩ := checkHash_eq_ok hcheck hempty hcontent
  have hcontent₂ : w₂.files rulesetFile = some (upTo env.disk.temporaryKept body) := by
    rw [hfiles, hcontent]
  obtain ⟨hloads, rfl⟩ := tryLoad_eq_ok hload hcontent₂
  exact ⟨body, hstatus, hbody, hcontent₂, hstaged.congr hfiles hcreated, hloads, hverified⟩

end Installed

/-- **Success of an update means that the rules are installed and verified** if and only if the
move puts the file into its place. -/
theorem unalixRulesetUpdate_installed_iff {Code : Type} {env : Environment}
    {libs : Libraries Code} {filename url temporaryDirectory : Bytes} {sha256Url : Option Bytes}
    {files : Bytes → Option Bytes} {w : World}
    (h : unalixRulesetUpdate env libs (some filename) (some url) sha256Url
      (some temporaryDirectory) files = .ok () w) :
    Installed env libs filename sha256Url w ↔
      MoveInstalls env libs filename sha256Url (temporaryDirectory ++ rulesetTemporaryFile)
        files := by
  simp only [unalixRulesetUpdate, run_bind_eq_ok] at h
  obtain ⟨_, _, hf, _, _, hu, _, _, hd, h⟩ := h
  obtain ⟨rfl, rfl⟩ := requireArgument_eq_ok hf
  obtain ⟨rfl, rfl⟩ := requireArgument_eq_ok hu
  obtain ⟨rfl, rfl⟩ := requireArgument_eq_ok hd
  obtain ⟨w₄, hupdate, rfl⟩ := thenFree_eq_ok.1 h
  simp only [rulesetUpdate, run_bind_eq_ok] at hupdate
  obtain ⟨_, w₁, hdownload, _, w₂, hcheck, _, w₃, hload, hinstall⟩ := hupdate
  rw [removeOnError_eq_ok] at hload
  obtain ⟨body, hstatus, hbody, hfile, hstaged, hpasses⟩ :=
    exists_before_move rfl hdownload hcheck hload
  -- what is in the place decides: where it is the body, the temporary file was the body or the
  -- place held it before
  have hinstalled {w' : World} : Installed env libs filename sha256Url w' ↔
      w'.files filename = some body ∧ Passes env libs sha256Url body := by
    constructor
    · rintro ⟨body', -, hbody', hfile', hpasses'⟩
      obtain rfl := Option.some.inj (hbody.symm.trans hbody')
      exact ⟨hfile', hpasses'⟩
    · rintro ⟨hfile', hpasses'⟩
      exact ⟨body, hstatus, hbody, hfile', hpasses'⟩
  have hwhole (h : upTo env.disk.temporaryKept body = body) : Passes env libs sha256Url body := by
    rwa [h] at hpasses
  rw [hinstalled]
  simp only [MoveInstalls, hbody, Option.some.injEq, exists_eq_left']
  simp only [installRules, run_bind_eq_ok, require_eq_ok] at hinstall
  obtain ⟨code, w₅, hmove, hcode, rfl⟩ := hinstall
  cases moved_of_eq_ok hfile hmove with
  | same hsame =>
    have hplace : w₃.freeContext.files filename = some (upTo env.disk.temporaryKept body) := by
      rw [← hsame]
      exact hfile
    rw [hplace, Option.some.injEq]
    simp only [hsame, ne_eq, not_true_eq_false, false_and, true_or, and_true, or_false]
    exact and_iff_left_of_imp hwhole
  | renamed hne hdisk hplace =>
    have hplace' : w₅.freeContext.files filename = some (upTo env.disk.temporaryKept body) := hplace
    rw [hplace', Option.some.injEq]
    simp only [hdisk, or_true, and_true, reduceCtorEq, false_and, and_false, or_false]
    exact and_iff_left_of_imp hwhole
  | copied hne hdisk hplace =>
    have hplace' : w₅.freeContext.files filename = some (upTo env.disk.destinationKept
        (upTo env.disk.sourceLimit (upTo env.disk.temporaryKept body))) := hplace
    rw [hplace', Option.some.injEq,
      upTo_eq_iff ((isPrefix_upTo _ _).trans (isPrefix_upTo _ _)),
      upTo_eq_iff (isPrefix_upTo _ _)]
    simp only [hne, hdisk, reduceCtorEq, false_and, and_false, true_and, false_or, or_false,
      and_assoc]
    exact ⟨fun h => ⟨h.1, h.2.1, h.2.2.1⟩, fun h => ⟨h.1, h.2.1, h.2.2, hwhole h.1⟩⟩
  | notCopied hne hdisk _ _ => cases hcode
  | notRenamed hne hdisk =>
    have hplace : w₃.freeContext.files filename = files filename :=
      hstaged.others filename fun heq => hne heq.symm
    rw [hplace]
    simp [hne, hdisk]

/-! ## Examples -/

/-- Rules without providers. -/
def emptyRulesText : Bytes := str "\x7b\"providers\":\x7b\x7d\x7d"

/-- A server that serves them, and a file system on which `rename` has this result. -/
def updateExample (rename : RenameResult) : Environment where
  exchange := { incoming :=
    [.chunk (str "HTTP/1.0 200 OK\r\nServer: x\r\n\r\n" ++ emptyRulesText)] }
  disk := { rename := rename }

def librariesExample : Libraries Bytes where
  compile := some
  jsonLoads s := if s = emptyRulesText then some (.object [(providersKey, .object [])]) else none
  sha256 _ := List.replicate 32 0

/-- An update of a file `rules.json` with other rules in it, without a hash. -/
def runExample (rename : RenameResult) : EStateM.Result Failure World Unit :=
  unalixRulesetUpdate (updateExample rename) librariesExample (some (str "rules.json"))
    (some (str "http://example.com/rules")) none (some (str "/tmp/"))
    fun path => if path = str "rules.json" then some (str "old") else none

/-- The content of `rules.json` after a run that succeeds. -/
def rulesAfter (result : EStateM.Result Failure World Unit) : Option Bytes :=
  match result with
  | .ok _ w => w.files (str "rules.json")
  | .error _ _ => none

theorem exists_of_rulesAfter {result : EStateM.Result Failure World Unit} {content : Bytes}
    (h : rulesAfter result = some content) :
    ∃ w, result = .ok () w ∧ w.files (str "rules.json") = some content := by
  cases result with
  | ok u w => exact ⟨w, rfl, h⟩
  | error e w => cases h

/-- An update whose file is renamed. -/
theorem unalixRulesetUpdate_installed_renamed : ∃ w, runExample .done = .ok () w ∧
    (Installed (updateExample .done) librariesExample (str "rules.json") none w ↔
      MoveInstalls (updateExample .done) librariesExample (str "rules.json") none
        (str "/tmp/" ++ rulesetTemporaryFile)
        fun path => if path = str "rules.json" then some (str "old") else none) := by
  have hrun : rulesAfter (runExample .done) = some emptyRulesText := by decide +kernel
  obtain ⟨w, hw, -⟩ := exists_of_rulesAfter hrun
  exact ⟨w, hw, unalixRulesetUpdate_installed_iff hw⟩

/-- An update whose file cannot be renamed succeeds, and the old rules stay. -/
theorem not_installed_notRenamed : ∃ w, runExample .failed = .ok () w ∧
    ¬ Installed (updateExample .failed) librariesExample (str "rules.json") none w := by
  have hrun : rulesAfter (runExample .failed) = some (str "old") := by decide +kernel
  obtain ⟨w, hw, hold⟩ := exists_of_rulesAfter hrun
  refine ⟨w, hw, ?_⟩
  rintro ⟨body, -, hbody, hfile, -⟩
  have hserved : (updateExample .failed).exchange.body = some emptyRulesText := by decide +kernel
  rw [hserved] at hbody
  rw [hold, ← Option.some.inj hbody] at hfile
  exact absurd (Option.some.inj hfile) (by decide +kernel)

end Unalix
