import Unalix.Ruleset.Installed

/-!
# Updates that fail (`ruleset.c`)

An update that fails should leave the files as they were. Most exits of `ruleset_update` remove the
temporary file; those between the request for the hash and its text do not, and neither does the
last one, after a copy across devices that may have emptied the file in its place.
`unalixRulesetUpdate_restored_iff` says when a failing run restores the files.
-/

namespace Unalix

open Outcome Calls

/-- The file in its place has the content from before the call, and a temporary file that was
opened by the call is gone. -/
def Restored (files : Bytes → Option Bytes) (filename rulesetFile : Bytes) (w : World) : Prop :=
  w.files filename = files filename ∧ (rulesetFile ∈ w.created → w.files rulesetFile = none)

/-- An update cleans up: if the temporary file is opened at all, it can be removed, there is no file
to restore under its own name, the hash is not refused, and no copy fails. -/
def CleansUp {Code : Type} (env : Environment) (libs : Libraries Code) (filename url : Bytes)
    (sha256Url : Option Bytes) (rulesetFile : Bytes) (w : World) : Prop :=
  TemporaryOpened env url w →
    env.disk.unlink = true ∧ (filename = rulesetFile → w.files filename = none) ∧
      ∀ w₁, downloadRules env url rulesetFile w = .ok () w₁ →
        (∀ hashUrl, sha256Url = some hashUrl → ¬ HashRefused env hashUrl w₁) ∧
          ∀ w₂ w₃ w₄, checkHash env libs sha256Url rulesetFile w₁ = .ok () w₂ →
            tryLoad env libs rulesetFile w₂ = .ok () w₃ →
              moveFile env.disk rulesetFile filename w₃ ≠ .ok 0 w₄

section Restored

variable {Code : Type} {env : Environment} {libs : Libraries Code} {files : Bytes → Option Bytes}
  {filename rulesetFile : Bytes} {w : World}

/-- A temporary file that stays is not restored. -/
theorem not_restored_of_present (hpresent : w.files rulesetFile ≠ none)
    (hcreated : rulesetFile ∈ w.created) : ¬ Restored files filename rulesetFile w := by
  intro h
  exact hpresent (h.2 hcreated)

/-- **Removing the temporary file restores** if it works and no other file had its name. -/
theorem restored_unlink_iff (h : Staged files rulesetFile w) :
    Restored files filename rulesetFile (w.unlink env.disk rulesetFile) ↔
      env.disk.unlink = true ∧ (filename = rulesetFile → files filename = none) := by
  unfold World.unlink
  split_ifs with hunlink
  · rw [and_iff_right hunlink]
    have hgone : (w.put rulesetFile none).files rulesetFile = none := World.files_put_self w _ _
    by_cases hname : filename = rulesetFile
    · rw [imp_iff_right hname]
      refine ⟨fun hrestored => ?_, fun hnone => ⟨?_, fun _ => hgone⟩⟩
      · rw [← hrestored.1, hname, hgone]
      · rw [hnone, hname, hgone]
    · refine iff_of_true ⟨?_, fun _ => hgone⟩ fun heq => absurd heq hname
      rw [World.files_put_of_ne hname, h.others filename hname]
  · refine iff_of_false (not_restored_of_present h.present h.created) ?_
    intro hcond
    exact hunlink hcond.1

/-- A failure in the hash check. -/
theorem checkHash_eq_error {sha256Url : Option Bytes} {e : ErrorCode} {w w' : World}
    (h : checkHash env libs sha256Url rulesetFile w = .error (.code e) w')
    (hstaged : Staged files rulesetFile w) (hbody : w.context.response.body = []) :
    ∃ url, sha256Url = some url ∧
      ((HashRefused env url w ∧ Staged files rulesetFile w') ∨
        (¬ HashRefused env url w ∧
          ∃ w₁, Staged files rulesetFile w₁ ∧ w₁.unlink env.disk rulesetFile = w')) := by
  cases sha256Url with
  | none => cases h
  | some url =>
    refine ⟨url, rfl, ?_⟩
    rw [checkHash, run_bind_eq_error] at h
    rcases h with h | ⟨rsha256, w₁, hdownload, h⟩
    · exact downloadHash_eq_error h hstaged
    · right
      obtain ⟨hfiles, hcreated, hrefused, -⟩ := downloadHash_eq_ok hdownload hbody
      have hstaged₁ := hstaged.congr hfiles hcreated
      obtain ⟨w₂, hcompare, hunlink⟩ := removeOnError_eq_error.1 h
      exact ⟨hrefused, w₂, (preserves_compareHash rsha256).error hstaged₁ hcompare, hunlink⟩

/-- **A failing run of `ruleset_update`** restores the files if and only if it cleans up. -/
theorem rulesetUpdate_restored_iff {url temporaryDirectory : Bytes} {sha256Url : Option Bytes}
    {e : ErrorCode} {w' : World}
    (h : rulesetUpdate env libs filename url sha256Url temporaryDirectory w =
      .error (.code e) w') (hcreated : w.created = []) (hbody : w.context.response.body = []) :
    Restored w.files filename (temporaryDirectory ++ rulesetTemporaryFile) w' ↔
      CleansUp env libs filename url sha256Url (temporaryDirectory ++ rulesetTemporaryFile) w := by
  simp only [rulesetUpdate] at h
  generalize temporaryDirectory ++ rulesetTemporaryFile = rulesetFile at h ⊢
  rw [run_bind_eq_error] at h
  rcases h with h | ⟨_, w₁, hdownload, h⟩
  · rcases downloadRules_eq_error h with ⟨hopened, hfiles, hsame⟩ | ⟨hopened, w₁, hstaged, rfl⟩
    · refine iff_of_true ⟨by rw [hfiles], ?_⟩ fun hopen => absurd hopen hopened
      rw [hsame, hcreated]
      exact fun hmem => absurd hmem List.not_mem_nil
    · have hfailed : ∀ w₂, downloadRules env url rulesetFile w ≠ .ok () w₂ := by
        intro w₂ hok
        rw [h] at hok
        cases hok
      rw [restored_unlink_iff hstaged, CleansUp, imp_iff_right hopened]
      refine and_congr_right fun _ => (and_iff_left ?_).symm
      exact fun w₂ hok => absurd hok (hfailed w₂)
  · obtain ⟨hstaged, hopened, -, hfile, hempty⟩ := downloadRules_eq_ok hdownload hbody
    obtain ⟨body, hcontent⟩ := Option.ne_none_iff_exists'.1 hstaged.present
    have hcond : CleansUp env libs filename url sha256Url rulesetFile w ↔
        (env.disk.unlink = true ∧ (filename = rulesetFile → w.files filename = none)) ∧
          (∀ hashUrl, sha256Url = some hashUrl → ¬ HashRefused env hashUrl w₁) ∧
          ∀ w₂ w₃ w₄, checkHash env libs sha256Url rulesetFile w₁ = .ok () w₂ →
            tryLoad env libs rulesetFile w₂ = .ok () w₃ →
              moveFile env.disk rulesetFile filename w₃ ≠ .ok 0 w₄ := by
      rw [CleansUp, imp_iff_right hopened, and_assoc]
      refine and_congr_right fun _ => and_congr_right fun _ => ?_
      refine ⟨fun hall => hall w₁ hdownload, fun hall w₂ hdownload' => ?_⟩
      obtain ⟨-, rfl⟩ := EStateM.Result.ok.inj (hdownload.symm.trans hdownload')
      exact hall
    rw [hcond]
    rw [run_bind_eq_error] at h
    rcases h with h | ⟨_, w₂, hcheck, h⟩
    · have hfailed : ∀ w₂, checkHash env libs sha256Url rulesetFile w₁ ≠ .ok () w₂ := by
        intro w₂ hok
        rw [h] at hok
        cases hok
      obtain ⟨hashUrl, hurl, hend⟩ := checkHash_eq_error h hstaged hempty
      rcases hend with ⟨hrefused, hstays⟩ | ⟨hserved, w₂, hstays, rfl⟩
      · refine iff_of_false (not_restored_of_present hstays.present hstays.created) ?_
        exact fun hall => hall.2.1 hashUrl hurl hrefused
      · rw [restored_unlink_iff hstays]
        refine (and_iff_left ⟨?_, fun w₂ _ _ hok => absurd hok (hfailed w₂)⟩).symm
        intro url' hurl'
        rw [hurl] at hurl'
        rwa [← Option.some.inj hurl']
    · obtain ⟨hfiles, hsame, hserved, -⟩ := checkHash_eq_ok hcheck hempty hcontent
      have hstaged₂ := hstaged.congr hfiles hsame
      rw [run_bind_eq_error] at h
      rcases h with h | ⟨_, w₃, hload, h⟩
      · obtain ⟨w₃, hload, rfl⟩ := removeOnError_eq_error.1 h
        rw [restored_unlink_iff (preserves_tryLoad.error hstaged₂ hload)]
        refine (and_iff_left ⟨hserved, fun w₂' w₃' _ hcheck' hload' => ?_⟩).symm
        obtain ⟨-, rfl⟩ := EStateM.Result.ok.inj (hcheck.symm.trans hcheck')
        rw [hload] at hload'
        cases hload'
      · rw [removeOnError_eq_ok] at hload
        have hcontent₂ : w₂.files rulesetFile = some body := by rw [hfiles, hcontent]
        obtain ⟨-, rfl⟩ := tryLoad_eq_ok hload hcontent₂
        rw [installRules, run_bind_eq_error] at h
        rcases h with h | ⟨code, w₄, hmove, h⟩
        · exact absurd h (neverFails_moveFile _ _ _ _ _)
        · obtain ⟨hzero, -, rfl⟩ := require_eq_error.1 h
          have hcode : code = 0 := by simpa using hzero
          rw [hcode] at hmove
          refine iff_of_false ?_ fun hall => hall.2.2 _ _ _ hcheck hload hmove
          cases moved_of_eq_ok hcontent₂ hmove with
          | notCopied hne hdisk hstays hsub =>
            apply not_restored_of_present
            · rw [hstays]
              exact Option.some_ne_none body
            · exact hsub hstaged₂.created

end Restored

/-- **A failing update restores the files** if and only if it cleans up. -/
theorem unalixRulesetUpdate_restored_iff {Code : Type} {env : Environment}
    {libs : Libraries Code} {filename url sha256Url temporaryDirectory : Option Bytes}
    {files : Bytes → Option Bytes} {e : ErrorCode} {w : World}
    (h : unalixRulesetUpdate env libs filename url sha256Url temporaryDirectory files =
      .error (.code e) w) :
    (∀ f d, filename = some f → temporaryDirectory = some d →
        Restored files f (d ++ rulesetTemporaryFile) w) ↔
      ∀ f u d, ValidArgument filename f → ValidArgument url u →
        ValidArgument temporaryDirectory d →
          CleansUp env libs f u sha256Url (d ++ rulesetTemporaryFile)
            { files := files, context := updateContext } := by
  have hinvalid (hw : { files := files, context := updateContext } = w) (f d : Bytes) :
      Restored files f (d ++ rulesetTemporaryFile) w := by
    rw [← hw]
    exact ⟨rfl, fun hmem => absurd hmem List.not_mem_nil⟩
  unfold unalixRulesetUpdate at h
  rcases requireArgument_cases filename with ⟨f, hf, heq⟩ | ⟨hnot, heq⟩
  · rcases requireArgument_cases url with ⟨u, hu, heq'⟩ | ⟨hnot, heq'⟩
    · rcases requireArgument_cases temporaryDirectory with ⟨d, hd, heq''⟩ | ⟨hnot, heq''⟩
      · rw [heq, heq', heq''] at h
        obtain ⟨w₁, hupdate, rfl⟩ := thenFree_eq_error.1 h
        have hiff := rulesetUpdate_restored_iff hupdate rfl rfl
        refine ⟨fun hall f' u' d' hf' hu' hd' => ?_, fun hall f' d' hf' hd' => ?_⟩
        · rw [← hf.eq hf'.1, ← hu.eq hu'.1, ← hd.eq hd'.1]
          exact hiff.1 (hall f d hf.1 hd.1)
        · rw [← hf.eq hf', ← hd.eq hd']
          exact hiff.2 (hall f u d hf hu hd)
      · rw [heq, heq', heq''] at h
        refine iff_of_true (fun f d _ _ => hinvalid (EStateM.Result.error.inj h).2 f d) ?_
        exact fun _ _ d _ _ hd => absurd hd (hnot d)
    · rw [heq, heq'] at h
      refine iff_of_true (fun f d _ _ => hinvalid (EStateM.Result.error.inj h).2 f d) ?_
      exact fun _ u _ _ hu => absurd hu (hnot u)
  · rw [heq] at h
    refine iff_of_true (fun f d _ _ => hinvalid (EStateM.Result.error.inj h).2 f d) ?_
    exact fun f _ _ hf => absurd hf (hnot f)

/-! ## Examples -/

/-- A server for rules that do not parse, or for rules without a hash. -/
def failingExample (rules : Bytes) : Environment where
  exchange := { incoming :=
    [.chunk (str "HTTP/1.0 200 OK\r\nServer: x\r\n\r\n" ++ rules)] }
  hashExchange := { incoming :=
    [.chunk (str "HTTP/1.0 404 Not Found\r\nServer: x\r\n\r\n")] }

/-- An update in an empty file system. -/
def failingRun (rules : Bytes) (sha256Url : Option Bytes) : EStateM.Result Failure World Unit :=
  unalixRulesetUpdate (failingExample rules) librariesExample (some (str "rules.json"))
    (some (str "http://example.com/rules")) sha256Url (some (str "/tmp/")) fun _ => none

/-- The code of a run that fails, and the content of its temporary file. -/
def failureOf (result : EStateM.Result Failure World Unit) : Option (ErrorCode × Option Bytes) :=
  match result with
  | .error (.code e) w => some (e, w.files (str "/tmp/ruleset.json"))
  | _ => none

theorem exists_of_failureOf {result : EStateM.Result Failure World Unit} {e : ErrorCode}
    {content : Option Bytes} (h : failureOf result = some (e, content)) :
    ∃ w, result = .error (.code e) w ∧ w.files (str "/tmp/ruleset.json") = content := by
  rcases result with _ | ⟨e' | _, w⟩
  · cases h
  · obtain ⟨rfl, rfl⟩ := Prod.mk.inj (Option.some.inj h)
    exact ⟨w, rfl, rfl⟩
  · cases h

/-- An update with rules that do not parse. -/
theorem unalixRulesetUpdate_restored_unparsed :
    ∃ w, failingRun (str "?") none = .error (.code .jsonCannotParse) w ∧
      ((∀ f d, some (str "rules.json") = some f → some (str "/tmp/") = some d →
          Restored (fun _ => none) f (d ++ rulesetTemporaryFile) w) ↔
        ∀ f u d, ValidArgument (some (str "rules.json")) f →
          ValidArgument (some (str "http://example.com/rules")) u →
          ValidArgument (some (str "/tmp/")) d →
            CleansUp (failingExample (str "?")) librariesExample f u none
              (d ++ rulesetTemporaryFile) { files := fun _ => none, context := updateContext }) := by
  have hrun : failureOf (failingRun (str "?") none) = some (.jsonCannotParse, none) := by
    decide +kernel
  obtain ⟨w, hw, -⟩ := exists_of_failureOf hrun
  exact ⟨w, hw, unalixRulesetUpdate_restored_iff hw⟩

/-- An update whose hash is not found leaves the temporary file. -/
theorem not_restored_hashNotFound :
    ∃ w, failingRun emptyRulesText (some (str "http://example.com/hash")) =
        .error (.code .httpBadStatusCode) w ∧
      w.files (str "/tmp/ruleset.json") = some emptyRulesText := by
  have hrun : failureOf (failingRun emptyRulesText (some (str "http://example.com/hash"))) =
      some (.httpBadStatusCode, some emptyRulesText) := by
    decide +kernel
  exact exists_of_failureOf hrun

end Unalix
