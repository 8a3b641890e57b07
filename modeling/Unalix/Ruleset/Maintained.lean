import Unalix.Ruleset.Installed
import Unalix.Ruleset.Sessions

/-!
# Rules that are kept by updates (`ruleset.c`, `utils.c`)

A program that keeps its rules by `unalix_ruleset_update` calls it again and again, and a call may
fail or crash at any of its steps. As long as a move across devices reads, writes and closes the
whole file, the file in its place holds after each call what it held before, or what was kept of the
body of a response, verified and loaded on trial (`afterUpdate_place`). So a file that can be loaded
stays one, whatever the run (`afterUpdates_maintained`): `load_ruleset` may leave part of a file in
the store, but not of this one.
-/

namespace Unalix

open Ascii Outcome Calls

/-- A move across devices reads the whole file and writes it, and nothing is lost when the copy is
closed. -/
def MovesWhole (disk : Disk) : Prop :=
  disk.rename = .crossDevice →
    disk.sourceLimit = none ∧ disk.destinationRoom = none ∧ disk.destinationKept = none

/-! ## The move -/

section Move

variable {disk : Disk} {source destination content : Bytes} {w w' : World}

/-- A stream without a bound that loses nothing gets all chunks. -/
theorem copyLoop_unbounded (hkept : disk.destinationKept = none) (chunks : List Bytes) {old : Bytes}
    (hold : w.files destination = some old) :
    ∃ w', copyLoop disk chunks ⟨destination, none⟩ w = .ok (!disk.ferrorClosed) w' ∧
      w'.files destination = some (old ++ chunks.flatten) := by
  induction chunks generalizing old w with
  | nil =>
    refine ⟨w.close none destination, ?_, ?_⟩
    · rw [copyLoop, hkept]
      rfl
    · rw [World.files_close_self, hold, List.flatten_nil, List.append_nil]
      rfl
  | cons chunk chunks ih =>
    have hwrite : fwrite ⟨destination, none⟩ chunk w = .ok (chunk.length, ⟨destination, none⟩)
        (w.put destination (some (old ++ chunk))) := by
      simp [fwrite, Stream.accepts, hold]
    obtain ⟨w', hrun, hfile⟩ := ih (World.files_put_self w destination (some (old ++ chunk)))
    refine ⟨w', ?_, ?_⟩
    · rw [copyLoop, run_bind_of_ok hwrite]
      simpa only [ne_eq, not_true_eq_false, if_false] using hrun
    · rw [hfile, List.flatten_cons, List.append_assoc]

/-- A copy that is not cut short leaves the destination alone, or copies all of the source. -/
theorem copyFile_whole {b : Bool} (hsource : w.files source = some content)
    (hlimit : disk.sourceLimit = none) (hroom : disk.destinationRoom = none)
    (hkept : disk.destinationKept = none)
    (h : copyFile disk source destination w = .ok b w') :
    w'.files destination = w.files destination ∨ w'.files destination = some content := by
  simp only [copyFile, run_bind_eq_ok, run_get_eq_ok] at h
  obtain ⟨_, _, ⟨rfl, rfl⟩, h⟩ := h
  simp only [hsource] at h
  by_cases hopen : disk.openSource = true
  · simp only [hopen, Bool.not_true, Bool.false_eq_true, if_false, run_bind_eq_ok] at h
    obtain ⟨dfile, w₁, hfile, h⟩ := h
    unfold fopenWrite at hfile
    split_ifs at hfile with hdest
    · obtain ⟨rfl, rfl⟩ := EStateM.Result.ok.inj hfile
      right
      have hempty : ({ w.put destination (some []) with
          created := w.created ++ [destination] } : World).files destination = some [] :=
        World.files_put_self w destination (some [])
      obtain ⟨w₂, hrun, hcopied⟩ :=
        @copyLoop_unbounded disk destination _ hkept (freads (upTo disk.sourceLimit content)) _ hempty
      rw [hroom] at h
      obtain ⟨-, rfl⟩ := EStateM.Result.ok.inj (hrun.symm.trans h)
      rw [hcopied, flatten_freads, hlimit, upTo, List.nil_append]
    · obtain ⟨rfl, rfl⟩ := EStateM.Result.ok.inj hfile
      obtain ⟨-, rfl⟩ := run_pure_eq_ok.1 h
      exact .inl rfl
  · rw [Bool.not_eq_true] at hopen
    simp only [hopen, Bool.not_false, if_true, run_pure_eq_ok] at h
    obtain ⟨-, rfl⟩ := h
    exact .inl rfl

/-- **A whole move is atomic** for its destination, whatever its result. -/
theorem moveFile_atomic {code : ℤ} (hne : source ≠ destination) (hwhole : MovesWhole disk)
    (hsource : w.files source = some content)
    (h : moveFile disk source destination w = .ok code w') :
    w'.files destination = w.files destination ∨ w'.files destination = some content := by
  by_cases hdisk : disk.rename = .crossDevice
  · obtain ⟨hlimit, hroom, hkept⟩ := hwhole hdisk
    have hrename : renameFile disk source destination w = .ok .crossDevice w := by
      rw [renameFile, if_neg hne, hdisk]
    rw [moveFile, run_bind_of_ok hrename] at h
    simp only [run_bind_eq_ok] at h
    obtain ⟨b, w₁, hcopy, h⟩ := h
    have hplace := copyFile_whole hsource hlimit hroom hkept hcopy
    cases b with
    | false =>
      obtain ⟨-, rfl⟩ := run_pure_eq_ok.1 h
      exact hplace
    | true =>
      simp only [if_true, run_bind_eq_ok] at h
      obtain ⟨_, w₂, hremove, h⟩ := h
      obtain ⟨-, rfl⟩ := run_pure_eq_ok.1 h
      rw [removeFile_eq_ok hremove]
      split_ifs
      · rwa [World.files_put_of_ne hne.symm]
      · exact hplace
  · cases moved_of_eq_ok hsource h with
    | same hsame => exact absurd hsame hne
    | renamed _ _ hplace => exact .inr hplace
    | copied _ hcross _ => exact absurd hcross hdisk
    | notCopied _ hcross _ _ => exact absurd hcross hdisk
    | notRenamed => exact .inl rfl

end Move

/-! ## The steps before the move -/

section Steps

variable {Code : Type} {env : Environment} {libs : Libraries Code} {filename rulesetFile : Bytes}

theorem keeps_get_bind {ε σ α γ : Type} {f : σ → γ} {k : σ → EStateM ε σ α}
    (h : ∀ s, f (final (k s s)) = f s) : Keeps f (get >>= k) := h

/-- When a call fails, another file is removed. -/
theorem place_removeOnError {α : Type} (hne : filename ≠ rulesetFile) (x : Call α) (w : World) :
    (final (removeOnError env.disk rulesetFile x w)).files filename =
      (final (x w)).files filename := by
  unfold removeOnError
  rcases x w with ⟨a, w₁⟩ | ⟨_ | _, w₁⟩
  · rfl
  · rw [final_error, final_error, World.unlink]
    split_ifs
    · exact World.files_put_of_ne hne w₁ none
    · rfl
  · rfl

theorem keeps_place_removeOnError {α : Type} {x : Call α} (hne : filename ≠ rulesetFile)
    (hx : Keeps (fun w : World => w.files filename) x) :
    Keeps (fun w : World => w.files filename) (removeOnError env.disk rulesetFile x) := fun w =>
  (place_removeOnError hne x w).trans (hx w)

theorem keeps_place_contextPart {α : Type} (x : EStateM Failure HTTPContext α) :
    Keeps (fun w : World => w.files filename) (contextPart.run x) :=
  Part.keeps_run (fun _ _ => rfl) x

theorem keeps_downloadHash (hne : filename ≠ rulesetFile) (url : Bytes) :
    Keeps (fun w : World => w.files filename) (downloadHash env url rulesetFile) := by
  unfold downloadHash
  refine Keeps.bind (keeps_place_contextPart _) fun _ => ?_
  refine Keeps.bind (keeps_place_removeOnError hne (keeps_place_contextPart _)) fun _ => ?_
  refine keeps_get_bind fun w => ?_
  cases decide (sha256DigestSize ≤ w.context.response.body.length) <;> rfl

theorem keeps_checkHash (hne : filename ≠ rulesetFile) (sha256Url : Option Bytes) :
    Keeps (fun w : World => w.files filename) (checkHash env libs sha256Url rulesetFile) := by
  cases sha256Url with
  | none => exact Keeps.pure _
  | some url =>
    refine Keeps.bind (keeps_downloadHash hne url) fun rsha256 => ?_
    apply keeps_place_removeOnError hne
    refine Keeps.bind (keeps_sha256Digest _ _ _ _) fun _ => ?_
    exact keeps_require _ _ _

theorem keeps_tryLoad : Keeps (fun w : World => w.files filename) (tryLoad env libs rulesetFile) :=
  Keeps.bind Keeps.get fun _ => keeps_ofOutcome _ _

theorem keeps_downloadRules (hne : filename ≠ rulesetFile) (url : Bytes) :
    Keeps (fun w : World => w.files filename) (downloadRules env url rulesetFile) := by
  refine Keeps.bind (keeps_place_contextPart _) fun _ => ?_
  intro w
  rw [run_bind]
  cases hopen : fopenWrite env.disk.openTemporary env.disk.temporaryRoom rulesetFile w with
  | error e w₁ => exact absurd hopen (neverFails_fopenWrite _ _ _ _ _ _)
  | ok file w₁ =>
    cases file with
    | none =>
      unfold fopenWrite at hopen
      split_ifs at hopen
      · cases (EStateM.Result.ok.inj hopen).1
      · obtain ⟨-, rfl⟩ := EStateM.Result.ok.inj hopen
        rfl
    | some stream =>
      -- from here on the temporary file exists, and no other file is touched
      obtain ⟨hpath, -, -, hstaged, -⟩ := staged_fopenWrite hopen
      have hplace := (preserves_readTemporary hpath env.disk.temporaryKept w₁ hstaged).others
        filename hne
      exact (place_removeOnError hne _ w₁).trans hplace

variable (env libs) in
/-- What an update may install: the bytes of a body that was served with status 200, all that was
kept of them when the temporary file was closed, if they can be loaded and have the hash that is
served for them. -/
structure Verified (sha256Url : Option Bytes) (content : Bytes) : Prop where
  status : env.exchange.statusCode = statusOk
  served : env.exchange.body.map (upTo env.disk.temporaryKept) = some content
  passes : Passes env libs sha256Url content

/-- **One update**, whatever its end: the file in its place is as it was, or verified. -/
theorem rulesetUpdate_place {url temporaryDirectory : Bytes} {sha256Url : Option Bytes} {w : World}
    (hne : temporaryDirectory ++ rulesetTemporaryFile ≠ filename) (hwhole : MovesWhole env.disk)
    (hbody : w.context.response.body = []) :
    let w' := final (rulesetUpdate env libs filename url sha256Url temporaryDirectory w)
    w'.files filename = w.files filename ∨
      ∃ content, Verified env libs sha256Url content ∧ w'.files filename = some content := by
  simp only [rulesetUpdate]
  generalize temporaryDirectory ++ rulesetTemporaryFile = rulesetFile at hne ⊢
  have hdownloads := @keeps_downloadRules env filename rulesetFile hne.symm url
  have hchecks := @keeps_checkHash _ env libs filename rulesetFile hne.symm sha256Url
  have hloads := @keeps_place_removeOnError env filename rulesetFile _ _ hne.symm
    (@keeps_tryLoad _ env libs filename rulesetFile)
  rw [run_bind]
  rcases hdownload : downloadRules env url rulesetFile w with ⟨_, w₁⟩ | ⟨e, w₁⟩
  · have hplace₁ := hdownloads.ok hdownload
    simp only
    rw [run_bind]
    rcases hcheck : checkHash env libs sha256Url rulesetFile w₁ with ⟨_, w₂⟩ | ⟨e, w₂⟩
    · have hplace₂ := (hchecks.ok hcheck).trans hplace₁
      simp only
      rw [run_bind]
      rcases hload : removeOnError env.disk rulesetFile (tryLoad env libs rulesetFile) w₂ with
        ⟨_, w₃⟩ | ⟨e, w₃⟩
      · have hplace₃ := (hloads.ok hload).trans hplace₂
        obtain ⟨body, hstatus, hserved, hfile, -, hpasses⟩ :=
          exists_before_move hbody hdownload hcheck (removeOnError_eq_ok.1 hload)
        simp only [installRules]
        rw [run_bind]
        rcases hmove : moveFile env.disk rulesetFile filename w₃ with ⟨code, w₄⟩ | ⟨e, w₄⟩
        · have hrequire : final ((require (decide (code ≠ 0)) .fileCannotMove : Call Unit) w₄) = w₄ :=
            keeps_require id _ _ w₄
          simp only
          rw [hrequire]
          rcases moveFile_atomic hne hwhole hfile hmove with hplace | hplace
          · exact .inl (hplace.trans hplace₃)
          · exact .inr ⟨_, ⟨hstatus, by rw [hserved, Option.map_some], hpasses⟩, hplace⟩
        · exact absurd hmove (neverFails_moveFile _ _ _ _ _)
      · exact .inl ((hloads.error hload).trans hplace₂)
    · exact .inl ((hchecks.error hcheck).trans hplace₁)
  · exact .inl (hdownloads.error hdownload)

end Steps

/-! ## Runs of updates -/

/-- A call of `unalix_ruleset_update` for a file, and what the servers and the file system do
during it. -/
structure UpdateCall where
  env : Environment
  url : Option Bytes
  sha256Url : Option Bytes
  temporaryDirectory : Option Bytes

/-- The temporary file is another one, and a move across devices is whole. -/
structure UpdateCall.Atomic (call : UpdateCall) (filename : Bytes) : Prop where
  temporary : ∀ directory, call.temporaryDirectory = some directory →
    directory ++ rulesetTemporaryFile ≠ filename
  move : MovesWhole call.env.disk

section Runs

variable {Code : Type} (libs : Libraries Code) (filename : Bytes)

/-- The files after a call. -/
def afterUpdate (files : Bytes → Option Bytes) (call : UpdateCall) : Bytes → Option Bytes :=
  (final (unalixRulesetUpdate call.env libs (some filename) call.url call.sha256Url
    call.temporaryDirectory files)).files

/-- The files after a run. -/
def afterUpdates (files : Bytes → Option Bytes) (calls : List UpdateCall) : Bytes → Option Bytes :=
  calls.foldl (afterUpdate libs filename) files

/-- The file can be loaded in full: `unalix_load_file` succeeds, and adds the same rulesets to
whatever is in the store. -/
def Loadable (files : Bytes → Option Bytes) : Prop :=
  ∃ added, ∀ rules, unalixLoadFile libs.compile (fun name => (files name).bind libs.jsonLoads)
    (some filename) (InMemory.storeOf rules) = (.ok (), InMemory.storeOf (rules ++ added))

variable {libs filename}

theorem files_thenFree {α : Type} (x : Call α) (w : World) :
    (final (thenFree x w)).files = (final (x w)).files := by
  unfold thenFree thenAlways
  rcases x w with _ | ⟨_ | _, _⟩ <;> rfl

/-- **A call**, whatever its end. -/
theorem afterUpdate_place {files : Bytes → Option Bytes} {call : UpdateCall}
    (h : call.Atomic filename) : afterUpdate libs filename files call filename = files filename ∨
      ∃ content, Verified call.env libs call.sha256Url content ∧
        afterUpdate libs filename files call filename = some content := by
  unfold afterUpdate unalixRulesetUpdate
  rcases requireArgument_cases (some filename) with ⟨f, hf, heq⟩ | ⟨-, heq⟩
  · rcases requireArgument_cases call.url with ⟨u, -, heq'⟩ | ⟨-, heq'⟩
    · rcases requireArgument_cases call.temporaryDirectory with ⟨d, hd, heq''⟩ | ⟨-, heq''⟩
      · obtain rfl := hf.eq rfl
        have hplace := @rulesetUpdate_place _ call.env libs f u d call.sha256Url
          { files := files, context := updateContext } (h.temporary d hd.1) h.move rfl
        have hrun : final ((requireArgument (some f) >>= fun filename =>
            requireArgument call.url >>= fun url =>
              requireArgument call.temporaryDirectory >>= fun temporaryDirectory =>
                thenFree (rulesetUpdate call.env libs filename url call.sha256Url
                  temporaryDirectory)) { files := files, context := updateContext }) =
            final (thenFree (rulesetUpdate call.env libs f u call.sha256Url d)
              { files := files, context := updateContext }) := by
          rw [heq, heq', heq'']
          rfl
        rw [hrun, files_thenFree]
        exact hplace
      · rw [heq, heq', heq'']
        exact .inl rfl
    · rw [heq, heq']
      exact .inl rfl
  · rw [heq]
    exact .inl rfl

/-- **A run** of calls: the file is the one from before, or verified in one of them. -/
theorem afterUpdates_place {files : Bytes → Option Bytes} {calls : List UpdateCall}
    (hcalls : ∀ call ∈ calls, call.Atomic filename) :
    afterUpdates libs filename files calls filename = files filename ∨
      ∃ call ∈ calls, ∃ content, Verified call.env libs call.sha256Url content ∧
        afterUpdates libs filename files calls filename = some content := by
  induction calls generalizing files with
  | nil => exact .inl rfl
  | cons call calls ih =>
    obtain ⟨hcall, hcalls⟩ := List.forall_mem_cons.1 hcalls
    rcases @ih (afterUpdate libs filename files call) hcalls with
      hkept | ⟨later, hlater, body, hbody, hplace⟩
    · rcases afterUpdate_place hcall with hsame | ⟨body, hbody, hplace⟩
      · exact .inl (hkept.trans hsame)
      · exact .inr ⟨call, List.mem_cons_self, body, hbody, hkept.trans hplace⟩
    · exact .inr ⟨later, List.mem_cons_of_mem call hlater, body, hbody, hplace⟩

theorem Loadable.congr {files files' : Bytes → Option Bytes} (h : Loadable libs filename files)
    (heq : files' filename = files filename) : Loadable libs filename files' := by
  obtain ⟨added, hload⟩ := h
  refine ⟨added, fun rules => ?_⟩
  rw [← hload rules]
  cases filename with
  | nil => rfl
  | cons c s =>
    simp only [unalixLoadFile, loadFile, loadParsed]
    rw [heq]

theorem not_loadable_nil (files : Bytes → Option Bytes) : ¬ Loadable libs [] files := by
  intro ⟨added, hload⟩
  exact fail_ne_ok _ _ (congrArg Prod.fst (hload []))

/-- What was loaded on trial can be loaded in full. -/
theorem loadable_of_verified {env : Environment} {sha256Url : Option Bytes} {body : Bytes}
    {files : Bytes → Option Bytes} (hname : filename ≠ [])
    (hbody : Verified env libs sha256Url body) (hplace : files filename = some body) :
    Loadable libs filename files := by
  obtain ⟨r, -, hload⟩ := InMemory.exists_unalixLoadFile_eq libs.compile
    (fun name => (files name).bind libs.jsonLoads) (some filename)
  obtain ⟨x, htrial⟩ := hbody.passes.1
  have hr : r = .ok () := by
    have hempty := congrArg Prod.fst (hload [])
    obtain ⟨c, s, rfl⟩ := List.exists_cons_of_ne_nil hname
    simp only [unalixLoadFile, loadFile, loadParsed, hplace, Option.bind_some] at hempty
    exact hempty.symm.trans htrial
  exact ⟨_, fun rules => by rw [hload rules, hr]⟩

/-- **Rules that are kept by updates can always be loaded in full**, whatever the servers do in
whatever calls, and wherever a call ends, on a file system that moves whole files: the file is the
one from before the run, or what was verified in one of the calls. -/
theorem afterUpdates_maintained {files : Bytes → Option Bytes} {calls : List UpdateCall}
    (hcalls : ∀ call ∈ calls, call.Atomic filename) :
    (afterUpdates libs filename files calls filename = files filename ∨
      ∃ call ∈ calls, ∃ content, Verified call.env libs call.sha256Url content ∧
        afterUpdates libs filename files calls filename = some content) ∧
      (Loadable libs filename files →
        Loadable libs filename (afterUpdates libs filename files calls)) := by
  have hplace := @afterUpdates_place _ libs filename files calls hcalls
  refine ⟨hplace, fun hloadable => ?_⟩
  have hname : filename ≠ [] := by
    rintro rfl
    exact not_loadable_nil files hloadable
  rcases hplace with hsame | ⟨call, -, body, hbody, hverified⟩
  · exact hloadable.congr hsame
  · exact loadable_of_verified hname hbody hverified

end Runs

/-- An update whose file is renamed, and one whose server is not reached. -/
def maintainedExample : List UpdateCall :=
  [⟨updateExample .done, some (str "http://example.com/rules"), none, some (str "/tmp/")⟩,
    ⟨{ exchange := { resolved := false } }, some (str "http://example.com/rules"), none,
      some (str "/tmp/")⟩]

theorem afterUpdates_maintained_example :
    let files := fun path => if path = str "rules.json" then some (str "old") else none
    let files' := afterUpdates librariesExample (str "rules.json") files maintainedExample
    (files' (str "rules.json") = files (str "rules.json") ∨
      ∃ call ∈ maintainedExample, ∃ content,
        Verified call.env librariesExample call.sha256Url content ∧
          files' (str "rules.json") = some content) ∧
      (Loadable librariesExample (str "rules.json") files →
        Loadable librariesExample (str "rules.json") files') := by
  apply afterUpdates_maintained
  simp only [maintainedExample, List.forall_mem_cons]
  have htemporary (directory : Bytes) (h : some (str "/tmp/") = some directory) :
      directory ++ rulesetTemporaryFile ≠ str "rules.json" := by
    obtain rfl := Option.some.inj h
    decide
  exact ⟨⟨htemporary, nofun⟩, ⟨htemporary, nofun⟩, by simp⟩

end Unalix
