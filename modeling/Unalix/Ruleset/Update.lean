import Unalix.Files
import Unalix.Ruleset.Load

/-!
# Updating rules (`ruleset.c`)

`ruleset_update` downloads a file into a temporary one, checks its hash against a second download,
loads it on trial and moves it to its place. The steps are calls on a `World`; what the servers and
the file system do is an `Environment`. A step lemma says of each step what it leaves in the
temporary file when it succeeds, and that it touches no other file.
-/

namespace Unalix

open Ascii Outcome Calls

/-- What the servers and the file system do during an update. -/
structure Environment where
  exchange : Exchange := {}
  hashExchange : Exchange := {}
  disk : Disk := {}
  deriving DecidableEq, Repr

/-- The functions of other libraries that an update uses. -/
structure Libraries (Code : Type) where
  compile : Bytes → Option Code
  jsonLoads : Bytes → Option Json
  sha256 : Bytes → Bytes

/-- `RULESET_TEMPORARY_FILE`. -/
def rulesetTemporaryFile : Bytes := str "ruleset.json"

/-- `SHA256_DIGEST_SIZE`, and `br_sha256_SIZE * 2`. -/
def sha256DigestSize : ℕ := 64

/-- `http_context_free` on the context of a run. -/
def World.freeContext (w : World) : World := { w with context := httpContextFree w.context }

/-- The context is freed, whatever a call returns. -/
def thenFree {α : Type} (x : Call α) : Call α := thenAlways x (modify World.freeContext)

/-- What `remove_file` leaves. -/
def World.unlink (disk : Disk) (path : Bytes) (w : World) : World :=
  if disk.unlink then w.put path none else w

/-- A file is removed when a call returns an error code. -/
def removeOnError {α : Type} (disk : Disk) (path : Bytes) (x : Call α) : Call α := fun w =>
  match x w with
  | .error (.code e) w => .error (.code e) (w.unlink disk path)
  | result => result

/-! ## Reading a body into a file -/

/-- `fwrite` of all bytes, or `UNALIXERR_FILE_CANNOT_WRITE`. -/
def writeAll (stream : Stream) (bytes : Bytes) : Call Stream := do
  let (written, stream) ← fwrite stream bytes
  if written ≠ bytes.length then throw (.code .fileCannotWrite) else return stream

/-- The first part of `http_response_read`: the bytes that came with the head. -/
def writeBody (stream : Stream) (body : Bytes) : Call Stream :=
  if 0 < body.length then writeAll stream body else return stream

/-- The loop of `http_response_read` with a file. -/
def receiveFile (isHttps : Bool) : List Received → Stream → Call (List Received)
  | [], _ => return []
  | .failed error :: rest, _ =>
    if isHttps then
      if error ≠ .io ∧ error ≠ .ok then throw (.code .sslFailure) else return rest
    else throw (.code .socketRecvFailure)
  | .chunk bytes :: rest, stream =>
    if bytes = [] then return rest
    else do
      let stream ← writeAll stream bytes
      receiveFile isHttps rest stream

/-- `http_response_read` with a file. -/
def httpResponseReadFile (stream : Stream) : Call Unit := do
  let w ← get
  let stream ← writeBody stream w.context.response.body
  let isHttps ← ofOutcome (isHttpsContext w.context)
  let rest ← receiveFile isHttps w.context.connection.incoming stream
  contextPart.run (modify fun context => { context with connection :=
    { context.connection with incoming := rest } })

/-! ## The steps of `ruleset_update` -/

section Update

variable {Code : Type} (env : Environment) (libs : Libraries Code)

/-- The download: the bytes go to the temporary file, which is closed whatever the code is. -/
def downloadRules (url rulesetFile : Bytes) : Call Unit := do
  contextPart.run (fetch env.exchange url (str "application/json"))
  let file ← fopenWrite env.disk.openTemporary env.disk.temporaryRoom rulesetFile
  match file with
  | none => throw (.code .fileCannotOpen)
  | some stream =>
    removeOnError env.disk rulesetFile (thenFree (thenAlways (httpResponseReadFile stream)
      (fclose env.disk.temporaryKept stream)))

/-- The normalisation of the hash: the capital letters among the hexadecimal digits. -/
def lowerHex (ch : UInt8) : UInt8 := if 65 ≤ ch ∧ ch ≤ 70 then ch + 32 else ch

/-- The download of the hash, up to its normalisation. -/
def downloadHash (url rulesetFile : Bytes) : Call Bytes := do
  contextPart.run (fetch env.hashExchange url (str "text/plain"))
  removeOnError env.disk rulesetFile (contextPart.run httpResponseRead)
  let w ← get
  require (sha256DigestSize ≤ w.context.response.body.length) .rulesetsMismatchHash
  set w.freeContext
  return (w.context.response.body.take sha256DigestSize).map lowerHex

/-- The comparison of the two hashes. -/
def compareHash (rulesetFile rsha256 : Bytes) : Call Unit := do
  let lsha256 ← sha256Digest env.disk libs.sha256 rulesetFile
  require (lsha256 = rsha256) .rulesetsMismatchHash

/-- The hash check, if a URL for it is given. -/
def checkHash (sha256Url : Option Bytes) (rulesetFile : Bytes) : Call Unit :=
  match sha256Url with
  | none => return ()
  | some url => do
    let rsha256 ← downloadHash env url rulesetFile
    removeOnError env.disk rulesetFile (compareHash env libs rulesetFile rsha256)

/-- The trial: the temporary file is loaded into a store of its own, which is freed. -/
def tryLoad (rulesetFile : Bytes) : Call Unit := do
  let w ← get
  let jsonLoadFile (filename : Bytes) : Option Json :=
    if env.disk.loadTemporary then (w.files filename).bind libs.jsonLoads else none
  ofOutcome (loadFile libs.compile jsonLoadFile rulesetFile {}).1

/-- The move. -/
def installRules (rulesetFile filename : Bytes) : Call Unit := do
  let moved ← moveFile env.disk rulesetFile filename
  require (decide (moved ≠ 0)) .fileCannotMove

/-- `ruleset_update`. -/
def rulesetUpdate (filename url : Bytes) (sha256Url : Option Bytes) (temporaryDirectory : Bytes) :
    Call Unit := do
  let rulesetFile := temporaryDirectory ++ rulesetTemporaryFile
  downloadRules env url rulesetFile
  checkHash env libs sha256Url rulesetFile
  removeOnError env.disk rulesetFile (tryLoad env libs rulesetFile)
  installRules env rulesetFile filename

/-- An argument that is neither null nor empty. -/
def requireArgument (argument : Option Bytes) : Call Bytes :=
  match argument with
  | none => throw (.code .argInvalid)
  | some [] => throw (.code .argInvalid)
  | some argument => return argument

/-- The context of an update. -/
def updateContext : HTTPContext where
  request := { version := .http10, method := .get }
  connection := { timeout := httpDefaultTimeout }

/-- `unalix_ruleset_update`, on the files as they are. -/
def unalixRulesetUpdate (filename url sha256Url temporaryDirectory : Option Bytes)
    (files : Bytes → Option Bytes) : EStateM.Result Failure World Unit :=
  let update : Call Unit := do
    let filename ← requireArgument filename
    let url ← requireArgument url
    let temporaryDirectory ← requireArgument temporaryDirectory
    thenFree (rulesetUpdate env libs filename url sha256Url temporaryDirectory)
  update { files := files, context := updateContext }

end Update

/-- An argument that is accepted. -/
def ValidArgument (argument : Option Bytes) (s : Bytes) : Prop := argument = some s ∧ s ≠ []

theorem requireArgument_cases (argument : Option Bytes) :
    (∃ s, ValidArgument argument s ∧ requireArgument argument = pure s) ∨
      ((∀ s, ¬ ValidArgument argument s) ∧
        requireArgument argument = throw (.code .argInvalid)) := by
  match argument with
  | none => exact .inr ⟨fun s h => absurd h.1 nofun, rfl⟩
  | some [] => exact .inr ⟨fun s h => h.2 (Option.some.inj h.1).symm, rfl⟩
  | some (c :: s) => exact .inl ⟨c :: s, ⟨rfl, List.cons_ne_nil c s⟩, rfl⟩

theorem ValidArgument.eq {argument : Option Bytes} {s t : Bytes} (h : ValidArgument argument s)
    (ht : argument = some t) : s = t := Option.some.inj (h.1.symm.trans ht)

/-! ## What a failed step leaves -/

section Ends

variable {α : Type} {disk : Disk} {path : Bytes} {x : Call α} {w w' : World}

theorem removeOnError_eq_ok {a : α} :
    removeOnError disk path x w = .ok a w' ↔ x w = .ok a w' := by
  unfold removeOnError
  rcases x w with _ | ⟨_ | _, _⟩ <;> simp

theorem removeOnError_eq_error {e : ErrorCode} :
    removeOnError disk path x w = .error (.code e) w' ↔
      ∃ w₁, x w = .error (.code e) w₁ ∧ w₁.unlink disk path = w' := by
  unfold removeOnError
  rcases x w with _ | ⟨_ | _, _⟩ <;> simp

/-- Behind a call the state is changed. -/
theorem thenAlways_modify_eq_ok {g : World → World} {a : α} :
    thenAlways x (modify g) w = .ok a w' ↔ ∃ w₁, x w = .ok a w₁ ∧ g w₁ = w' := by
  rw [thenAlways]
  rcases x w with _ | ⟨_ | _, _⟩ <;> simp [run_modify_bind]

theorem thenAlways_modify_eq_error {g : World → World} {e : ErrorCode} :
    thenAlways x (modify g) w = .error (.code e) w' ↔
      ∃ w₁, x w = .error (.code e) w₁ ∧ g w₁ = w' := by
  rw [thenAlways]
  rcases x w with _ | ⟨_ | _, _⟩ <;> simp [run_modify_bind]

theorem thenFree_eq_ok {a : α} :
    thenFree x w = .ok a w' ↔ ∃ w₁, x w = .ok a w₁ ∧ w₁.freeContext = w' :=
  thenAlways_modify_eq_ok

theorem thenFree_eq_error {e : ErrorCode} :
    thenFree x w = .error (.code e) w' ↔ ∃ w₁, x w = .error (.code e) w₁ ∧ w₁.freeContext = w' :=
  thenAlways_modify_eq_error

end Ends

/-- A world in the middle of an update: the temporary file exists, and no other file has been
touched. -/
structure Staged (files : Bytes → Option Bytes) (rulesetFile : Bytes) (w : World) : Prop where
  others : ∀ p, p ≠ rulesetFile → w.files p = files p
  present : w.files rulesetFile ≠ none
  created : rulesetFile ∈ w.created

section Staged

variable {files : Bytes → Option Bytes} {rulesetFile : Bytes}

theorem Staged.put {w : World} (h : Staged files rulesetFile w) (content : Bytes) :
    Staged files rulesetFile (w.put rulesetFile (some content)) where
  others p hp := by rw [World.files_put_of_ne hp, h.others p hp]
  present := by rw [World.files_put_self]; simp
  created := h.created

theorem Staged.congr {w w' : World} (h : Staged files rulesetFile w) (hfiles : w'.files = w.files)
    (hcreated : w'.created = w.created) : Staged files rulesetFile w' where
  others := by rw [hfiles]; exact h.others
  present := by rw [hfiles]; exact h.present
  created := by rw [hcreated]; exact h.created

theorem Staged.close {w : World} (h : Staged files rulesetFile w) (kept : Option ℕ) :
    Staged files rulesetFile (w.close kept rulesetFile) where
  others p hp := by rw [World.files_close_of_ne hp, h.others p hp]
  present := by
    rw [World.files_close_self, Ne, Option.map_eq_none_iff]
    exact h.present
  created := h.created

theorem Staged.freeContext {w : World} (h : Staged files rulesetFile w) :
    Staged files rulesetFile w.freeContext := ⟨h.others, h.present, h.created⟩

theorem preserves_contextPart {α : Type} (x : EStateM Failure HTTPContext α) :
    Preserves (Staged files rulesetFile) (contextPart.run x) := by
  have hkeeps : Keeps (fun w : World => (w.files, w.created)) (contextPart.run x) :=
    Part.keeps_run (fun _ _ => rfl) x
  intro w h
  have hw := hkeeps w
  simp only [Prod.mk.injEq] at hw
  exact h.congr hw.1 hw.2

theorem preserves_fwrite {stream : Stream} (hpath : stream.path = rulesetFile) (bytes : Bytes) :
    Preserves (Staged files rulesetFile) (fwrite stream bytes) := by
  intro w h
  rw [← hpath] at h ⊢
  exact h.put _

theorem writeAll_eq_ok {stream stream' : Stream} {bytes : Bytes} {w w' : World}
    (h : writeAll stream bytes w = .ok stream' w') : stream'.path = stream.path ∧
      w' = w.put stream.path (some ((w.files stream.path).getD [] ++ bytes)) := by
  rw [writeAll, run_bind_eq_ok] at h
  obtain ⟨⟨written, stream₁⟩, w₁, hwrite, h⟩ := h
  obtain ⟨hpath, rfl⟩ := fwrite_eq_ok hwrite
  simp only at h
  split_ifs at h with hshort
  · exact absurd h run_throw_ne_ok
  · obtain ⟨rfl, rfl⟩ := run_pure_eq_ok.1 h
    refine ⟨hpath, ?_⟩
    rw [not_not.1 hshort, List.take_length]

theorem preserves_writeAll {stream : Stream} (hpath : stream.path = rulesetFile) (bytes : Bytes) :
    Preserves (Staged files rulesetFile) (writeAll stream bytes) := by
  apply Preserves.bind (preserves_fwrite hpath bytes)
  intro written _ _ _
  simp only
  split_ifs
  · exact Preserves.throw _
  · exact Preserves.pure _

theorem writeBody_eq_ok {stream stream' : Stream} {body : Bytes} {w w' : World}
    (h : writeBody stream body w = .ok stream' w') (hopen : w.files stream.path = some []) :
    stream'.path = stream.path ∧ w'.files stream.path = some body ∧ w'.context = w.context := by
  unfold writeBody at h
  split_ifs at h with hbody
  · obtain ⟨hpath, rfl⟩ := writeAll_eq_ok h
    refine ⟨hpath, ?_, rfl⟩
    rw [World.files_put_self, hopen, Option.getD_some, List.nil_append]
  · obtain ⟨rfl, rfl⟩ := run_pure_eq_ok.1 h
    have hnil : body = [] := List.length_eq_zero_iff.1 (by omega)
    exact ⟨rfl, by rw [hopen, hnil], rfl⟩

theorem preserves_writeBody {stream : Stream} (hpath : stream.path = rulesetFile) (body : Bytes) :
    Preserves (Staged files rulesetFile) (writeBody stream body) := by
  unfold writeBody
  split_ifs
  · exact preserves_writeAll hpath body
  · exact Preserves.pure _

/-- **The loop of `http_response_read`** appends the rest of the stream to the file. -/
theorem receiveFile_eq_ok {isHttps : Bool} {incoming rest : List Received} {stream : Stream}
    {old : Bytes} {w w' : World} (h : receiveFile isHttps incoming stream w = .ok rest w')
    (hold : w.files stream.path = some old) :
    w'.files stream.path = some (old ++ streamOf incoming) := by
  induction incoming generalizing stream old w with
  | nil =>
    obtain ⟨-, rfl⟩ := run_pure_eq_ok.1 h
    rw [hold, streamOf, List.append_nil]
  | cons received incoming ih =>
    cases received with
    | failed error =>
      rw [receiveFile] at h
      split_ifs at h
      · exact absurd h run_throw_ne_ok
      · obtain ⟨-, rfl⟩ := run_pure_eq_ok.1 h
        rw [hold, streamOf, List.append_nil]
      · exact absurd h run_throw_ne_ok
    | chunk bytes =>
      rw [receiveFile] at h
      rw [streamOf]
      split_ifs at h ⊢ with hempty
      · obtain ⟨-, rfl⟩ := run_pure_eq_ok.1 h
        rw [hold, List.append_nil]
      · rw [run_bind_eq_ok] at h
        obtain ⟨stream', w₁, hwrite, h⟩ := h
        obtain ⟨hpath, rfl⟩ := writeAll_eq_ok hwrite
        have hwritten : (w.put stream.path (some (old ++ bytes))).files stream'.path =
            some (old ++ bytes) := by
          rw [hpath, World.files_put_self]
        rw [hold, Option.getD_some] at h
        rw [← hpath, ih h hwritten, List.append_assoc]

theorem preserves_receiveFile {isHttps : Bool} (incoming : List Received) {stream : Stream}
    (hpath : stream.path = rulesetFile) :
    Preserves (Staged files rulesetFile) (receiveFile isHttps incoming stream) := by
  induction incoming generalizing stream with
  | nil => exact Preserves.pure _
  | cons received incoming ih =>
    cases received with
    | failed error =>
      rw [receiveFile]
      split_ifs
      · exact Preserves.throw _
      · exact Preserves.pure _
      · exact Preserves.throw _
    | chunk bytes =>
      rw [receiveFile]
      split_ifs
      · exact Preserves.pure _
      · apply Preserves.bind (preserves_writeAll hpath bytes)
        intro stream' w w' hwrite
        exact ih ((writeAll_eq_ok hwrite).1.trans hpath)

end Staged

/-! ## The steps, one by one -/

section Steps

variable {Code : Type} {env : Environment} {libs : Libraries Code} {files : Bytes → Option Bytes}
  {rulesetFile : Bytes}

theorem httpResponseReadFile_eq_ok {exchange : Exchange} {stream : Stream} {w w' : World}
    (h : httpResponseReadFile stream w = .ok () w') (hanswered : Answered exchange w.context)
    (hopen : w.files stream.path = some []) : w'.files stream.path = exchange.body := by
  simp only [httpResponseReadFile, run_bind_eq_ok, run_get_eq_ok, ofOutcome_eq_ok] at h
  obtain ⟨_, _, ⟨rfl, rfl⟩, stream', w₁, hbody, isHttps, _, ⟨-, rfl⟩, rest, w₂, hrest, hset⟩ := h
  obtain ⟨hpath, hwritten, -⟩ := writeBody_eq_ok hbody hopen
  rw [← hpath] at hwritten ⊢
  have hfile := receiveFile_eq_ok hrest hwritten
  obtain ⟨context, -, rfl⟩ := Part.run_eq_ok.1 hset
  exact hfile.trans hanswered.body.symm

theorem preserves_httpResponseReadFile {stream : Stream} (hpath : stream.path = rulesetFile) :
    Preserves (Staged files rulesetFile) (httpResponseReadFile stream) := by
  unfold httpResponseReadFile
  refine Preserves.bind (P := Staged files rulesetFile) (x := get) Preserves.get ?_
  intro w _ _ _
  apply Preserves.bind (preserves_writeBody hpath _)
  intro stream' s s' hbody
  have hpath' : stream'.path = rulesetFile := by
    unfold writeBody at hbody
    split_ifs at hbody
    · exact (writeAll_eq_ok hbody).1.trans hpath
    · rw [← (run_pure_eq_ok.1 hbody).1, hpath]
  apply Preserves.bind
  · cases isHttpsContext w.context <;> exact fun _ h => h
  · intro isHttps _ _ _
    apply Preserves.bind (preserves_receiveFile _ hpath')
    intro rest _ _ _
    exact preserves_contextPart _

theorem preserves_thenAlways_modify {α : Type} {P : World → Prop} {x : Call α} {g : World → World}
    (h : Preserves P x) (hg : ∀ w, P w → P (g w)) : Preserves P (thenAlways x (modify g)) := by
  intro w hw
  have hw' := h w hw
  rw [thenAlways]
  rcases hx : x w with ⟨a, w₁⟩ | ⟨e | f, w₁⟩
  · rw [hx] at hw'
    exact hg w₁ hw'
  · rw [hx] at hw'
    exact hg w₁ hw'
  · rw [hx] at hw'
    exact hw'

/-- Reading a body into the temporary file and closing it. -/
theorem preserves_readTemporary {stream : Stream} (hpath : stream.path = rulesetFile)
    (kept : Option ℕ) : Preserves (Staged files rulesetFile)
      (thenFree (thenAlways (httpResponseReadFile stream) (fclose kept stream))) := by
  refine preserves_thenAlways_modify ?_ fun w h => h.freeContext
  refine preserves_thenAlways_modify (preserves_httpResponseReadFile hpath) fun w h => ?_
  rw [hpath]
  exact h.close kept

/-- A call on the context changes nothing else. -/
theorem contextPart_run_eq_ok {α : Type} {x : EStateM Failure HTTPContext α} {a : α}
    {w w' : World} (h : contextPart.run x w = .ok a w') :
    x w.context = .ok a w'.context ∧ w'.files = w.files ∧ w'.created = w.created := by
  obtain ⟨context, hx, rfl⟩ := Part.run_eq_ok.1 h
  exact ⟨hx, rfl, rfl⟩

theorem contextPart_run_eq_error {α : Type} {x : EStateM Failure HTTPContext α} {e : Failure}
    {w w' : World} (h : contextPart.run x w = .error e w') :
    x w.context = .error e w'.context ∧ w'.files = w.files ∧ w'.created = w.created := by
  obtain ⟨context, hx, rfl⟩ := Part.run_eq_error.1 h
  exact ⟨hx, rfl, rfl⟩

/-- The temporary file is opened: the server answers with status 200, and `fopen` succeeds. -/
def TemporaryOpened (env : Environment) (url : Bytes) (w : World) : Prop :=
  (∃ w₁, contextPart.run (fetch env.exchange url (str "application/json")) w = .ok () w₁) ∧
    env.disk.openTemporary = true

/-- Opening the temporary file. -/
theorem staged_fopenWrite {w w' : World} {room : Option ℕ} {stream : Stream}
    (h : fopenWrite env.disk.openTemporary room rulesetFile w = .ok (some stream) w') :
    stream.path = rulesetFile ∧ w'.files rulesetFile = some [] ∧ w'.context = w.context ∧
      Staged w.files rulesetFile w' ∧ env.disk.openTemporary = true := by
  unfold fopenWrite at h
  split_ifs at h with hopen
  · obtain ⟨hstream, rfl⟩ := EStateM.Result.ok.inj h
    obtain rfl := Option.some.inj hstream
    refine ⟨rfl, World.files_put_self w _ _, rfl, ⟨?_, ?_, ?_⟩, hopen⟩
    · intro p hp
      exact World.files_put_of_ne hp w _
    · exact (World.files_put_self w rulesetFile (some [])).trans_ne nofun
    · exact List.mem_append_right _ (List.mem_singleton_self _)
  · obtain ⟨hstream, -⟩ := EStateM.Result.ok.inj h
    cases hstream

/-- **The download**: the temporary file holds the body of a response with status 200, up to what is
lost when it is closed. -/
theorem downloadRules_eq_ok {url : Bytes} {w w' : World}
    (h : downloadRules env url rulesetFile w = .ok () w') (hbody : w.context.response.body = []) :
    Staged w.files rulesetFile w' ∧ TemporaryOpened env url w ∧
      env.exchange.statusCode = statusOk ∧
      w'.files rulesetFile = env.exchange.body.map (upTo env.disk.temporaryKept) ∧
      w'.context.response.body = [] := by
  simp only [downloadRules, run_bind_eq_ok] at h
  obtain ⟨_, w₁, hfetch, file, w₂, hopen, h⟩ := h
  obtain ⟨hrun, hfiles, -⟩ := contextPart_run_eq_ok hfetch
  have hanswered := answered_of_fetch hrun hbody
  cases file with
  | none => exact absurd h run_throw_ne_ok
  | some stream =>
    obtain ⟨hpath, hempty, hcontext, hstaged, hopened⟩ := staged_fopenWrite hopen
    have hrun := removeOnError_eq_ok.1 h
    obtain ⟨_, hclose, rfl⟩ := thenFree_eq_ok.1 hrun
    obtain ⟨w₃, hread, rfl⟩ := thenAlways_modify_eq_ok.1 hclose
    rw [hfiles] at hstaged
    rw [← hcontext] at hanswered
    rw [← hpath] at hempty
    have hfile := httpResponseReadFile_eq_ok hread hanswered hempty
    refine ⟨(preserves_readTemporary hpath _).ok hstaged hrun, ⟨⟨w₁, hfetch⟩, hopened⟩,
      hanswered.status, ?_, rfl⟩
    rw [← hpath, ← hfile]
    exact World.files_close_self w₃ _ _

/-- A download that fails has not opened the temporary file, or it removes it. -/
theorem downloadRules_eq_error {url : Bytes} {e : ErrorCode} {w w' : World}
    (h : downloadRules env url rulesetFile w = .error (.code e) w') :
    (¬ TemporaryOpened env url w ∧ w'.files = w.files ∧ w'.created = w.created) ∨
      (TemporaryOpened env url w ∧
        ∃ w₁, Staged w.files rulesetFile w₁ ∧ w₁.unlink env.disk rulesetFile = w') := by
  rw [downloadRules, run_bind_eq_error] at h
  rcases h with h | ⟨_, w₁, hfetch, h⟩
  · left
    obtain ⟨-, hfiles, hcreated⟩ := contextPart_run_eq_error h
    refine ⟨?_, hfiles, hcreated⟩
    intro ⟨⟨w₂, hok⟩, _⟩
    rw [h] at hok
    cases hok
  · obtain ⟨-, hfiles, hcreated⟩ := contextPart_run_eq_ok hfetch
    rw [run_bind_eq_error] at h
    rcases h with h | ⟨file, w₂, hopen, h⟩
    · exact absurd h (neverFails_fopenWrite _ _ _ _ _ _)
    · cases file with
      | none =>
        left
        obtain ⟨-, rfl⟩ := run_throw_eq_error.1 h
        unfold fopenWrite at hopen
        split_ifs at hopen with hopened
        · cases (EStateM.Result.ok.inj hopen).1
        · obtain ⟨-, rfl⟩ := EStateM.Result.ok.inj hopen
          exact ⟨fun hopen => hopened hopen.2, hfiles, hcreated⟩
      | some stream =>
        right
        obtain ⟨hpath, -, -, hstaged, hopened⟩ := staged_fopenWrite hopen
        rw [hfiles] at hstaged
        refine ⟨⟨⟨w₁, hfetch⟩, hopened⟩, ?_⟩
        obtain ⟨w₃, hread, hunlink⟩ := removeOnError_eq_error.1 h
        exact ⟨w₃, (preserves_readTemporary hpath _).error hstaged hread, hunlink⟩

/-- The hash is not obtained: its request fails, or the body of the response is too short. -/
def HashRefused (env : Environment) (url : Bytes) (w : World) : Prop :=
  (∃ e w', contextPart.run (fetch env.hashExchange url (str "text/plain")) w = .error e w') ∨
    ∃ w₁ w₂, contextPart.run (fetch env.hashExchange url (str "text/plain")) w = .ok () w₁ ∧
      contextPart.run httpResponseRead w₁ = .ok () w₂ ∧
        w₂.context.response.body.length < sha256DigestSize

/-- **The download of the hash**: the text is the beginning of the body of a response with
status 200. -/
theorem downloadHash_eq_ok {url rsha256 : Bytes} {w w' : World}
    (h : downloadHash env url rulesetFile w = .ok rsha256 w')
    (hbody : w.context.response.body = []) :
    w'.files = w.files ∧ w'.created = w.created ∧ ¬ HashRefused env url w ∧
      env.hashExchange.statusCode = statusOk ∧ ∃ hash, env.hashExchange.body = some hash ∧
        rsha256 = (hash.take sha256DigestSize).map lowerHex := by
  simp only [downloadHash, run_bind_eq_ok, run_get_eq_ok, run_set_eq_ok, require_eq_ok,
    removeOnError_eq_ok, run_pure_eq_ok] at h
  obtain ⟨_, w₁, hfetch, _, w₂, hread, _, _, ⟨rfl, rfl⟩, _, _, ⟨hsize, rfl⟩, _, _, rfl, rfl, rfl⟩ := h
  obtain ⟨hrun, hfiles₁, hcreated₁⟩ := contextPart_run_eq_ok hfetch
  obtain ⟨hrun₂, hfiles₂, hcreated₂⟩ := contextPart_run_eq_ok hread
  have hanswered := answered_of_fetch hrun hbody
  refine ⟨hfiles₂.trans hfiles₁, hcreated₂.trans hcreated₁, ?_, hanswered.status, _,
    body_of_httpResponseRead hanswered hrun₂, rfl⟩
  rintro (⟨e, w', herror⟩ | ⟨w₁', w₂', hfetch', hread', hshort⟩)
  · rw [hfetch] at herror
    cases herror
  · obtain ⟨-, rfl⟩ := EStateM.Result.ok.inj (hfetch.symm.trans hfetch')
    obtain ⟨-, rfl⟩ := EStateM.Result.ok.inj (hread.symm.trans hread')
    have := of_decide_eq_true hsize
    omega

/-- A download of the hash that fails: it is refused and the temporary file stays, or the
temporary file is removed. -/
theorem downloadHash_eq_error {url : Bytes} {e : ErrorCode} {w w' : World}
    (h : downloadHash env url rulesetFile w = .error (.code e) w')
    (hstaged : Staged files rulesetFile w) :
    (HashRefused env url w ∧ Staged files rulesetFile w') ∨
      (¬ HashRefused env url w ∧
        ∃ w₁, Staged files rulesetFile w₁ ∧ w₁.unlink env.disk rulesetFile = w') := by
  rw [downloadHash, run_bind_eq_error] at h
  rcases h with h | ⟨_, w₁, hfetch, h⟩
  · exact .inl ⟨.inl ⟨_, _, h⟩, (preserves_contextPart _).error hstaged h⟩
  · have hstaged₁ := (preserves_contextPart _).ok hstaged hfetch
    rw [run_bind_eq_error] at h
    rcases h with h | ⟨_, w₂, hread, h⟩
    · right
      obtain ⟨w₂, hread, hunlink⟩ := removeOnError_eq_error.1 h
      refine ⟨?_, w₂, (preserves_contextPart _).error hstaged₁ hread, hunlink⟩
      rintro (⟨e', w'', herror⟩ | ⟨w₁', w₂', hfetch', hread', -⟩)
      · rw [hfetch] at herror
        cases herror
      · obtain ⟨-, rfl⟩ := EStateM.Result.ok.inj (hfetch.symm.trans hfetch')
        rw [hread] at hread'
        cases hread'
    · left
      rw [removeOnError_eq_ok] at hread
      have hstaged₂ := (preserves_contextPart _).ok hstaged₁ hread
      rw [run_bind_eq_error] at h
      rcases h with h | ⟨w₃, _, hget, h⟩
      · cases h
      · obtain ⟨rfl, rfl⟩ := run_get_eq_ok.1 hget
        rw [run_bind_eq_error] at h
        rcases h with h | ⟨_, _, hsize, h⟩
        · obtain ⟨hshort, -, rfl⟩ := require_eq_error.1 h
          have hlt := of_decide_eq_false hshort
          exact ⟨.inr ⟨w₁, w₂, hfetch, hread, by omega⟩, hstaged₂⟩
        · rw [run_bind_eq_error] at h
          rcases h with h | ⟨_, _, _, h⟩
          · cases h
          · cases h

/-- The hash of the temporary file is the text that was downloaded. -/
theorem compareHash_eq_ok {rsha256 content : Bytes} {w w' : World}
    (h : compareHash env libs rulesetFile rsha256 w = .ok () w')
    (hfile : w.files rulesetFile = some content) :
    rsha256 = hexText (libs.sha256 content) ∧ w' = w := by
  simp only [compareHash, run_bind_eq_ok, require_eq_ok] at h
  obtain ⟨lsha256, w₁, hdigest, heq, rfl⟩ := h
  obtain ⟨rfl, rfl⟩ := sha256Digest_eq_ok hfile hdigest
  exact ⟨(of_decide_eq_true heq).symm, rfl⟩

theorem preserves_compareHash (rsha256 : Bytes) :
    Preserves (Staged files rulesetFile) (compareHash env libs rulesetFile rsha256) := by
  have hkeeps : Keeps (fun w : World => w) (compareHash env libs rulesetFile rsha256) := by
    apply Keeps.bind (keeps_sha256Digest _ _ _ _)
    intro lsha256
    exact keeps_require _ _ _
  exact hkeeps.preserves _

/-- The temporary file was loaded on trial. -/
theorem tryLoad_eq_ok {content : Bytes} {w w' : World}
    (h : tryLoad env libs rulesetFile w = .ok () w')
    (hfile : w.files rulesetFile = some content) :
    Succeeds (loadParsed libs.compile libs.jsonLoads content {}).1 ∧ w' = w := by
  simp only [tryLoad, run_bind_eq_ok, run_get_eq_ok, ofOutcome_eq_ok] at h
  obtain ⟨_, _, ⟨rfl, rfl⟩, hload, rfl⟩ := h
  refine ⟨?_, rfl⟩
  by_cases hopen : env.disk.loadTemporary = true
  · simp only [hopen, if_true, loadFile, loadParsed, hfile, Option.bind_some] at hload ⊢
    exact ⟨(), hload⟩
  · simp only [hopen, loadFile, loadParsed] at hload
    exact absurd hload (fail_ne_ok _ _)

theorem preserves_tryLoad : Preserves (Staged files rulesetFile) (tryLoad env libs rulesetFile) := by
  have hkeeps : Keeps (fun w : World => w) (tryLoad env libs rulesetFile) := by
    apply Keeps.bind Keeps.get
    intro w
    exact keeps_ofOutcome _ _
  exact hkeeps.preserves _

end Steps

end Unalix
