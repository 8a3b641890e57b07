import Unalix.Ruleset.Installed
import Unalix.Foundations.Hex

/-!
# The hash check of an update (`ruleset.c`, `sha256.c`)

`sha256_digest` feeds a file to the hash function chunk by chunk and writes the digest as hexadecimal
digits, the letters among them in lower case; `ruleset_update` folds the letters of the text it has
downloaded to lower case and compares. With a hash function that does not depend on how its input is
cut (`StreamHash`), the check passes exactly for the texts that are read as the digest of the file
(`rulesetUpdate_hash_iff`).
-/

namespace Unalix

open Ascii Outcome Calls

/-! ## The digest of a file -/

/-- `br_sha256_SIZE`. -/
def brSha256Size : ℕ := 32

/-- A hash function that is fed chunk by chunk: its digest is the one of all that it was fed. -/
structure StreamHash (State : Type) where
  init : State
  update : State → Bytes → State
  out : State → Bytes
  whole : Bytes → Bytes
  out_foldl : ∀ chunks : List Bytes, out (chunks.foldl update init) = whole chunks.flatten
  length_whole : ∀ content, (whole content).length = brSha256Size

namespace StreamHash

variable {State Code : Type} (hash : StreamHash State)

/-- The libraries of an update that has this hash function. -/
def libraries (libs : Libraries Code) : Libraries Code := { libs with sha256 := hash.whole }

/-- `sha256_digest` with its loops over the chunks of the file and over the bytes of the digest. -/
def digestFile (disk : Disk) (filename : Bytes) : Call Bytes := do
  let w ← get
  match w.files filename with
  | none => throw (.code .fileCannotOpen)
  | some content =>
    if !disk.openDigest then throw (.code .fileCannotOpen)
    else if !disk.readDigest then throw (.code .fileCannotRead)
    else
      let context := (freads content).foldl hash.update hash.init
      return hexText ((hash.out context).take brSha256Size)

/-- **The digest of a file** does not depend on the size of its chunks. -/
theorem digestFile_eq (disk : Disk) (filename : Bytes) :
    hash.digestFile disk filename = sha256Digest disk hash.whole filename := by
  have hout (content : Bytes) :
      (hash.out ((freads content).foldl hash.update hash.init)).take brSha256Size =
        hash.whole content := by
    rw [hash.out_foldl, flatten_freads, ← hash.length_whole content, List.take_length]
  rw [digestFile, sha256Digest]
  refine congrArg (get >>= ·) (funext fun w => ?_)
  cases w.files filename with
  | none => rfl
  | some content => simp only [hout]

/-- The text of a digest fills its array, so comparing the array is comparing the text. -/
theorem length_hexText_whole (content : Bytes) :
    (hexText (hash.whole content)).length = sha256DigestSize := by
  have hpair (digest : Bytes) : (hexText digest).length = 2 * digest.length := by
    induction digest with
    | nil => rfl
    | cons ch digest ih =>
      rw [hexText, List.flatMap_cons, List.length_append, ← hexText, ih, List.length_cons]
      simp only [List.length_cons, List.length_nil]
      omega
  rw [hpair, hash.length_whole]
  rfl

end StreamHash

/-! ## The two texts -/

/-- The digits of `to_hex` are the folded ones of their values. -/
theorem lowerHex_eq_toHex_iff (c : UInt8) (n : ℕ) (hn : n < 16) :
    lowerHex c = toHex n.toUInt8 ↔ Hex.digitValue c = some n := by
  have hall : ∀ n, n < 16 → (lowerHex c = toHex n.toUInt8 ↔ Hex.digitValue c = some n) :=
    forall_byte (p := fun c => ∀ n, n < 16 →
      (lowerHex c = toHex n.toUInt8 ↔ Hex.digitValue c = some n)) (by decide +kernel) c
  exact hall n hn

/-- The text of a digest by the halves of its bytes. -/
theorem hexText_eq (digest : Bytes) : hexText digest =
    digest.flatMap fun b => [toHex (b.toNat / 16).toUInt8, toHex (b.toNat % 16).toUInt8] := by
  have hhalves : ∀ b : UInt8, ((b &&& 0xF0) >>> 4 = (b.toNat / 16).toUInt8) ∧
      b &&& 0x0F = (b.toNat % 16).toUInt8 :=
    forall_byte (p := fun b => ((b &&& 0xF0) >>> 4 = (b.toNat / 16).toUInt8) ∧
      b &&& 0x0F = (b.toNat % 16).toUInt8) (by decide +kernel)
  rw [hexText]
  congr 1
  funext b
  rw [(hhalves b).1, (hhalves b).2]

/-- **The normalised text is the text of a digest** if and only if it is read as the digest. -/
theorem map_lowerHex_eq_iff {s digest : Bytes} :
    s.map lowerHex = hexText digest ↔ Hex.decode s = some digest := by
  rw [hexText_eq]
  exact Hex.map_eq_flatMap_iff lowerHex_eq_toHex_iff

/-- The body of a response that passes: it begins with 64 hexadecimal digits, and they are the
digest of the content. -/
def HashMatches (sha256 : Bytes → Bytes) (content body : Bytes) : Prop :=
  sha256DigestSize ≤ body.length ∧
    Hex.decode (body.take sha256DigestSize) = some (sha256 content)

instance (sha256 : Bytes → Bytes) (content body : Bytes) :
    Decidable (HashMatches sha256 content body) := by
  unfold HashMatches
  infer_instance

/-! ## The check -/

section Check

variable {Code : Type} (env : Environment) (libs : Libraries Code)

/-- The two downloads of an update with a hash: the file, and the body of the response for the hash. -/
def downloadBoth (url sha256Url rulesetFile : Bytes) : Call Unit := do
  downloadRules env url rulesetFile
  contextPart.run (fetch env.hashExchange sha256Url (str "text/plain"))
  contextPart.run httpResponseRead

/-- `ruleset_update` up to the end of the hash check. -/
def updateToCheck (url sha256Url rulesetFile : Bytes) : Call Unit := do
  downloadRules env url rulesetFile
  checkHash env libs (some sha256Url) rulesetFile

variable {env libs}

/-- The hash is cut out of a body that was received, or refused for its length. -/
theorem downloadHash_of_received {sha256Url rulesetFile : Bytes} {w w₁ w₂ : World}
    (hfetch : contextPart.run (fetch env.hashExchange sha256Url (str "text/plain")) w = .ok () w₁)
    (hread : contextPart.run httpResponseRead w₁ = .ok () w₂) :
    downloadHash env sha256Url rulesetFile w =
      if sha256DigestSize ≤ w₂.context.response.body.length then
        .ok ((w₂.context.response.body.take sha256DigestSize).map lowerHex) w₂.freeContext
      else .error (.code .rulesetsMismatchHash) w₂ := by
  have hremove : removeOnError env.disk rulesetFile (contextPart.run httpResponseRead) w₁ =
      .ok () w₂ := removeOnError_eq_ok.2 hread
  have hget : (get : Call World) w₂ = .ok w₂ w₂ := rfl
  simp only [downloadHash, run_bind, hfetch, hremove, hget]
  by_cases hsize : sha256DigestSize ≤ w₂.context.response.body.length
  · have hrequire : (require (sha256DigestSize ≤ w₂.context.response.body.length)
        .rulesetsMismatchHash : Call Unit) w₂ = .ok () w₂ := require_eq_ok.2 ⟨by simpa, rfl⟩
    rw [if_pos hsize, hrequire]
    rfl
  · have hrequire : (require (sha256DigestSize ≤ w₂.context.response.body.length)
        .rulesetsMismatchHash : Call Unit) w₂ = .error (.code .rulesetsMismatchHash) w₂ :=
      require_eq_error.2 ⟨by simpa using hsize, rfl, rfl⟩
    rw [if_neg hsize, hrequire]

/-- The comparison of a file that can be read. -/
theorem compareHash_of_readable {rulesetFile content rsha256 : Bytes} {w : World}
    (hfile : w.files rulesetFile = some content) (hopen : env.disk.openDigest = true)
    (hread : env.disk.readDigest = true) :
    compareHash env libs rulesetFile rsha256 w =
      if hexText (libs.sha256 content) = rsha256 then .ok () w
      else .error (.code .rulesetsMismatchHash) w := by
  have hdigest : sha256Digest env.disk libs.sha256 rulesetFile w =
      .ok (hexText (libs.sha256 content)) w := by
    simp only [sha256Digest, run_get_bind, hfile, hopen, hread]
    rfl
  simp only [compareHash, run_bind, hdigest]
  split_ifs with heq
  · exact require_eq_ok.2 ⟨by simpa, rfl⟩
  · exact require_eq_error.2 ⟨by simpa using heq, rfl, rfl⟩

/-- **The check**, when the body for the hash was received and the file can be read. -/
theorem checkHash_of_received {sha256Url rulesetFile content : Bytes} {w w₁ w₂ : World}
    (hfetch : contextPart.run (fetch env.hashExchange sha256Url (str "text/plain")) w = .ok () w₁)
    (hread : contextPart.run httpResponseRead w₁ = .ok () w₂)
    (hfile : w.files rulesetFile = some content) (hopen : env.disk.openDigest = true)
    (hreadDigest : env.disk.readDigest = true) :
    if HashMatches libs.sha256 content w₂.context.response.body then
      checkHash env libs (some sha256Url) rulesetFile w = .ok () w₂.freeContext
    else ∃ w', checkHash env libs (some sha256Url) rulesetFile w =
      .error (.code .rulesetsMismatchHash) w' := by
  have hfile₂ : w₂.freeContext.files rulesetFile = some content := by
    have hfiles₁ := (contextPart_run_eq_ok hfetch).2.1
    have hfiles₂ := (contextPart_run_eq_ok hread).2.1
    change w₂.files rulesetFile = some content
    rw [hfiles₂, hfiles₁, hfile]
  have hdownload := @downloadHash_of_received env sha256Url rulesetFile _ _ _ hfetch hread
  have hcheck : checkHash env libs (some sha256Url) rulesetFile w =
      (downloadHash env sha256Url rulesetFile >>= fun rsha256 =>
        removeOnError env.disk rulesetFile (compareHash env libs rulesetFile rsha256)) w := rfl
  rw [hcheck, run_bind, hdownload]
  by_cases hsize : sha256DigestSize ≤ w₂.context.response.body.length
  · have hcompare := @compareHash_of_readable _ env libs rulesetFile content
      ((w₂.context.response.body.take sha256DigestSize).map lowerHex) w₂.freeContext hfile₂ hopen
      hreadDigest
    have hmatches : HashMatches libs.sha256 content w₂.context.response.body ↔
        hexText (libs.sha256 content) =
          (w₂.context.response.body.take sha256DigestSize).map lowerHex := by
      rw [HashMatches, and_iff_right hsize, ← map_lowerHex_eq_iff]
      exact eq_comm
    rw [if_pos hsize]
    simp only [removeOnError, hcompare, hmatches]
    split_ifs
    · rfl
    · exact ⟨_, rfl⟩
  · rw [if_neg hsize, if_neg fun h => hsize h.1]
    exact ⟨w₂, rfl⟩

end Check

/-- **The hash check is exact**: with a URL for the hash, when both downloads have succeeded and the
file can be read, the update passes the check if and only if the body for the hash begins with the
digest of what the download has left in the file; otherwise it returns
`UNALIXERR_RULESETS_MISMATCH_HASH`. -/
theorem rulesetUpdate_hash_iff {Code State : Type} (hash : StreamHash State) (libs : Libraries Code)
    {env : Environment} (filename : Bytes) {url sha256Url temporaryDirectory content body : Bytes}
    {w w' : World} (hcontext : w.context.response.body = [])
    (hrun : downloadBoth env url sha256Url (temporaryDirectory ++ rulesetTemporaryFile) w = .ok () w')
    (hcontent : env.exchange.body.map (upTo env.disk.temporaryKept) = some content)
    (hbody : env.hashExchange.body = some body)
    (hopen : env.disk.openDigest = true) (hread : env.disk.readDigest = true) :
    ((∃ w₁, updateToCheck env (hash.libraries libs) url sha256Url
        (temporaryDirectory ++ rulesetTemporaryFile) w = .ok () w₁) ↔
      HashMatches hash.whole content body) ∧
    (¬ HashMatches hash.whole content body →
      ∃ w₁, rulesetUpdate env (hash.libraries libs) filename url (some sha256Url)
        temporaryDirectory w = .error (.code .rulesetsMismatchHash) w₁) := by
  simp only [downloadBoth, run_bind_eq_ok] at hrun
  obtain ⟨_, w₁, hdownload, _, w₂, hfetch, hreceived⟩ := hrun
  obtain ⟨-, -, -, hfile, hempty⟩ := downloadRules_eq_ok hdownload hcontext
  rw [hcontent] at hfile
  have hanswered := answered_of_fetch (contextPart_run_eq_ok hfetch).1 hempty
  have hserved := body_of_httpResponseRead hanswered (contextPart_run_eq_ok hreceived).1
  rw [hbody] at hserved
  have hcheck := @checkHash_of_received _ env (hash.libraries libs) _ _ _ _ _ _ hfetch hreceived hfile
    hopen hread
  rw [← Option.some.inj hserved] at hcheck
  change if HashMatches hash.whole content body then _ else _ at hcheck
  by_cases hmatches : HashMatches hash.whole content body
  · rw [if_pos hmatches] at hcheck
    refine ⟨iff_of_true ⟨w'.freeContext, ?_⟩ hmatches, fun hno => absurd hmatches hno⟩
    simp only [updateToCheck, run_bind, hdownload, hcheck]
  · rw [if_neg hmatches] at hcheck
    obtain ⟨w₃, hmismatch⟩ := hcheck
    refine ⟨iff_of_false ?_ hmatches, fun _ => ⟨w₃, ?_⟩⟩
    · rintro ⟨w₄, h⟩
      simp only [updateToCheck, run_bind, hdownload, hmismatch] at h
      cases h
    · simp only [rulesetUpdate, run_bind, hdownload, hmismatch]

/-! ## An example -/

/-- The digest of the rules without providers. -/
def emptyRulesDigest : Bytes :=
  [154, 236, 244, 56, 195, 249, 35, 206, 2, 244, 136, 190, 37, 202, 230, 72,
    6, 141, 99, 37, 53, 213, 236, 77, 56, 176, 250, 106, 187, 107, 5, 95]

/-- A hash function that keeps what it is fed, and knows one digest. -/
def hashExample : StreamHash Bytes where
  init := []
  update context chunk := context ++ chunk
  out context := if context = emptyRulesText then emptyRulesDigest else List.replicate 32 0
  whole content := if content = emptyRulesText then emptyRulesDigest else List.replicate 32 0
  out_foldl chunks := by
    have hfold (context : Bytes) :
        chunks.foldl (fun context chunk => context ++ chunk) context = context ++ chunks.flatten := by
      induction chunks generalizing context with
      | nil => rw [List.foldl_nil, List.flatten_nil, List.append_nil]
      | cons chunk chunks ih => rw [List.foldl_cons, ih, List.flatten_cons, List.append_assoc]
    rw [hfold, List.nil_append]
  length_whole content := by split_ifs <;> rfl

/-- The digest with letters of both cases, and what may follow it. -/
def hashBodyExample : Bytes :=
  str "9AECF438C3F923CE02F488BE25CAE648068d632535d5ec4d38b0fa6abb6b055f  ruleset.json\n"

/-- The servers of the example. -/
def hashEnvironment : Environment := { updateExample .done with
  hashExchange := { incoming :=
    [.chunk (str "HTTP/1.0 200 OK\r\nServer: x\r\n\r\n" ++ hashBodyExample)] } }

/-- A run of the example. -/
def hashWorld : World := { files := fun _ => none, context := updateContext }

/-- **A hash with capital letters** and more behind it passes. -/
theorem rulesetUpdate_hash_passes :
    ∃ w, updateToCheck hashEnvironment (hashExample.libraries librariesExample)
      (str "http://example.com/rules") (str "http://example.com/hash")
      (str "/tmp/" ++ rulesetTemporaryFile) hashWorld = .ok () w := by
  have hok : hasValue (downloadBoth hashEnvironment (str "http://example.com/rules")
      (str "http://example.com/hash") (str "/tmp/" ++ rulesetTemporaryFile) hashWorld) = true := by
    decide +kernel
  obtain ⟨_, w, hrun⟩ := exists_of_hasValue hok
  have hmatches : HashMatches hashExample.whole emptyRulesText hashBodyExample := by decide +kernel
  exact (rulesetUpdate_hash_iff hashExample librariesExample (str "rules.json") rfl hrun
    (by decide +kernel) (by decide +kernel) rfl rfl).1.2 hmatches

end Unalix
