import Unalix.Http.Exchange

/-!
# Files (`utils.c`, `sha256.c`)

The file system is a map from names to contents, and a `Disk` says how the calls on it end during
a run. What `fwrite` accepts is in a buffer until the stream is closed; how much of it reaches the
file is an outcome of `fclose`, whose result no function tests. `move_file` renames; across devices
it copies and removes the source. Its callers test the result against zero, and the three results do
not fit that test: what has happened is `moved_of_eq_ok`.
-/

namespace Unalix

open Calls

/-- The result of `rename`: done, `EXDEV`, or another error. -/
inductive RenameResult
  | done | crossDevice | failed
  deriving DecidableEq, Repr

/-- How the calls on the file system end: which files can be opened, how many bytes can be written
to a stream before `fwrite` is short, how many of the accepted ones have reached the file when
`fclose` returns, and how many can be read before `fread` fails. `ferrorClosed` is the value of
`ferror` on a stream that has been closed. -/
structure Disk where
  openTemporary : Bool := true
  temporaryRoom : Option ℕ := none
  temporaryKept : Option ℕ := none
  openDigest : Bool := true
  readDigest : Bool := true
  loadTemporary : Bool := true
  rename : RenameResult := .done
  openSource : Bool := true
  openDestination : Bool := true
  sourceLimit : Option ℕ := none
  destinationRoom : Option ℕ := none
  destinationKept : Option ℕ := none
  ferrorClosed : Bool := false
  unlink : Bool := true
  deriving DecidableEq, Repr

/-- The state of a run: the contents of the files, the names that were opened for writing, and the
context of its HTTP exchanges. Different names are different files. While a file is open for writing,
its content is what its stream has accepted. -/
structure World where
  files : Bytes → Option Bytes
  created : List Bytes := []
  context : HTTPContext := {}

abbrev Call (α : Type) := EStateM Failure World α

def contextPart : Part World HTTPContext where
  get := World.context
  set w context := { w with context := context }

/-- A file gets a content, or is removed. -/
def World.put (w : World) (path : Bytes) (content : Option Bytes) : World :=
  { w with files := Function.update w.files path content }

@[simp] theorem World.files_put_self (w : World) (path : Bytes) (content : Option Bytes) :
    (w.put path content).files path = content := by
  simp [put]

theorem World.files_put_of_ne {path p : Bytes} (h : p ≠ path) (w : World)
    (content : Option Bytes) : (w.put path content).files p = w.files p := by
  simp [put, h]

@[simp] theorem World.created_put (w : World) (path : Bytes) (content : Option Bytes) :
    (w.put path content).created = w.created := rfl

/-! ## Streams -/

/-- A `FILE` that is open for writing. -/
structure Stream where
  path : Bytes
  room : Option ℕ

/-- `fopen(path, "wb")`: the file is emptied. -/
def fopenWrite (opens : Bool) (room : Option ℕ) (path : Bytes) : Call (Option Stream) := fun w =>
  if opens then
    .ok (some ⟨path, room⟩) { w.put path (some []) with created := w.created ++ [path] }
  else .ok none w

/-- How many bytes `fwrite` can write. -/
def Stream.accepts (stream : Stream) (bytes : Bytes) : ℕ :=
  match stream.room with
  | none => bytes.length
  | some room => min room bytes.length

/-- `fwrite`: the number of bytes that were written, and the stream after it. -/
def fwrite (stream : Stream) (bytes : Bytes) : Call (ℕ × Stream) := fun w =>
  let written := stream.accepts bytes
  .ok (written, { stream with room := stream.room.map fun room => room - written })
    (w.put stream.path (some ((w.files stream.path).getD [] ++ bytes.take written)))

/-- A successful `fwrite` appends. -/
theorem fwrite_eq_ok {stream stream' : Stream} {bytes : Bytes} {n : ℕ} {w w' : World}
    (h : fwrite stream bytes w = .ok (n, stream') w') :
    stream'.path = stream.path ∧
      w' = w.put stream.path (some ((w.files stream.path).getD [] ++ bytes.take n)) := by
  simp only [fwrite, EStateM.Result.ok.injEq, Prod.mk.injEq] at h
  obtain ⟨⟨rfl, rfl⟩, rfl⟩ := h
  exact ⟨rfl, rfl⟩

/-- The bytes up to a limit, if there is one. -/
def upTo (limit : Option ℕ) (bytes : Bytes) : Bytes :=
  match limit with
  | none => bytes
  | some limit => bytes.take limit

theorem isPrefix_upTo (limit : Option ℕ) (bytes : Bytes) : upTo limit bytes <+: bytes := by
  cases limit with
  | none => exact List.prefix_refl bytes
  | some limit => exact List.take_prefix limit bytes

/-- A beginning of a text that is cut is the whole text only if nothing is missing at first, and the
cut takes nothing. -/
theorem upTo_eq_iff {limit : Option ℕ} {part bytes : Bytes} (h : part <+: bytes) :
    upTo limit part = bytes ↔ part = bytes ∧ upTo limit bytes = bytes := by
  constructor
  · intro hcut
    have hle := (isPrefix_upTo limit part).length_le
    rw [hcut] at hle
    have hwhole : part = bytes := h.eq_of_length_le hle
    rw [hwhole] at hcut
    exact ⟨hwhole, hcut⟩
  · rintro ⟨rfl, hcut⟩
    exact hcut

/-- The file of a stream when it is closed: the last bytes that the stream has accepted may be
lost. -/
def World.close (w : World) (kept : Option ℕ) (path : Bytes) : World :=
  { w with files := Function.update w.files path ((w.files path).map (upTo kept)) }

@[simp] theorem World.files_close_self (w : World) (kept : Option ℕ) (path : Bytes) :
    (w.close kept path).files path = (w.files path).map (upTo kept) := by
  simp [close]

theorem World.files_close_of_ne {path p : Bytes} (h : p ≠ path) (w : World) (kept : Option ℕ) :
    (w.close kept path).files p = w.files p := by
  simp [close, h]

@[simp] theorem World.created_close (w : World) (kept : Option ℕ) (path : Bytes) :
    (w.close kept path).created = w.created := rfl

/-- `fclose`; nothing tests its result. -/
def fclose (kept : Option ℕ) (stream : Stream) : Call Unit :=
  modify fun w => w.close kept stream.path

/-- `FILERW_MAX_CHUNK_SIZE`. -/
def filerwMaxChunkSize : ℕ := 8192

/-- What the calls of `fread` return, one after the other, until one returns nothing. -/
def freads (content : Bytes) : List Bytes :=
  if content = [] then []
  else content.take filerwMaxChunkSize :: freads (content.drop filerwMaxChunkSize)
termination_by content.length
decreasing_by
  have := List.length_pos_iff.2 ‹¬ content = []›
  simp only [List.length_drop, filerwMaxChunkSize]
  omega

theorem flatten_freads (content : Bytes) : (freads content).flatten = content := by
  induction hn : content.length using Nat.strong_induction_on generalizing content with
  | _ n ih =>
    rw [freads]
    split_ifs with hnil
    · rw [hnil, List.flatten_nil]
    · have hpos := List.length_pos_iff.2 hnil
      have hlt : (content.drop filerwMaxChunkSize).length < n := by
        simp only [List.length_drop, filerwMaxChunkSize]
        omega
      rw [List.flatten_cons, ih _ hlt _ rfl, List.take_append_drop]

/-! ## `remove_file`, `copy_file`, `move_file` -/

section Disk

variable (disk : Disk)

/-- `remove_file`. -/
def removeFile (path : Bytes) : Call Bool := fun w =>
  if disk.unlink then .ok true (w.put path none) else .ok false w

/-- The loop of `copy_file`. After the last `fread` the streams are closed and `ferror` is asked. -/
def copyLoop : List Bytes → Stream → Call Bool
  | [], stream => do
    fclose disk.destinationKept stream
    return !disk.ferrorClosed
  | chunk :: chunks, stream => do
    let (wsize, stream) ← fwrite stream chunk
    if wsize ≠ chunk.length then do
      fclose disk.destinationKept stream
      return false
    else copyLoop chunks stream

/-- `copy_file`. -/
def copyFile (source destination : Bytes) : Call Bool := do
  let w ← get
  match w.files source with
  | none => return false
  | some content =>
    if !disk.openSource then return false
    else do
      let dfile ← fopenWrite disk.openDestination disk.destinationRoom destination
      match dfile with
      | none => return false
      | some stream => copyLoop disk (freads (upTo disk.sourceLimit content)) stream

/-- `rename`; for one and the same file it does nothing. -/
def renameFile (source destination : Bytes) : Call RenameResult := fun w =>
  if source = destination then .ok .done w
  else match disk.rename with
    | .done => .ok .done ((w.put destination (w.files source)).put source none)
    | result => .ok result w

/-- `move_file`: a C truth value. -/
def moveFile (source destination : Bytes) : Call ℤ := do
  match ← renameFile disk source destination with
  | .done => return 1
  | .crossDevice =>
    if ← copyFile disk source destination then
      let _ ← removeFile disk source
      return 1
    else return 0
  | .failed => return -1

variable {disk}

theorem fclose_eq_ok {kept : Option ℕ} {stream : Stream} {u : Unit} {w w' : World} :
    fclose kept stream w = .ok u w' ↔ w.close kept stream.path = w' := by
  rw [fclose, run_modify_eq_ok]

/-- **The loop of `copy_file`** touches one file, and appends all chunks to it if it succeeds, up to
what is lost when the file is closed. -/
theorem copyLoop_eq_ok {chunks : List Bytes} {stream : Stream} {b : Bool} {w w' : World}
    (h : copyLoop disk chunks stream w = .ok b w') :
    (∀ p, p ≠ stream.path → w'.files p = w.files p) ∧ w'.created = w.created ∧
      ∀ old, w.files stream.path = some old → b = true →
        w'.files stream.path = some (upTo disk.destinationKept (old ++ chunks.flatten)) := by
  induction chunks generalizing stream w with
  | nil =>
    simp only [copyLoop, run_bind_eq_ok, fclose_eq_ok, run_pure_eq_ok] at h
    obtain ⟨_, _, rfl, -, rfl⟩ := h
    refine ⟨fun p hp => World.files_close_of_ne hp w _, rfl, fun old hold _ => ?_⟩
    rw [World.files_close_self, hold, Option.map_some, List.flatten_nil, List.append_nil]
  | cons chunk chunks ih =>
    rw [copyLoop, run_bind_eq_ok] at h
    obtain ⟨⟨wsize, stream'⟩, w₁, hwrite, h⟩ := h
    obtain ⟨hpath, rfl⟩ := fwrite_eq_ok hwrite
    simp only at h
    split_ifs at h with hshort
    · simp only [run_bind_eq_ok, fclose_eq_ok, run_pure_eq_ok, hpath] at h
      obtain ⟨_, _, rfl, rfl, rfl⟩ := h
      refine ⟨fun p hp => ?_, rfl, fun old _ hb => by cases hb⟩
      rw [World.files_close_of_ne hp, World.files_put_of_ne hp]
    · obtain ⟨hframe, hcreated, hcopied⟩ := ih h
      rw [hpath] at hframe hcopied
      refine ⟨fun p hp => ?_, hcreated, fun old hold hb => ?_⟩
      · rw [hframe p hp, World.files_put_of_ne hp]
      · have hall : chunk.take wsize = chunk := by
          rw [not_not.1 hshort, List.take_length]
        rw [hcopied _ (World.files_put_self w _ _) hb, hold, Option.getD_some, hall,
          List.append_assoc, List.flatten_cons]

/-- **What `copy_file` does**: it touches the destination only, and a copy that succeeds holds the
bytes that could be read, up to what is lost when it is closed. -/
theorem copyFile_eq_ok {source destination content : Bytes} {b : Bool} {w w' : World}
    (hsource : w.files source = some content)
    (h : copyFile disk source destination w = .ok b w') :
    (∀ p, p ≠ destination → w'.files p = w.files p) ∧ w.created ⊆ w'.created ∧
      (b = true → w'.files destination =
        some (upTo disk.destinationKept (upTo disk.sourceLimit content))) := by
  simp only [copyFile, run_bind_eq_ok, run_get_eq_ok] at h
  obtain ⟨_, _, ⟨rfl, rfl⟩, h⟩ := h
  simp only [hsource] at h
  by_cases hopen : disk.openSource = true
  · simp only [hopen, Bool.not_true, Bool.false_eq_true, if_false, run_bind_eq_ok] at h
    obtain ⟨dfile, w₁, hfile, h⟩ := h
    unfold fopenWrite at hfile
    split_ifs at hfile with hdest
    · obtain ⟨rfl, rfl⟩ := EStateM.Result.ok.inj hfile
      obtain ⟨hframe, hcreated, hcopied⟩ := copyLoop_eq_ok h
      refine ⟨fun p hp => ?_, ?_, fun hb => ?_⟩
      · rw [hframe p hp]
        exact World.files_put_of_ne hp w _
      · rw [hcreated]
        exact List.subset_append_left _ _
      · rw [hcopied [] (World.files_put_self w _ _) hb, List.nil_append, flatten_freads]
    · obtain ⟨rfl, rfl⟩ := EStateM.Result.ok.inj hfile
      rw [run_pure_eq_ok] at h
      obtain ⟨rfl, rfl⟩ := h
      exact ⟨fun p _ => rfl, List.Subset.refl _, fun hb => by cases hb⟩
  · rw [Bool.not_eq_true] at hopen
    simp only [hopen, Bool.not_false, if_true, run_pure_eq_ok] at h
    obtain ⟨rfl, rfl⟩ := h
    exact ⟨fun p _ => rfl, List.Subset.refl _, fun hb => by cases hb⟩

theorem removeFile_eq_ok {path : Bytes} {b : Bool} {w w' : World}
    (h : removeFile disk path w = .ok b w') :
    w' = if disk.unlink then w.put path none else w := by
  unfold removeFile at h
  split_ifs at h ⊢
  · exact (EStateM.Result.ok.inj h).2.symm
  · exact (EStateM.Result.ok.inj h).2.symm

/-- The ways a move can end. -/
inductive Moved (disk : Disk) (source destination content : Bytes) (w : World) :
    ℤ → World → Prop
  | same (h : source = destination) : Moved disk source destination content w 1 w
  | renamed {w' : World} (hne : source ≠ destination) (hdisk : disk.rename = .done)
    (h : w'.files destination = some content) : Moved disk source destination content w 1 w'
  | copied {w' : World} (hne : source ≠ destination) (hdisk : disk.rename = .crossDevice)
    (h : w'.files destination =
      some (upTo disk.destinationKept (upTo disk.sourceLimit content))) :
    Moved disk source destination content w 1 w'
  | notCopied {w' : World} (hne : source ≠ destination) (hdisk : disk.rename = .crossDevice)
    (h : w'.files source = some content) (hcreated : w.created ⊆ w'.created) :
    Moved disk source destination content w 0 w'
  | notRenamed (hne : source ≠ destination) (hdisk : disk.rename = .failed) :
    Moved disk source destination content w (-1) w

theorem moved_of_eq_ok {source destination content : Bytes} {code : ℤ} {w w' : World}
    (hsource : w.files source = some content)
    (h : moveFile disk source destination w = .ok code w') :
    Moved disk source destination content w code w' := by
  rw [moveFile, run_bind_eq_ok] at h
  obtain ⟨result, w₁, hrename, h⟩ := h
  unfold renameFile at hrename
  split_ifs at hrename with hsame
  · obtain ⟨rfl, rfl⟩ := EStateM.Result.ok.inj hrename
    obtain ⟨rfl, rfl⟩ := run_pure_eq_ok.1 h
    exact .same hsame
  · have hne : destination ≠ source := fun heq => hsame heq.symm
    rcases hdisk : disk.rename with _ | _ | _
    · simp only [hdisk] at hrename
      obtain ⟨rfl, rfl⟩ := EStateM.Result.ok.inj hrename
      obtain ⟨rfl, rfl⟩ := run_pure_eq_ok.1 h
      refine .renamed hsame hdisk ?_
      rw [World.files_put_of_ne hne, World.files_put_self, hsource]
    · simp only [hdisk] at hrename
      obtain ⟨rfl, rfl⟩ := EStateM.Result.ok.inj hrename
      simp only [run_bind_eq_ok] at h
      obtain ⟨b, w₂, hcopy, h⟩ := h
      obtain ⟨hframe, hcreated, hcopied⟩ := copyFile_eq_ok hsource hcopy
      cases b with
      | true =>
        simp only [if_true, run_bind_eq_ok] at h
        obtain ⟨_, w₃, hremove, h⟩ := h
        obtain ⟨rfl, rfl⟩ := run_pure_eq_ok.1 h
        refine .copied hsame hdisk ?_
        rw [removeFile_eq_ok hremove]
        split_ifs
        · rw [World.files_put_of_ne hne, hcopied rfl]
        · exact hcopied rfl
      | false =>
        obtain ⟨rfl, rfl⟩ := run_pure_eq_ok.1 h
        refine .notCopied hsame hdisk ?_ hcreated
        rw [hframe source hsame, hsource]
    · simp only [hdisk] at hrename
      obtain ⟨rfl, rfl⟩ := EStateM.Result.ok.inj hrename
      obtain ⟨rfl, rfl⟩ := run_pure_eq_ok.1 h
      exact .notRenamed hsame hdisk

/-! The calls of this section have no errors of their own: they return what happened. -/

theorem neverFails_fwrite (stream : Stream) (bytes : Bytes) : NeverFails (fwrite stream bytes) :=
  fun _ _ _ => nofun

theorem neverFails_fopenWrite (opens : Bool) (room : Option ℕ) (path : Bytes) :
    NeverFails (fopenWrite opens room path) := by
  intro w e w' h
  unfold fopenWrite at h
  split_ifs at h

theorem neverFails_fclose (kept : Option ℕ) (stream : Stream) : NeverFails (fclose kept stream) :=
  fun _ _ _ => nofun

theorem neverFails_removeFile (path : Bytes) : NeverFails (removeFile disk path) := by
  intro w e w' h
  unfold removeFile at h
  split_ifs at h

theorem neverFails_copyLoop (chunks : List Bytes) (stream : Stream) :
    NeverFails (copyLoop disk chunks stream) := by
  induction chunks generalizing stream with
  | nil => exact NeverFails.bind (neverFails_fclose _ stream) fun _ => NeverFails.pure _
  | cons chunk chunks ih =>
    rw [copyLoop]
    apply NeverFails.bind (neverFails_fwrite stream chunk)
    intro written
    simp only
    split_ifs
    · exact NeverFails.bind (neverFails_fclose _ _) fun _ => NeverFails.pure _
    · exact ih _

theorem neverFails_copyFile (source destination : Bytes) :
    NeverFails (copyFile disk source destination) := by
  apply NeverFails.bind NeverFails.get
  intro w
  rcases w.files source with _ | content
  · exact NeverFails.pure _
  · simp only
    split_ifs
    · exact NeverFails.pure _
    · apply NeverFails.bind (neverFails_fopenWrite _ _ _)
      intro dfile
      cases dfile with
      | none => exact NeverFails.pure _
      | some stream => exact neverFails_copyLoop _ _

theorem neverFails_moveFile (source destination : Bytes) :
    NeverFails (moveFile disk source destination) := by
  have hrename : NeverFails (renameFile disk source destination) := by
    intro w e w' h
    unfold renameFile at h
    split_ifs at h
    cases hdisk : disk.rename <;> simp [hdisk] at h
  apply NeverFails.bind hrename
  intro result
  cases result with
  | done => exact NeverFails.pure _
  | failed => exact NeverFails.pure _
  | crossDevice =>
    apply NeverFails.bind (neverFails_copyFile source destination)
    intro copied
    cases copied with
    | false => exact NeverFails.pure _
    | true => exact NeverFails.bind (neverFails_removeFile source) fun _ => NeverFails.pure _

end Disk

/-! ## Digests -/

/-- `to_hex`. -/
def toHex (ch : UInt8) : UInt8 := ch + (if 9 < ch then 97 - 10 else 48)

/-- The text of a digest: two digits a byte. -/
def hexText (digest : Bytes) : Bytes :=
  digest.flatMap fun (ch : UInt8) => [toHex ((ch &&& 0xF0) >>> 4), toHex (ch &&& 0x0F)]

/-- `sha256_digest`, for a hash function of the library. -/
def sha256Digest (disk : Disk) (sha256 : Bytes → Bytes) (filename : Bytes) : Call Bytes := do
  let w ← get
  match w.files filename with
  | none => throw (.code .fileCannotOpen)
  | some content =>
    if !disk.openDigest then throw (.code .fileCannotOpen)
    else if !disk.readDigest then throw (.code .fileCannotRead)
    else return hexText (sha256 content)

theorem sha256Digest_eq_ok {disk : Disk} {sha256 : Bytes → Bytes} {filename content dst : Bytes}
    {w w' : World} (hfile : w.files filename = some content)
    (h : sha256Digest disk sha256 filename w = .ok dst w') :
    dst = hexText (sha256 content) ∧ w' = w := by
  simp only [sha256Digest, run_bind_eq_ok, run_get_eq_ok] at h
  obtain ⟨_, _, ⟨rfl, rfl⟩, h⟩ := h
  simp only [hfile] at h
  split_ifs at h
  · exact absurd h run_throw_ne_ok
  · exact absurd h run_throw_ne_ok
  · obtain ⟨rfl, rfl⟩ := run_pure_eq_ok.1 h
    exact ⟨rfl, rfl⟩

theorem keeps_sha256Digest {γ : Type} (f : World → γ) (disk : Disk) (sha256 : Bytes → Bytes)
    (filename : Bytes) : Keeps f (sha256Digest disk sha256 filename) := by
  apply Keeps.bind Keeps.get
  intro w
  rcases w.files filename with _ | content
  · exact Keeps.throw _
  · simp only
    split_ifs
    · exact Keeps.throw _
    · exact Keeps.throw _
    · exact Keeps.pure _

end Unalix
