import Unalix.Http.Connections
import Unalix.Unshort
import Unalix.Ruleset.CheckUpdate
import Unalix.Ruleset.Sessions

/-!
# The descriptors of a run (`unshort_url.c`, `ruleset.c`)

A run closes what it has opened, once, exactly when each of its contexts comes to a call of `socket`,
none is freed twice after one, and no response arrives from which the parser does not return
(`descriptors_closed_iff`).
-/

namespace Unalix

open Outcome Calls Chains Handles

/-! ## `unalix_ruleset_check_update` -/

/-- A check comes to its call of `socket`, and is answered safely: the time of the file is known and its
exchange comes so far. -/
def CheckComes {Tm : Type} (clock : Clock Tm) (exchange : Exchange) (filename url : Bytes) : Prop :=
  Succeeds (localTime clock filename) ∧ ComesToSocket exchange url ∧ AnswersSafely exchange url

section Check

variable {Tm : Type} (clock : Clock Tm) (exchange : Exchange) (filename url : Bytes)

theorem returns_mktimeOrFail (time : Tm) : Returns (mktimeOrFail clock time) := by
  unfold mktimeOrFail
  split_ifs <;> simp

theorem returns_orFail {α : Type} (result : Option α) (e : ErrorCode) : Returns (orFail result e) := by
  cases result with
  | none => exact returns_fail e
  | some a => exact returns_ok a

theorem returns_localTime : Returns (localTime clock filename) := by
  unfold localTime
  split_ifs
  · exact returns_fail _
  · exact returns_fail _
  · refine returns_bind_iff.2 ⟨returns_orFail _ _, fun time _ => ?_⟩
    refine returns_bind_iff.2 ⟨returns_mktimeOrFail clock _, fun (lastModified, time) _ => ?_⟩
    simp only
    split_ifs <;> simp

theorem returns_compareTimes (lastModified : ℤ) (response : HTTPResponse) :
    Returns (compareTimes clock lastModified response) := by
  unfold compareTimes
  split_ifs
  · exact returns_fail _
  · exact returns_fail _
  · split
    · exact returns_fail _
    · refine returns_bind_iff.2 ⟨returns_orFail _ _, fun time _ => ?_⟩
      refine returns_bind_iff.2 ⟨returns_mktimeOrFail clock _, fun (remote, _) _ => ?_⟩
      simp only
      split_ifs <;> simp

/-- **The calls of a check.** -/
theorem checkRulesetUpdate_disciplined_iff :
    Disciplined (callsAtEnd (checkRulesetUpdate clock exchange filename url checkUpdateContext)) ↔
      CheckComes clock exchange filename url := by
  have hfresh {e : ErrorCode} {context : HTTPContext} (h : descriptors context = (0, [])) :
      ¬ Disciplined (callsAtEnd (.error (.code e) context : EStateM.Result Failure HTTPContext Unit)) :=
    fun hcalls => by
      rw [callsAtEnd_of_not_crashed (not_crashed_code e context), final_error,
        callsAfterFree_eq h] at hcalls
      exact not_disciplined_close 0 [] hcalls
  rw [checkRulesetUpdate]
  rcases htime : localTime clock filename with (e | f) | ⟨lastModified, ifModifiedSince⟩
  · refine iff_of_false (hfresh rfl) ?_
    intro ⟨⟨_, hsucceeds⟩, _⟩
    cases htime.symm.trans hsucceeds
  · exact absurd htime (returns_localTime clock filename f)
  · rw [run_ofOutcome_bind]
    simp only
    rw [run_bind]
    rcases @contextSetUrl_cases checkUpdateContext rfl url with
      ⟨uri, request, hparse, -, huri, hset⟩ | ⟨e, hparse, hset⟩
    · rw [hset]
      simp only [contextAddHeader]
      rw [run_modify_bind, run_modify_bind, run_modify_bind]
      set c : HTTPContext := { checkUpdateContext with
        request := httpRequestAddHeader (httpRequestAddHeader (httpRequestAddHeader request
          httpHeaderUserAgent httpDefaultUserAgent) httpHeaderAccept (str "application/json"))
          httpHeaderIfModifiedSince ifModifiedSince }
      have htimes (_ : Unit) : Keeps descriptors (do
          let context ← get
          ofOutcome (compareTimes clock lastModified context.response)) :=
        Keeps.bind Keeps.get fun context => keeps_ofOutcome _ _
      have hcode (_ : Unit) : NeverCrashes (do
          let context ← (get : EStateM Failure HTTPContext HTTPContext)
          ofOutcome (compareTimes clock lastModified context.response)) :=
        NeverCrashes.bind (.of_neverFails NeverFails.get) fun context =>
          .ofOutcome (returns_compareTimes clock lastModified _)
      have htimeout : 0 < httpDefaultTimeout := by decide
      rcases @descriptors_send url uri c hparse huri htimeout exchange with
        ⟨hcomes, hfinal, hcrash⟩ | ⟨hnot, e, herror⟩
      · have hend := @disciplined_callsAtEnd_iff Unit _ exchange [] disciplined_nil
          ((observe_bind _ htimes c).trans hfinal)
        rw [NeverCrashes.bind_iff _ hcode, hcrash, not_not] at hend
        refine (hend exists_socket_of_not_answersSafely).trans ⟨fun hsafe => ?_, fun h => h.2.2⟩
        exact ⟨htime ▸ succeeds_ok _, hcomes, hsafe⟩
      · rw [run_bind, herror]
        exact iff_of_false (hfresh rfl) fun h => hnot h.2.1
    · rw [hset]
      exact iff_of_false (hfresh rfl) fun h => not_comesToSocket hparse h.2.1

end Check

/-! ## `unalix_unshort_url` -/

section Unshort

variable {clean : Bytes → Outcome Bytes} {server : Server} {userAgent : Option Bytes} {timeout : ℤ}
  {sourceUrl : Bytes} {s s' : Unshort}

theorem prepareRequest_cases (userAgent : Option Bytes) (url : Bytes) (timeout : ℤ) :
    (∃ uri context, uriParse {} url = .ok uri ∧
      prepareRequest userAgent url (unshortContext timeout) = .ok () context ∧
      context.request.uri = uri ∧ (∃ host, HasHost context.request host) ∧
      context.connection = (unshortContext timeout).connection) ∨
    ∃ e context, uriParse {} url = .error (.code e) ∧
      prepareRequest userAgent url (unshortContext timeout) = .error (.code e) context ∧
      descriptors context = (0, []) := by
  simp only [prepareRequest, contextAddHeader]
  rw [run_modify_bind, run_modify_bind]
  let added : List HTTPHeader :=
    [⟨httpHeaderAccept, str "*/*"⟩, ⟨httpHeaderUserAgent, chooseUserAgent userAgent⟩]
  let c : HTTPContext := { unshortContext timeout with
    request := addRequestHeaders (unshortContext timeout).request added }
  rcases @contextSetUrl_cases c rfl url with
    ⟨uri, request, hparse, hrequest, huri, hset⟩ | ⟨e, hparse, hset⟩
  · have hkeys : ∀ header ∈ added, header.key ≠ hostKey := by
      intro header hheader
      rcases List.mem_pair.1 hheader with rfl | rfl
      · exact (by decide : httpHeaderAccept ≠ hostKey)
      · exact (by decide : httpHeaderUserAgent ≠ hostKey)
    have hhost : HasHost request (hostValue request.uri) :=
      hasHost_of_setUrl [] rfl rfl hkeys hrequest
    exact .inl ⟨uri, _, hparse, hset, huri, ⟨_, hhost⟩, rfl⟩
  · exact .inr ⟨e, c, hparse, hset, rfl⟩

theorem timeout_unshortContext (timeout : ℤ) :
    0 < (unshortContext timeout).connection.timeout := by
  simp only [unshortContext, httpDefaultTimeout]
  split_ifs with h
  · exact h
  · decide

variable (clean server userAgent timeout sourceUrl) in
/-- A turn of the loop comes to its call of `socket` and is answered safely, or it ends before it has a
context. -/
def RoundComes (s : Unshort) : Prop :=
  ∀ url, clean (s.location.getD sourceUrl) = .ok url → ∃ context,
    prepareRequest userAgent url (unshortContext timeout) = .ok () context ∧
      ComesToSocket (server (s.requests ++ [context.request])) url ∧
      AnswersSafely (server (s.requests ++ [context.request])) url

/-- **The calls of a turn.** -/
theorem unshortRound_calls (s : Unshort) :
    let r := unshortRound clean server userAgent timeout sourceUrl s
    ∃ calls, r.2.calls = s.calls ++ calls ∧
      (Disciplined calls ↔ RoundComes clean server userAgent timeout sourceUrl s) ∧
      (¬ RoundComes clean server userAgent timeout sourceUrl s → ∃ e, r.1 = .error e) := by
  intro r
  have hclosed {e : ErrorCode} {context : HTTPContext} (h : descriptors context = (0, [])) :
      (freeAfter (fail e : Outcome (Option Bytes)) context).connection.calls = [.close 0] :=
    callsAfterFree_eq h
  simp only [r, unshortRound, RoundComes]
  cases hclean : clean (s.location.getD sourceUrl) with
  | error e =>
    refine ⟨[], (List.append_nil _).symm, iff_of_true disciplined_nil ?_, fun _ => ⟨e, rfl⟩⟩
    intro url hurl
    cases hurl
  | ok url =>
    simp only
    rcases prepareRequest_cases userAgent url timeout with
      ⟨uri, c, hparse, hprepare, huri, ⟨host, hhost⟩, hconnection⟩ | ⟨e, c, hparse, hprepare, hfresh⟩
    · rw [hprepare]
      simp only
      have hcalls : c.connection.calls = [] := by rw [hconnection]; rfl
      have htimeout : 0 < c.connection.timeout := by
        rw [hconnection]
        exact timeout_unshortContext timeout
      have hround : (∀ url', (.ok url : Outcome Bytes) = .ok url' → ∃ context,
          prepareRequest userAgent url' (unshortContext timeout) = .ok () context ∧
          ComesToSocket (server (s.requests ++ [context.request])) url' ∧
          AnswersSafely (server (s.requests ++ [context.request])) url') ↔
          ComesToSocket (server (s.requests ++ [c.request])) url ∧
          AnswersSafely (server (s.requests ++ [c.request])) url := by
        constructor
        · intro hall
          obtain ⟨c', hprepare', h⟩ := hall url rfl
          obtain ⟨-, rfl⟩ := EStateM.Result.ok.inj (hprepare.symm.trans hprepare')
          exact h
        · intro h url' hurl'
          obtain rfl := Except.ok.inj hurl'
          exact ⟨c, hprepare, h⟩
      rw [hround]
      rcases descriptors_send hparse huri htimeout (server (s.requests ++ [c.request])) with
        ⟨hcomes, hfinal, hcrash⟩ | ⟨hnot, e, herror⟩
      · rw [hcalls, List.nil_append] at hfinal
        have hend := disciplined_callsAtEnd_iff disciplined_nil hfinal
        rw [hcrash, not_not] at hend
        rw [and_iff_right hcomes]
        refine ⟨_, ?_, hend exists_socket_of_not_answersSafely, ?_⟩
        · cases hsend : httpRequestSend (server (s.requests ++ [c.request])) c with
          | error e c' => cases e <;> rfl
          | ok u c' =>
            have hreturns : Returns (httpGetRedirect c') := by
              apply @returns_httpGetRedirect _ host
              rw [(sent_of_httpRequestSend hsend).2.1]
              exact hhost.stringify
            simp only [Unshort.free, freeAfter_of_returns hreturns]
            rfl
        · intro hnotSafe
          obtain ⟨f, c', herror⟩ := hcrash.2 hnotSafe
          rw [herror]
          exact ⟨_, rfl⟩
      · rw [herror]
        refine ⟨[.close 0], congrArg (s.calls ++ ·) (hclosed ?_), ?_, fun _ => ⟨_, rfl⟩⟩
        · exact Prod.ext (by rw [descriptors, hconnection]; rfl) hcalls
        · exact iff_of_false (not_disciplined_close 0 []) fun h => hnot h.1
    · rw [hprepare]
      refine ⟨[.close 0], congrArg (s.calls ++ ·) (hclosed hfresh), ?_, fun _ => ⟨_, rfl⟩⟩
      refine iff_of_false (not_disciplined_close 0 []) fun hall => ?_
      obtain ⟨c', hprepare', -⟩ := hall url rfl
      cases hprepare.symm.trans hprepare'

/-- The turns before a redirect have closed their descriptors. -/
theorem disciplined_of_redirected {targetUrl : Option Bytes} {n : ℕ}
    (h : redirected clean server userAgent timeout sourceUrl targetUrl n = some s) :
    Disciplined s.calls ∧ ∀ m < n, ∀ s₀,
      redirected clean server userAgent timeout sourceUrl targetUrl m = some s₀ →
      RoundComes clean server userAgent timeout sourceUrl s₀ := by
  induction n generalizing s with
  | zero =>
    obtain rfl := Option.some.inj h
    exact ⟨disciplined_nil, nofun⟩
  | succ n ih =>
    obtain ⟨s₀, hs₀, hnext⟩ := Option.bind_eq_some_iff.1 h
    obtain ⟨hcalls₀, hcomes₀⟩ := ih hs₀
    unfold nextRound at hnext
    split at hnext
    · rename_i location s₁ hround
      obtain rfl := Option.some.inj hnext
      obtain ⟨calls, hcalls, hiff, hfails⟩ :=
        @unshortRound_calls clean server userAgent timeout sourceUrl s₀
      rw [hround] at hcalls hfails
      have hcomes : RoundComes clean server userAgent timeout sourceUrl s₀ := by
        by_contra hnot
        obtain ⟨e, herror⟩ := hfails hnot
        cases herror
      refine ⟨?_, ?_⟩
      · have happend := (hcalls₀.append_iff calls).2 (hiff.2 hcomes)
        rwa [← hcalls] at happend
      · intro m hm s₂ hs₂
        rcases Nat.lt_succ_iff_lt_or_eq.1 hm with hlt | rfl
        · exact hcomes₀ m hlt s₂ hs₂
        · obtain rfl := Option.some.inj (hs₀.symm.trans hs₂)
          exact hcomes
    · cases hnext

variable (clean server userAgent timeout) in
/-- Every turn of a run comes to its call of `socket` and is answered safely, or it ends before it has a
context. -/
def UnshortComes (sourceUrl targetUrl : Option Bytes) : Prop :=
  ∀ url, sourceUrl = some url → url ≠ [] → ∀ n ≤ httpDefaultMaxRedirects, ∀ s,
    redirected clean server userAgent timeout url targetUrl n = some s →
    RoundComes clean server userAgent timeout url s

/-- **The calls of a run** are those of its last turn, after calls that are disciplined. -/
theorem unshort_disciplined_iff {targetUrl : Option Bytes} {fuel : ℕ} {code : Outcome Unit}
    (h : follow (unshortStep clean server userAgent timeout sourceUrl) fuel
      { targetUrl := targetUrl } = some (code, s')) :
    Disciplined s'.calls ↔ ∀ n ≤ httpDefaultMaxRedirects, ∀ s,
      redirected clean server userAgent timeout sourceUrl targetUrl n = some s →
      RoundComes clean server userAgent timeout sourceUrl s := by
  obtain ⟨n, hn, s, hs, hend⟩ := exists_of_follow h
  obtain ⟨hbefore, hcomes⟩ := disciplined_of_redirected hs
  -- the last turn of the run
  have hlast : s'.calls = (unshortRound clean server userAgent timeout sourceUrl s).2.calls := by
    rcases hend with ⟨-, -, hnext⟩ | ⟨e, -, hround⟩ | ⟨-, hround⟩
    · unfold nextRound at hnext
      split at hnext
      · rename_i hround
        rw [hround, ← Option.some.inj hnext]
      · cases hnext
    · rw [hround]
    · rw [hround]
  obtain ⟨calls, hcalls, hiff, -⟩ :=
    @unshortRound_calls clean server userAgent timeout sourceUrl s
  rw [hlast, hcalls, hbefore.append_iff, hiff]
  refine ⟨?_, fun hall => hall n hn s hs⟩
  intro hround m hm s₀ hs₀
  rcases Nat.lt_trichotomy m n with hlt | rfl | hgt
  · exact hcomes m hlt s₀ hs₀
  · obtain rfl := Option.some.inj (hs.symm.trans hs₀)
    exact hround
  · -- there is no turn behind the last one
    have hnext : nextRound clean server userAgent timeout sourceUrl s = none := by
      rcases hend with ⟨hmax, -, -⟩ | ⟨e, -, heq⟩ | ⟨-, heq⟩
      · omega
      · rw [nextRound, heq]
      · rw [nextRound, heq]
    exact absurd (Option.isSome_of_mem hs₀) (not_isSome_redirected hgt hs hnext)

end Unshort

/-! ## `unalix_ruleset_update` -/

section Update

variable {Code : Type} {env : Environment} {libs : Libraries Code} {rulesetFile : Bytes}

/-- The descriptors of a run. -/
def worldDescriptors (w : World) : ℤ × List FdCall := descriptors w.context

theorem final_contextPart_run {α : Type} (x : EStateM Failure HTTPContext α) (w : World) :
    (final (contextPart.run x w)).context = final (x w.context) := by
  rw [Part.final_run]
  rfl

theorem keeps_fopenWrite (opens : Bool) (room : Option ℕ) (path : Bytes) :
    Keeps World.context (fopenWrite opens room path) := by
  intro w
  unfold fopenWrite
  split <;> rfl

theorem keeps_writeAll (stream : Stream) (bytes : Bytes) :
    Keeps World.context (writeAll stream bytes) := by
  apply Keeps.bind (fun _ => rfl)
  intro written
  simp only
  split
  · exact Keeps.throw _
  · exact Keeps.pure _

theorem keeps_receiveFile (isHttps : Bool) (incoming : List Received) (stream : Stream) :
    Keeps World.context (receiveFile isHttps incoming stream) := by
  induction incoming generalizing stream with
  | nil => exact Keeps.pure _
  | cons received incoming ih =>
    cases received with
    | failed error =>
      rw [receiveFile]
      split_ifs
      · exact Keeps.throw _
      · exact Keeps.pure _
      · exact Keeps.throw _
    | chunk bytes =>
      rw [receiveFile]
      split_ifs
      · exact Keeps.pure _
      · exact Keeps.bind (keeps_writeAll stream bytes) fun stream => ih stream

/-- What data that is received leaves of a connection: its descriptor, the calls and the time. -/
theorem keeps_httpResponseReadFile (stream : Stream) :
    Keeps (fun w => (worldDescriptors w, w.context.connection.timeout))
      (httpResponseReadFile stream) := by
  let kept (context : HTTPContext) := (descriptors context, context.connection.timeout)
  apply Keeps.bind Keeps.get
  intro w
  apply Keeps.bind
  · unfold writeBody
    split_ifs
    · exact (keeps_writeAll stream _).comp kept
    · exact Keeps.pure _
  · intro stream
    apply Keeps.bind (keeps_ofOutcome _ _)
    intro isHttps
    apply Keeps.bind ((keeps_receiveFile isHttps _ stream).comp kept)
    intro rest
    exact fun _ => rfl

theorem keeps_fclose (kept : Option ℕ) (stream : Stream) :
    Keeps World.context (fclose kept stream) := fun _ => rfl

theorem keeps_copyLoop (disk : Disk) (chunks : List Bytes) (stream : Stream) :
    Keeps World.context (copyLoop disk chunks stream) := by
  induction chunks generalizing stream with
  | nil => exact Keeps.bind (keeps_fclose _ _) fun _ => Keeps.pure _
  | cons chunk chunks ih =>
    rw [copyLoop]
    apply Keeps.bind (fun _ => rfl)
    intro written
    simp only
    split_ifs
    · exact Keeps.bind (keeps_fclose _ _) fun _ => Keeps.pure _
    · exact ih _

theorem keeps_copyFile (disk : Disk) (source destination : Bytes) :
    Keeps World.context (copyFile disk source destination) := by
  apply Keeps.bind Keeps.get
  intro w
  cases w.files source with
  | none => exact Keeps.pure _
  | some content =>
    simp only
    split_ifs
    · exact Keeps.pure _
    · apply Keeps.bind (keeps_fopenWrite _ _ _)
      intro dfile
      cases dfile with
      | none => exact Keeps.pure _
      | some stream => exact keeps_copyLoop disk _ stream

theorem keeps_renameFile (disk : Disk) (source destination : Bytes) :
    Keeps World.context (renameFile disk source destination) := by
  intro w
  unfold renameFile
  split
  · rfl
  · split <;> rfl

theorem keeps_removeFile (disk : Disk) (path : Bytes) :
    Keeps World.context (removeFile disk path) := by
  intro w
  unfold removeFile
  split <;> rfl

theorem keeps_moveFile (disk : Disk) (source destination : Bytes) :
    Keeps World.context (moveFile disk source destination) := by
  apply Keeps.bind (keeps_renameFile disk source destination)
  intro result
  cases result with
  | done => exact Keeps.pure _
  | failed => exact Keeps.pure _
  | crossDevice =>
    apply Keeps.bind (keeps_copyFile disk source destination)
    intro copied
    cases copied with
    | false => exact Keeps.pure _
    | true => exact Keeps.bind (keeps_removeFile disk source) fun _ => Keeps.pure _

theorem context_unlink (disk : Disk) (path : Bytes) (w : World) :
    (w.unlink disk path).context = w.context := by
  unfold World.unlink
  split <;> rfl

theorem context_removeOnError {α : Type} (disk : Disk) (path : Bytes) (x : Call α) (w : World) :
    (final (removeOnError disk path x w)).context = (final (x w)).context := by
  unfold removeOnError
  split
  · rename_i h
    rw [h]
    exact context_unlink disk path _
  · rfl

theorem keeps_removeOnError {α : Type} {disk : Disk} {path : Bytes} {x : Call α}
    (h : Keeps World.context x) : Keeps World.context (removeOnError disk path x) := by
  intro w
  rw [context_removeOnError]
  exact h w

theorem keeps_compareHash (rulesetFile rsha256 : Bytes) :
    Keeps World.context (compareHash env libs rulesetFile rsha256) :=
  Keeps.bind (keeps_sha256Digest _ _ _ _) fun _ => keeps_require _ _ _

/-- What follows the downloads leaves the context alone. -/
theorem keeps_install (rulesetFile filename : Bytes) :
    Keeps World.context (do
      removeOnError env.disk rulesetFile (tryLoad env libs rulesetFile)
      installRules env rulesetFile filename) := by
  apply Keeps.bind
  · apply keeps_removeOnError
    exact Keeps.bind Keeps.get fun w => keeps_ofOutcome _ _
  · intro _
    exact Keeps.bind (keeps_moveFile _ _ _) fun moved => keeps_require _ _ _

/-- A change of the state behind a call that does not crash. -/
theorem final_thenAlways_modify {α : Type} {x : Call α} {g : World → World} {w : World}
    (h : ¬ Crashed (x w)) : final (thenAlways x (modify g) w) = g (final (x w)) := by
  rw [thenAlways]
  rcases hx : x w with _ | ⟨_ | f, w₁⟩
  · rfl
  · rfl
  · rw [hx] at h
    exact absurd (crashed_fault f w₁) h

theorem crashed_thenAlways_modify_iff {α : Type} {x : Call α} {g : World → World} {w : World} :
    Crashed (thenAlways x (modify g) w) ↔ Crashed (x w) := by
  rw [thenAlways]
  rcases x w with ⟨a, w₁⟩ | ⟨e | f, w₁⟩
  · exact iff_of_false (not_crashed_ok a _) (not_crashed_ok a w₁)
  · exact iff_of_false (not_crashed_code e _) (not_crashed_code e w₁)
  · exact Iff.rfl

/-- The calls when a context is freed behind a call, unless the call has crashed. -/
theorem calls_thenFree {α : Type} (x : Call α) (w : World) :
    (Crashed (x w) ∧ (final (thenFree x w)).context.connection.calls =
      (worldDescriptors (final (x w))).2) ∨
    (¬ Crashed (x w) ∧ (final (thenFree x w)).context.connection.calls =
      callsAfterFree (final (x w)).context) := by
  by_cases hcrash : Crashed (x w)
  · obtain ⟨f, w₁, hx⟩ := hcrash
    rw [thenFree, thenAlways_of_fault hx, hx]
    exact .inl ⟨crashed_fault f w₁, rfl⟩
  · rw [thenFree, final_thenAlways_modify hcrash]
    exact .inr ⟨hcrash, rfl⟩

theorem worldDescriptors_freeContext {w : World} {fd : ℤ} {calls : List FdCall}
    (h : worldDescriptors w = (fd, calls)) :
    worldDescriptors w.freeContext = (fd, calls ++ [.close fd]) :=
  Prod.ext (Prod.mk.inj h).1 (callsAfterFree_eq h)

/-! ### Calls that do not crash -/

theorem crashed_contextPart_run_iff {α : Type} {x : EStateM Failure HTTPContext α} {w : World} :
    Crashed (contextPart.run x w) ↔ Crashed (x w.context) := by
  rw [Part.run]
  rcases hx : x w.context with ⟨a, c⟩ | ⟨e | f, c⟩
  · simp [contextPart, hx]
  · simp [contextPart, hx]
  · simp [contextPart, hx]

theorem crashed_removeOnError_iff {α : Type} {disk : Disk} {path : Bytes} {x : Call α} {w : World} :
    Crashed (removeOnError disk path x w) ↔ Crashed (x w) := by
  unfold removeOnError
  rcases x w with _ | ⟨_ | _, _⟩ <;> simp

theorem neverCrashes_writeAll (stream : Stream) (bytes : Bytes) :
    NeverCrashes (writeAll stream bytes) := by
  refine NeverCrashes.bind (.of_neverFails (neverFails_fwrite stream bytes)) ?_
  rintro ⟨written, stream⟩
  simp only
  split_ifs
  · exact NeverCrashes.code _
  · exact NeverCrashes.pure _

theorem neverCrashes_receiveFile (isHttps : Bool) (incoming : List Received) (stream : Stream) :
    NeverCrashes (receiveFile isHttps incoming stream) := by
  induction incoming generalizing stream with
  | nil => exact NeverCrashes.pure _
  | cons received incoming ih =>
    cases received with
    | failed error =>
      rw [receiveFile]
      split_ifs
      · exact NeverCrashes.code _
      · exact NeverCrashes.pure _
      · exact NeverCrashes.code _
    | chunk bytes =>
      rw [receiveFile]
      split_ifs
      · exact NeverCrashes.pure _
      · exact NeverCrashes.bind (neverCrashes_writeAll stream bytes) fun stream => ih stream

theorem returns_isHttpsContext {context : HTTPContext}
    (h : ∃ scheme, context.request.uri.scheme = some scheme) :
    Returns (isHttpsContext context) := by
  obtain ⟨scheme, hscheme⟩ := h
  rw [isHttpsContext, hscheme]
  exact returns_ok _

/-- Reading a body into a file does not crash when the request has a scheme. -/
theorem not_crashed_httpResponseReadFile {stream : Stream} {w : World}
    (h : ∃ scheme, w.context.request.uri.scheme = some scheme) :
    ¬ Crashed (httpResponseReadFile stream w) := by
  rw [httpResponseReadFile, run_get_bind]
  refine NeverCrashes.bind (?_ : NeverCrashes (writeBody stream w.context.response.body)) ?_ w
  · unfold writeBody
    split_ifs
    · exact neverCrashes_writeAll stream _
    · exact NeverCrashes.pure _
  · intro stream
    refine NeverCrashes.bind (.ofOutcome (returns_isHttpsContext h)) fun isHttps => ?_
    refine NeverCrashes.bind (neverCrashes_receiveFile isHttps _ stream) fun rest => ?_
    exact fun w₁ => crashed_contextPart_run_iff.not.2 (not_crashed_ok _ _)

theorem returns_receiveBody (isHttps : Bool) (content : Bytes) (incoming : List Received) :
    Returns (receiveBody isHttps content incoming).1 := by
  induction incoming generalizing content with
  | nil => exact returns_ok content
  | cons received incoming ih =>
    cases received with
    | failed error =>
      rw [receiveBody]
      split_ifs <;> simp
    | chunk bytes =>
      rw [receiveBody]
      split_ifs
      · exact returns_ok content
      · exact ih _

/-- Reading a body into memory does not crash when the request has a scheme. -/
theorem not_crashed_httpResponseRead {context : HTTPContext}
    (h : ∃ scheme, context.request.uri.scheme = some scheme) :
    ¬ Crashed (httpResponseRead context) := by
  rw [httpResponseRead, run_get_bind]
  refine NeverCrashes.bind (.ofOutcome (returns_isHttpsContext h)) (fun isHttps => ?_) context
  refine NeverCrashes.bind (fun _ => not_crashed_ok _ _) fun _ => ?_
  refine NeverCrashes.bind (.ofOutcome (returns_receiveBody _ _ _)) fun content => ?_
  exact fun _ => not_crashed_ok _ _

theorem neverCrashes_compareHash (rulesetFile rsha256 : Bytes) :
    NeverCrashes (compareHash env libs rulesetFile rsha256) := by
  refine NeverCrashes.bind ?_ fun lsha256 => NeverCrashes.require _ _
  refine NeverCrashes.bind (.of_neverFails NeverFails.get) fun w => ?_
  rcases w.files rulesetFile with _ | content
  · exact NeverCrashes.code _
  · simp only
    split_ifs
    · exact NeverCrashes.code _
    · exact NeverCrashes.code _
    · exact NeverCrashes.pure _

/-- What follows the downloads does not crash: no load does. -/
theorem neverCrashes_install (rulesetFile filename : Bytes) :
    NeverCrashes (do
      removeOnError env.disk rulesetFile (tryLoad env libs rulesetFile)
      installRules env rulesetFile filename) := by
  refine NeverCrashes.bind ?_ fun _ => ?_
  · have hload : NeverCrashes (tryLoad env libs rulesetFile) := by
      refine NeverCrashes.bind (.of_neverFails NeverFails.get) fun w => .ofOutcome ?_
      obtain ⟨r, hr, hload⟩ := InMemory.exists_loadParsed_eq libs.compile (fun filename =>
        if env.disk.loadTemporary then (w.files filename).bind libs.jsonLoads else none) rulesetFile
      have hempty := hload []
      rw [loadFile]
      exact (congrArg Prod.fst hempty).symm ▸ hr
    exact fun w => crashed_removeOnError_iff.not.2 (hload w)
  · refine NeverCrashes.bind (.of_neverFails (neverFails_moveFile _ _)) fun moved => ?_
    exact NeverCrashes.require _ _

/-! ### The downloads -/

/-- A context that a URL can be set in and sent. -/
structure Fresh (w : World) : Prop where
  uri : w.context.request.uri = {}
  timeout : 0 < w.context.connection.timeout

/-- **An exchange of an update**: it fails before its call of `socket`, it crashes, it fails, or it
succeeds. -/
theorem worldDescriptors_fetch {w : World} (hw : Fresh w) (exchange : Exchange)
    (url accept : Bytes) :
    (¬ ComesToSocket exchange url ∧ ∃ e w',
      contextPart.run (fetch exchange url accept) w = .error (.code e) w' ∧
        worldDescriptors w' = worldDescriptors w) ∨
    (ComesToSocket exchange url ∧
      worldDescriptors (final (contextPart.run (fetch exchange url accept) w)) =
        (socketResult exchange.socket, w.context.connection.calls ++ socketCalls exchange) ∧
      ((¬ AnswersSafely exchange url ∧ ∃ f w',
        contextPart.run (fetch exchange url accept) w = .error (.fault f) w') ∨
      (AnswersSafely exchange url ∧ ∃ e w',
        contextPart.run (fetch exchange url accept) w = .error (.code e) w') ∨
      (AnswersSafely exchange url ∧ ∃ w',
        contextPart.run (fetch exchange url accept) w = .ok () w'))) := by
  have hfinal := final_contextPart_run (fetch exchange url accept) w
  rcases descriptors_fetch hw.uri hw.timeout exchange url accept with
    ⟨hcomes, hdesc, hcrash⟩ | ⟨hnot, e, context, herror, hdesc⟩
  · refine .inr ⟨hcomes, ?_, ?_⟩
    · rw [worldDescriptors, hfinal]
      exact hdesc
    · rw [← crashed_contextPart_run_iff] at hcrash
      rcases hrun : contextPart.run (fetch exchange url accept) w with ⟨⟨⟩, w'⟩ | ⟨e | f, w'⟩
      · rw [hrun] at hcrash
        exact .inr (.inr ⟨not_not.1 (hcrash.not.1 (not_crashed_ok _ _)), w', rfl⟩)
      · rw [hrun] at hcrash
        exact .inr (.inl ⟨not_not.1 (hcrash.not.1 (not_crashed_code _ _)), e, w', rfl⟩)
      · rw [hrun] at hcrash
        exact .inl ⟨hcrash.1 (crashed_fault f w'), f, w', rfl⟩
  · exact .inl ⟨hnot, e, _, Part.run_eq_error.2 ⟨context, herror, rfl⟩, hdesc⟩

/-- **The descriptors of the download**: the context is freed once it has been read from. -/
theorem downloadRules_descriptors {w : World} (hw : Fresh w) (url rulesetFile : Bytes) :
    (¬ ComesToSocket env.exchange url ∧ ∃ e w',
      downloadRules env url rulesetFile w = .error (.code e) w' ∧
        worldDescriptors w' = worldDescriptors w) ∨
    (ComesToSocket env.exchange url ∧ ¬ AnswersSafely env.exchange url ∧ ∃ f w',
      downloadRules env url rulesetFile w = .error (.fault f) w' ∧ worldDescriptors w' =
        (socketResult env.exchange.socket, w.context.connection.calls ++
          socketCalls env.exchange)) ∨
    (ComesToSocket env.exchange url ∧ AnswersSafely env.exchange url ∧
      ¬ TemporaryOpened env url w ∧ ∃ e w',
      downloadRules env url rulesetFile w = .error (.code e) w' ∧ worldDescriptors w' =
        (socketResult env.exchange.socket, w.context.connection.calls ++
          socketCalls env.exchange)) ∨
    (ComesToSocket env.exchange url ∧ AnswersSafely env.exchange url ∧
      TemporaryOpened env url w ∧ (∃ fd, env.exchange.socket = some fd) ∧
      ¬ Crashed (downloadRules env url rulesetFile w) ∧
      worldDescriptors (final (downloadRules env url rulesetFile w)) =
        (socketResult env.exchange.socket, w.context.connection.calls ++
          socketCalls env.exchange ++ [.close (socketResult env.exchange.socket)]) ∧
      Fresh (final (downloadRules env url rulesetFile w))) := by
  have hopened {e : Failure} {w' : World}
      (hrun : contextPart.run (fetch env.exchange url (str "application/json")) w = .error e w') :
      ¬ TemporaryOpened env url w := by
    rintro ⟨⟨w₁, hok⟩, -⟩
    cases hrun.symm.trans hok
  rw [downloadRules, run_bind]
  rcases worldDescriptors_fetch hw env.exchange url (str "application/json") with
    ⟨hnot, e, w', hrun, hdesc⟩ | ⟨hcomes, hdesc, hends⟩
  · left
    rw [hrun]
    exact ⟨hnot, e, w', rfl, hdesc⟩
  · right
    rcases hends with ⟨hnotSafe, f, w', hrun⟩ | ⟨hsafe, e, w', hrun⟩ | ⟨hsafe, w', hrun⟩
    · left
      rw [hrun] at hdesc ⊢
      exact ⟨hcomes, hnotSafe, f, w', rfl, hdesc⟩
    · right
      left
      have hclosed := hopened hrun
      rw [hrun] at hdesc ⊢
      exact ⟨hcomes, hsafe, hclosed, e, w', rfl, hdesc⟩
    · right
      have hopenedIff : TemporaryOpened env url w ↔ env.disk.openTemporary = true :=
        and_iff_right ⟨w', hrun⟩
      obtain ⟨hsocket, hscheme, htimeout⟩ := sent_of_fetch hw.uri (contextPart_run_eq_ok hrun).1
      rw [hrun] at hdesc ⊢
      simp only [final_ok] at hdesc ⊢
      rw [run_bind]
      by_cases hopen : env.disk.openTemporary = true
      · right
        simp only [fopenWrite, hopen, if_true]
        set w₁ : World :=
          { w'.put rulesetFile (some []) with created := w'.created ++ [rulesetFile] }
        set stream : Stream := ⟨rulesetFile, env.disk.temporaryRoom⟩
        obtain ⟨hread, htime⟩ := Prod.mk.inj (keeps_httpResponseReadFile stream w₁)
        have hcalm : ¬ Crashed (httpResponseReadFile stream w₁) :=
          not_crashed_httpResponseReadFile hscheme
        have hcloses : ¬ Crashed (thenAlways (httpResponseReadFile stream)
            (fclose env.disk.temporaryKept stream) w₁) :=
          crashed_thenAlways_modify_iff.not.2 hcalm
        have hfree : (final (thenFree (thenAlways (httpResponseReadFile stream)
            (fclose env.disk.temporaryKept stream)) w₁)).context =
              httpContextFree (final (httpResponseReadFile stream w₁)).context := by
          rw [thenFree, final_thenAlways_modify hcloses, fclose, final_thenAlways_modify hcalm]
          rfl
        refine ⟨hcomes, hsafe, hopenedIff.2 hopen, hsocket, ?_, ?_, ?_⟩
        · rw [crashed_removeOnError_iff, thenFree, crashed_thenAlways_modify_iff]
          exact hcloses
        · rw [worldDescriptors, context_removeOnError, hfree]
          exact worldDescriptors_freeContext (hread.trans hdesc)
        · refine ⟨?_, ?_⟩
          · rw [context_removeOnError, hfree]
            rfl
          · rw [context_removeOnError, hfree]
            exact lt_of_lt_of_eq hw.timeout (htime.trans htimeout).symm
      · left
        have hclosed := hopenedIff.not.2 hopen
        rw [Bool.not_eq_true] at hopen
        simp only [fopenWrite, hopen, Bool.false_eq_true, if_false]
        exact ⟨hcomes, hsafe, hclosed, _, w', rfl, hdesc⟩

theorem keeps_httpResponseRead : Keeps descriptors httpResponseRead := by
  apply Keeps.bind Keeps.get
  intro context
  apply Keeps.bind (keeps_ofOutcome _ _)
  intro isHttps
  apply Keeps.bind (fun _ => rfl)
  intro _
  apply Keeps.bind (keeps_ofOutcome _ _)
  intro content
  exact fun _ => rfl

/-- **The descriptors of the download of the hash**: the context is freed when the text of the hash
has been taken from it. -/
theorem downloadHash_descriptors {w : World} (hw : Fresh w) (url rulesetFile : Bytes) :
    (¬ ComesToSocket env.hashExchange url ∧ ∃ e w',
      downloadHash env url rulesetFile w = .error (.code e) w' ∧
      worldDescriptors w' = worldDescriptors w) ∨
    (ComesToSocket env.hashExchange url ∧ ¬ AnswersSafely env.hashExchange url ∧ ∃ f w',
      downloadHash env url rulesetFile w = .error (.fault f) w' ∧ worldDescriptors w' =
        (socketResult env.hashExchange.socket, w.context.connection.calls ++
          socketCalls env.hashExchange)) ∨
    (ComesToSocket env.hashExchange url ∧ AnswersSafely env.hashExchange url ∧ ∃ e w',
      downloadHash env url rulesetFile w = .error (.code e) w' ∧ worldDescriptors w' =
        (socketResult env.hashExchange.socket, w.context.connection.calls ++
          socketCalls env.hashExchange)) ∨
    (ComesToSocket env.hashExchange url ∧ AnswersSafely env.hashExchange url ∧
      (∃ fd, env.hashExchange.socket = some fd) ∧
      ∃ rsha256 w', downloadHash env url rulesetFile w = .ok rsha256 w' ∧ worldDescriptors w' =
        (socketResult env.hashExchange.socket, w.context.connection.calls ++
          socketCalls env.hashExchange ++ [.close (socketResult env.hashExchange.socket)])) := by
  rw [downloadHash, run_bind]
  rcases worldDescriptors_fetch hw env.hashExchange url (str "text/plain") with
    ⟨hnot, e, w', hrun, hdesc⟩ | ⟨hcomes, hdesc, hends⟩
  · rw [hrun]
    exact .inl ⟨hnot, e, w', rfl, hdesc⟩
  · right
    rcases hends with ⟨hnotSafe, f, w', hrun⟩ | ⟨hsafe, e, w', hrun⟩ | ⟨hsafe, w', hrun⟩
    · rw [hrun] at hdesc ⊢
      exact .inl ⟨hcomes, hnotSafe, f, w', rfl, hdesc⟩
    · rw [hrun] at hdesc ⊢
      exact .inr (.inl ⟨hcomes, hsafe, e, w', rfl, hdesc⟩)
    · right
      obtain ⟨hsocket, hscheme, -⟩ := sent_of_fetch hw.uri (contextPart_run_eq_ok hrun).1
      rw [hrun] at hdesc ⊢
      have hread : worldDescriptors (final (removeOnError env.disk rulesetFile
          (contextPart.run httpResponseRead) w')) = worldDescriptors w' := by
        rw [worldDescriptors, context_removeOnError, final_contextPart_run, keeps_httpResponseRead]
        rfl
      have hcalm : ¬ Crashed (removeOnError env.disk rulesetFile
          (contextPart.run httpResponseRead) w') := by
        rw [crashed_removeOnError_iff, crashed_contextPart_run_iff]
        exact not_crashed_httpResponseRead hscheme
      rw [final_ok] at hdesc
      rw [hdesc] at hread
      simp only
      rw [run_bind]
      rcases hbody : removeOnError env.disk rulesetFile (contextPart.run httpResponseRead) w' with
        ⟨⟨⟩, w₁⟩ | ⟨e | f, w₁⟩
      · rw [hbody] at hread
        simp only
        rw [run_get_bind, run_bind]
        by_cases hsize : sha256DigestSize ≤ w₁.context.response.body.length
        · right
          refine ⟨hcomes, hsafe, hsocket,
            (w₁.context.response.body.take sha256DigestSize).map lowerHex, w₁.freeContext, ?_,
            worldDescriptors_freeContext hread⟩
          simp only [hsize, decide_true]
          rfl
        · left
          refine ⟨hcomes, hsafe, .rulesetsMismatchHash, w₁, ?_, hread⟩
          simp only [hsize, decide_false]
          rfl
      · rw [hbody] at hread
        exact .inl ⟨hcomes, hsafe, e, w₁, rfl, hread⟩
      · rw [hbody] at hcalm
        exact absurd (crashed_fault f w₁) hcalm

/-- A download of a hash comes to its call of `socket` and is answered safely, and the text of the hash
is not obtained. -/
def HashComes (env : Environment) (sha256Url : Option Bytes) (rulesetFile : Bytes) (w : World) :
    Prop :=
  ∃ url, sha256Url = some url ∧ ComesToSocket env.hashExchange url ∧
    AnswersSafely env.hashExchange url ∧
    ∀ rsha256 w', downloadHash env url rulesetFile w ≠ .ok rsha256 w'

/-- **The descriptors after the download of the rules.** -/
theorem descriptors_afterDownload {w : World} (hw : Fresh w) (filename : Bytes)
    (sha256Url : Option Bytes) :
    let result := (do
      checkHash env libs sha256Url rulesetFile
      removeOnError env.disk rulesetFile (tryLoad env libs rulesetFile)
      installRules env rulesetFile filename : Call Unit) w
    (¬ HashComes env sha256Url rulesetFile w ∧ ¬ Crashed result ∧
      worldDescriptors (final result) = worldDescriptors w) ∨
    (HashComes env sha256Url rulesetFile w ∧ ¬ Crashed result ∧ worldDescriptors (final result) =
      (socketResult env.hashExchange.socket, w.context.connection.calls ++
        socketCalls env.hashExchange)) ∨
    (¬ HashComes env sha256Url rulesetFile w ∧ Crashed result ∧
      (∃ fd, env.hashExchange.socket = some fd) ∧ worldDescriptors (final result) =
      (socketResult env.hashExchange.socket, w.context.connection.calls ++
        socketCalls env.hashExchange)) ∨
    (¬ HashComes env sha256Url rulesetFile w ∧ ¬ Crashed result ∧
      (∃ fd, env.hashExchange.socket = some fd) ∧ worldDescriptors (final result) =
      (socketResult env.hashExchange.socket, w.context.connection.calls ++
        socketCalls env.hashExchange ++ [.close (socketResult env.hashExchange.socket)])) := by
  have hinstall (u : Unit) : Keeps worldDescriptors (do
      removeOnError env.disk rulesetFile (tryLoad env libs rulesetFile)
      installRules env rulesetFile filename) :=
    (keeps_install rulesetFile filename).comp descriptors
  intro result
  have hfinal : worldDescriptors (final result) =
      worldDescriptors (final (checkHash env libs sha256Url rulesetFile w)) :=
    observe_bind _ hinstall w
  have hcrashes : Crashed result ↔ Crashed (checkHash env libs sha256Url rulesetFile w) :=
    NeverCrashes.bind_iff _ (fun _ => neverCrashes_install rulesetFile filename) w
  rw [hfinal, hcrashes]
  cases sha256Url with
  | none =>
    refine .inl ⟨?_, not_crashed_ok () w, rfl⟩
    intro ⟨_, hnone, _⟩
    cases hnone
  | some url =>
    have hiff : HashComes env (some url) rulesetFile w ↔ ComesToSocket env.hashExchange url ∧
        AnswersSafely env.hashExchange url ∧
          ∀ rsha256 w', downloadHash env url rulesetFile w ≠ .ok rsha256 w' := by
      refine ⟨?_, fun h => ⟨url, rfl, h⟩⟩
      intro ⟨url', hurl, h⟩
      cases hurl
      exact h
    have hcompare (rsha256 : Bytes) : Keeps worldDescriptors
        (removeOnError env.disk rulesetFile (compareHash env libs rulesetFile rsha256)) :=
      (keeps_removeOnError (keeps_compareHash rulesetFile rsha256)).comp descriptors
    have hcompares (rsha256 : Bytes) : NeverCrashes
        (removeOnError env.disk rulesetFile (compareHash env libs rulesetFile rsha256)) :=
      fun w => crashed_removeOnError_iff.not.2 (neverCrashes_compareHash rulesetFile rsha256 w)
    have hcheck : worldDescriptors (final (checkHash env libs (some url) rulesetFile w)) =
        worldDescriptors (final (downloadHash env url rulesetFile w)) :=
      observe_bind _ hcompare w
    have hcheck' : Crashed (checkHash env libs (some url) rulesetFile w) ↔
        Crashed (downloadHash env url rulesetFile w) := NeverCrashes.bind_iff _ hcompares w
    rw [hcheck, hcheck', hiff]
    rcases @downloadHash_descriptors env w hw url rulesetFile with
      ⟨hnot, e, w₁, hhash, hdesc⟩ | ⟨hcomes, hnotSafe, f, w₁, hhash, hdesc⟩ |
      ⟨hcomes, hsafe, e, w₁, hhash, hdesc⟩ | ⟨hcomes, hsafe, hfd, rsha256, w₁, hhash, hdesc⟩
    · rw [hhash]
      exact .inl ⟨fun h => hnot h.1, not_crashed_code e w₁, hdesc⟩
    · rw [hhash]
      exact .inr (.inr (.inl ⟨fun h => hnotSafe h.2.1, crashed_fault f w₁,
        exists_socket_of_not_answersSafely hnotSafe, hdesc⟩))
    · rw [hhash]
      exact .inr (.inl ⟨⟨hcomes, hsafe, fun _ _ => nofun⟩, not_crashed_code e w₁, hdesc⟩)
    · rw [hhash]
      exact .inr (.inr (.inr ⟨fun h => h.2.2 rsha256 w₁ rfl, not_crashed_ok _ w₁, hfd, hdesc⟩))

/-- A download of rules comes to its call of `socket` and is answered safely; and if the temporary file
is opened, and so the context freed after it, then a download of a hash follows that comes to another
call of `socket` and is answered safely, and it does not come to an end. -/
def UpdateComes (env : Environment) (url : Bytes) (sha256Url : Option Bytes) (rulesetFile : Bytes)
    (w : World) : Prop :=
  ComesToSocket env.exchange url ∧ AnswersSafely env.exchange url ∧ (TemporaryOpened env url w →
    ∃ w₁, downloadRules env url rulesetFile w = .ok () w₁ ∧ HashComes env sha256Url rulesetFile w₁)

/-- The context of an update is freed behind a call that has crashed or not. -/
theorem disciplined_thenFree_iff {α : Type} {x : Call α} {w : World} {exchange : Exchange}
    {before : List FdCall} (hbefore : Disciplined before)
    (hdesc : worldDescriptors (final (x w)) =
      (socketResult exchange.socket, before ++ socketCalls exchange))
    (hsocket : Crashed (x w) → ∃ fd, exchange.socket = some fd) :
    Disciplined (final (thenFree x w)).context.connection.calls ↔ ¬ Crashed (x w) := by
  rcases calls_thenFree x w with ⟨hcrash, hcalls⟩ | ⟨hcrash, hcalls⟩
  · rw [hcalls, hdesc, hbefore.append_iff]
    exact iff_of_false (not_disciplined_socketCalls (hsocket hcrash)) fun h => h hcrash
  · rw [hcalls, callsAfterFree_eq hdesc, List.append_assoc, hbefore.append_iff]
    exact iff_of_true (disciplined_exchange exchange) hcrash

/-- A context that has been freed is freed again. -/
theorem not_disciplined_thenFree {α : Type} {x : Call α} {w : World} {fd : ℕ} {before : List FdCall}
    (hbefore : Disciplined before)
    (hdesc : worldDescriptors (final (x w)) = ((fd : ℤ), before)) (hcrash : ¬ Crashed (x w)) :
    ¬ Disciplined (final (thenFree x w)).context.connection.calls := by
  rcases calls_thenFree x w with ⟨hcrash', -⟩ | ⟨-, hcalls⟩
  · exact absurd hcrash' hcrash
  · rw [hcalls, callsAfterFree_eq hdesc, hbefore.append_iff]
    exact not_disciplined_close fd []

/-- The calls of an update behind the download of the rules, where the context has been freed once. -/
theorem afterDownload_disciplined_iff {w : World} (hw : Fresh w) {fd : ℕ} {before : List FdCall}
    (hbefore : Disciplined before) (hdesc : worldDescriptors w = ((fd : ℤ), before))
    (filename : Bytes) (sha256Url : Option Bytes) :
    Disciplined (final (thenFree (do
        checkHash env libs sha256Url rulesetFile
        removeOnError env.disk rulesetFile (tryLoad env libs rulesetFile)
        installRules env rulesetFile filename : Call Unit) w)).context.connection.calls ↔
      HashComes env sha256Url rulesetFile w := by
  have hcalls : w.context.connection.calls = before := congrArg Prod.snd hdesc
  have hends := @descriptors_afterDownload Code env libs rulesetFile w hw filename sha256Url
  simp only [hcalls] at hends
  rcases hends with ⟨hnot, hcalm, hlast⟩ | ⟨hhash, hcalm, hlast⟩ |
    ⟨hnot, hcrash, hsocket, hlast⟩ | ⟨hnot, hcalm, ⟨fd', hfd⟩, hlast⟩
  · exact iff_of_false (not_disciplined_thenFree hbefore (hlast.trans hdesc) hcalm) hnot
  · have hend := disciplined_thenFree_iff hbefore hlast fun h => absurd h hcalm
    exact iff_of_true (hend.2 hcalm) hhash
  · have hend := disciplined_thenFree_iff hbefore hlast fun _ => hsocket
    exact iff_of_false (hend.not.2 fun h => h hcrash) hnot
  · have hpair := (hbefore.append_iff _).2 (disciplined_exchange env.hashExchange)
    rw [List.append_assoc, hfd] at hlast
    rw [hfd] at hpair
    exact iff_of_false (not_disciplined_thenFree hpair hlast hcalm) hnot

/-- The calls of an update that starts with a fresh context. -/
theorem rulesetUpdate_disciplined_iff {w : World} (hw : Fresh w)
    (hzero : worldDescriptors w = (0, [])) (filename url temporaryDirectory : Bytes)
    (sha256Url : Option Bytes) :
    Disciplined (final (thenFree
        (rulesetUpdate env libs filename url sha256Url temporaryDirectory) w)).context.connection.calls ↔
      UpdateComes env url sha256Url (temporaryDirectory ++ rulesetTemporaryFile) w := by
  set rulesetFile := temporaryDirectory ++ rulesetTemporaryFile
  have hcalls : w.context.connection.calls = [] := congrArg Prod.snd hzero
  have hone := disciplined_exchange env.exchange
  set update := rulesetUpdate env libs filename url sha256Url temporaryDirectory
  have herror {e : Failure} {w' : World} (h : downloadRules env url rulesetFile w = .error e w') :
      update w = .error e w' := run_bind_of_error h _
  rcases @downloadRules_descriptors env w hw url rulesetFile with
    ⟨hnot, e, w', hrun, hdesc⟩ | ⟨hcomes, hnotSafe, f, w', hrun, hdesc⟩ |
    ⟨hcomes, hsafe, hclosed, e, w', hrun, hdesc⟩ |
    ⟨hcomes, hsafe, hopened, ⟨fd, hfd⟩, hcalm, hdesc, hfresh⟩
  · -- no call of `socket`
    have hlast : worldDescriptors (final (update w)) = (((0 : ℕ) : ℤ), []) := by
      rw [herror hrun]
      exact hdesc.trans hzero
    have hcalm : ¬ Crashed (update w) := by
      rw [herror hrun]
      exact not_crashed_code e w'
    exact iff_of_false (not_disciplined_thenFree disciplined_nil hlast hcalm) fun h => hnot h.1
  · -- the parser crashes
    have hlast : worldDescriptors (final (update w)) =
        (socketResult env.exchange.socket, [] ++ socketCalls env.exchange) := by
      rw [herror hrun, ← hcalls]
      exact hdesc
    have hcrash : Crashed (update w) := by
      rw [herror hrun]
      exact crashed_fault f w'
    have hend := disciplined_thenFree_iff disciplined_nil hlast fun _ =>
      exists_socket_of_not_answersSafely hnotSafe
    exact iff_of_false (hend.not.2 fun h => h hcrash) fun h => hnotSafe h.2.1
  · -- the download ends before the file is opened
    have hlast : worldDescriptors (final (update w)) =
        (socketResult env.exchange.socket, [] ++ socketCalls env.exchange) := by
      rw [herror hrun, ← hcalls]
      exact hdesc
    have hcalm : ¬ Crashed (update w) := by
      rw [herror hrun]
      exact not_crashed_code e w'
    have hend := disciplined_thenFree_iff disciplined_nil hlast fun h => absurd h hcalm
    exact iff_of_true (hend.2 hcalm) ⟨hcomes, hsafe, fun h => absurd h hclosed⟩
  · -- the context has been freed once
    rw [hcalls, List.nil_append] at hdesc
    rcases hrun : downloadRules env url rulesetFile w with ⟨⟨⟩, w₁⟩ | ⟨e | f, w'⟩
    · rw [hrun] at hdesc hfresh
      simp only [final_ok] at hdesc hfresh
      have hcomes_iff : UpdateComes env url sha256Url rulesetFile w ↔
          HashComes env sha256Url rulesetFile w₁ := by
        refine ⟨fun h => ?_, fun h => ⟨hcomes, hsafe, fun _ => ⟨w₁, hrun, h⟩⟩⟩
        obtain ⟨w₁', hok, hhash⟩ := h.2.2 hopened
        obtain ⟨-, rfl⟩ := EStateM.Result.ok.inj (hrun.symm.trans hok)
        exact hhash
      have hrest : update w = (do
          checkHash env libs sha256Url rulesetFile
          removeOnError env.disk rulesetFile (tryLoad env libs rulesetFile)
          installRules env rulesetFile filename : Call Unit) w₁ := run_bind_of_ok hrun _
      rw [hfd] at hdesc hone
      rw [hcomes_iff, ← afterDownload_disciplined_iff hfresh hone hdesc filename sha256Url, thenFree,
        thenAlways, hrest]
      rfl
    · rw [hrun, final_error] at hdesc
      have hclosed : worldDescriptors (final (update w)) = ((fd : ℤ), socketCalls env.exchange ++
          [.close (socketResult env.exchange.socket)]) := by
        rw [herror hrun, final_error, hdesc, hfd]
        rfl
      have hcalm' : ¬ Crashed (update w) := by
        rw [herror hrun]
        exact not_crashed_code e w'
      refine iff_of_false (not_disciplined_thenFree hone hclosed hcalm') ?_
      rintro ⟨-, -, hdownload⟩
      obtain ⟨w₁, hok, -⟩ := hdownload hopened
      cases hrun.symm.trans hok
    · rw [hrun] at hcalm
      exact absurd (crashed_fault f w') hcalm

end Update

/-! ## The runs -/

theorem validArgument_cons (c : UInt8) (s : Bytes) : ValidArgument (some (c :: s)) (c :: s) :=
  ⟨rfl, List.cons_ne_nil c s⟩

/-- The calls of an update, of which none is made when an argument is refused. -/
theorem unalixRulesetUpdate_disciplined_iff {Code : Type} (env : Environment)
    (libs : Libraries Code) (filename url sha256Url temporaryDirectory : Option Bytes)
    (files : Bytes → Option Bytes) :
    Disciplined (final (unalixRulesetUpdate env libs filename url sha256Url temporaryDirectory
        files)).context.connection.calls ↔
      ∀ f u d, ValidArgument filename f → ValidArgument url u →
        ValidArgument temporaryDirectory d →
          UpdateComes env u sha256Url (d ++ rulesetTemporaryFile)
            { files := files, context := updateContext } := by
  unfold unalixRulesetUpdate
  rcases requireArgument_cases filename with ⟨f, hf, heq⟩ | ⟨hnot, heq⟩
  · rcases requireArgument_cases url with ⟨u, hu, heq'⟩ | ⟨hnot, heq'⟩
    · rcases requireArgument_cases temporaryDirectory with ⟨d, hd, heq''⟩ | ⟨hnot, heq''⟩
      · rw [heq, heq', heq'']
        simp only [pure_bind]
        have htimeout : 0 < httpDefaultTimeout := by decide
        have hfresh : Fresh { files := files, context := updateContext } := ⟨rfl, htimeout⟩
        refine (rulesetUpdate_disciplined_iff hfresh rfl f u d sha256Url).trans ⟨?_, fun h => h f u d hf hu hd⟩
        intro h f' u' d' _ hu' hd'
        rwa [← hu.eq hu'.1, ← hd.eq hd'.1]
      · rw [heq, heq', heq'']
        exact iff_of_true disciplined_nil fun _ _ d _ _ h => absurd h (hnot d)
    · rw [heq, heq']
      exact iff_of_true disciplined_nil fun _ u _ _ h => absurd h (hnot u)
  · rw [heq]
    exact iff_of_true disciplined_nil fun f _ _ h => absurd h (hnot f)

theorem calls_unalixRulesetCheckUpdate {Tm : Type} (clock : Clock Tm) (exchange : Exchange)
    (c d : UInt8) (f u : Bytes) :
    (unalixRulesetCheckUpdate clock exchange (some (c :: f)) (some (d :: u))).2 = callsAtEnd
      (checkRulesetUpdate clock exchange (c :: f) (d :: u) checkUpdateContext) := by
  unfold unalixRulesetCheckUpdate
  simp only
  rcases checkRulesetUpdate clock exchange (c :: f) (d :: u) checkUpdateContext with _ | ⟨_ | _, _⟩ <;>
    rfl

/-- The calls of a check. -/
theorem unalixRulesetCheckUpdate_disciplined_iff {Tm : Type} (clock : Clock Tm)
    (exchange : Exchange) (filename url : Option Bytes) :
    Disciplined (unalixRulesetCheckUpdate clock exchange filename url).2 ↔
      ∀ f u, ValidArgument filename f → ValidArgument url u →
        CheckComes clock exchange f u := by
  by_cases hargs : ∃ c f d u, filename = some (c :: f) ∧ url = some (d :: u)
  · obtain ⟨c, f, d, u, rfl, rfl⟩ := hargs
    rw [calls_unalixRulesetCheckUpdate, checkRulesetUpdate_disciplined_iff]
    refine ⟨?_, fun h => h _ _ (validArgument_cons c f) (validArgument_cons d u)⟩
    intro h f' u' hf hu
    rwa [hf.eq rfl, hu.eq rfl]
  · have hnone : (unalixRulesetCheckUpdate clock exchange filename url).2 = [] := by
      unfold unalixRulesetCheckUpdate
      split
      · exact absurd ⟨_, _, _, _, rfl, rfl⟩ hargs
      · rfl
    rw [hnone]
    refine iff_of_true disciplined_nil ?_
    intro f u ⟨hf, hfne⟩ ⟨hu, hune⟩
    obtain ⟨c, f', rfl⟩ := List.exists_cons_of_ne_nil hfne
    obtain ⟨d, u', rfl⟩ := List.exists_cons_of_ne_nil hune
    exact absurd ⟨c, f', d, u', hf, hu⟩ hargs

/-- The calls of the loop of `unalix_unshort_url`. -/
theorem unalixUnshortUrl_disciplined_iff (clean : Bytes → Outcome Bytes) (server : Server)
    (userAgent : Option Bytes) (timeout : ℤ) (sourceUrl targetUrl : Option Bytes) :
    ∃ code s, unalixUnshortUrl clean server userAgent timeout (httpDefaultMaxRedirects + 1)
        sourceUrl targetUrl = some (code, s) ∧
      (Disciplined s.calls ↔ UnshortComes clean server userAgent timeout sourceUrl targetUrl) := by
  rcases sourceUrl with _ | _ | ⟨c, url⟩
  · exact ⟨_, _, rfl, iff_of_true disciplined_nil fun _ h => nomatch h⟩
  · refine ⟨_, _, rfl, iff_of_true disciplined_nil ?_⟩
    intro url hurl hne
    exact absurd (Option.some.inj hurl).symm hne
  · obtain ⟨⟨code, s⟩, hrun⟩ :=
      @exists_follow_unshortStep clean server userAgent timeout (c :: url) targetUrl
    refine ⟨code, s, hrun, (unshort_disciplined_iff hrun).trans ⟨?_, ?_⟩⟩
    · intro h url' hurl _
      obtain rfl := Option.some.inj hurl
      exact h
    · exact fun h => h (c :: url) rfl nofun

/-- **A run closes what it has opened, once, exactly when** each context that it frees has come to a
call of `socket` since it was fresh or was last freed, and no head arrives that is not safe to
parse. -/
theorem descriptors_closed_iff {Tm Code : Type} (clean : Bytes → Outcome Bytes) (server : Server)
    (userAgent : Option Bytes) (timeout : ℤ) (sourceUrl targetUrl : Option Bytes)
    (clock : Clock Tm) (exchange : Exchange) (env : Environment) (libs : Libraries Code)
    (filename url sha256Url temporaryDirectory : Option Bytes) (files : Bytes → Option Bytes) :
    (∃ code s, unalixUnshortUrl clean server userAgent timeout (httpDefaultMaxRedirects + 1)
        sourceUrl targetUrl = some (code, s) ∧
      (Disciplined s.calls ↔
        UnshortComes clean server userAgent timeout sourceUrl targetUrl)) ∧
    (Disciplined (unalixRulesetCheckUpdate clock exchange filename url).2 ↔
      ∀ f u, ValidArgument filename f → ValidArgument url u → CheckComes clock exchange f u) ∧
    (Disciplined (final (unalixRulesetUpdate env libs filename url sha256Url temporaryDirectory
        files)).context.connection.calls ↔
      ∀ f u d, ValidArgument filename f → ValidArgument url u →
        ValidArgument temporaryDirectory d →
          UpdateComes env u sha256Url (d ++ rulesetTemporaryFile)
            { files := files, context := updateContext }) :=
  ⟨unalixUnshortUrl_disciplined_iff clean server userAgent timeout sourceUrl targetUrl,
    unalixRulesetCheckUpdate_disciplined_iff clock exchange filename url,
    unalixRulesetUpdate_disciplined_iff env libs filename url sha256Url temporaryDirectory files⟩

/-- Descriptor `0` is closed when the name of a host is not resolved, the descriptor of an update twice
when it succeeds, and it is left open when the response has no headers. -/
theorem not_descriptors_closed :
    let libs : Libraries Unit :=
      ⟨fun _ => some (), fun _ => some (.object [(providersKey, .object [])]), fun _ => []⟩
    let response := str "HTTP/1.0 200 OK\r\nServer: a\r\n\r\n\x7b\x7d"
    let calls (exchange : Exchange) := (final (unalixRulesetUpdate { exchange := exchange } libs
      (some (str "rules")) (some (str "http://a.com")) none (some (str "/tmp/")) fun _ => none
      )).context.connection.calls
    (calls { resolved := false } = [.close 0] ∧ ¬ Disciplined (calls { resolved := false })) ∧
    (calls { incoming := [.chunk response] } = [.socket 3, .close 3, .close 3] ∧
      ¬ Disciplined (calls { incoming := [.chunk response] })) ∧
    calls { incoming := [.chunk (str "HTTP/1.0 200 OK\r\n\r\n")] } = [.socket 3] ∧
      ¬ Disciplined (calls { incoming := [.chunk (str "HTTP/1.0 200 OK\r\n\r\n")] }) := by
  intro libs response calls
  have hunresolved : calls { resolved := false } = [.close 0] := by decide +kernel
  have hupdated : calls { incoming := [.chunk response] } = [.socket 3, .close 3, .close 3] := by
    decide +kernel
  have hcrashed : calls { incoming := [.chunk (str "HTTP/1.0 200 OK\r\n\r\n")] } = [.socket 3] := by
    decide +kernel
  refine ⟨⟨hunresolved, ?_⟩, ⟨hupdated, ?_⟩, hcrashed, ?_⟩
  · rw [hunresolved]
    decide
  · rw [hupdated]
    decide
  · rw [hcrashed]
    decide

end Unalix
