import ComponentStream.Proofs.Session.Response
import ComponentStream.Proofs.Transport.Sequence

/-!
# Refused responses

The status of a response decides whether it is accepted, whatever its headers and its body.  Of a response that is
refused nothing is read, and a session that waits for it as its main stream ends in error with its tree as it was.

* `Waiting`, `Mute.refused_finished` — a main stream that waits for its response, and meets a failure;
* `streamArrivals_of_refused` — all that a refused response brings to its task;
* `answered_requests` — the main result.
-/

namespace ComponentStream.Session

open ComponentStream.Transport (Client Exchange Failure Inquiry Traffic isErrorStatus)
open ComponentStream.Transport.Breaker (toldAfter)
open Protocol (Limits)

variable {s : Session} {tell : Teller} {id : Nat}

/-- The task with a given number is the main stream of the present and waits for its response; nobody has asked it to
stop. -/
def Waiting (s : Session) (id : Nat) : Prop :=
  ∃ t n, s.tasks[id]? = some t ∧ t.work = .main s.stint ∧ t.phase = .opening n ∧ t.cancelRequested = false

/-- A failed request ends the session in error, and nothing else of it changes but what the host is told. -/
theorem Mute.refused_finished (h : Mute tell) (hwaiting : Waiting s id) (f : Failure) :
    Finished (step tell id (.failed (.connection f)) s) id .error ∧
      (step tell id (.failed (.connection f)) s).intake = s.intake ∧
      (step tell id (.failed (.connection f)) s).lastError = some (.connection f) := by
  obtain ⟨t, n, ht, hwork, hphase, hrequest⟩ := hwaiting
  have hreport : report tell (.connection f) s = ((report tell (.connection f) s).1, .ok ()) :=
    Act.eq_ok (h.passive.report_returns (.connection f) s)
  have hsched : (report tell (.connection f) s).1.schedule = s.schedule :=
    congrArg Prod.snd (h.steady.report (.connection f) s)
  have hintake : (report tell (.connection f) s).1.intake = s.intake :=
    congrArg Core.intake (h.passive.report (.connection f) s)
  have hlast : (report tell (.connection f) s).1.lastError = some (.connection f) :=
    h.keeps (f := Session.lastError) (fun _ _ => rfl) _ { s with lastError := some (.connection f) }
  generalize (report tell (.connection f) s).1 = s₁ at hreport hsched hintake hlast
  have hset : setStatus tell .error s₁ = ((setStatus tell .error s₁).1, .ok ()) :=
    Act.eq_ok (h.passive.setStatus_returns .error s₁)
  have hrescue : rescueMain tell s.stint (.connection f) s = ((setStatus tell .error s₁).1, .ok ()) := by
    rw [rescueMain, Act.unlessStale, if_pos (isCurrent_iff.mpr rfl)]
    show (report tell (.connection f) >>= fun _ => setStatus tell .error) s = _
    rw [Act.bind_apply, hreport]
    exact hset
  have hstep : step tell id (.failed (.connection f)) s =
      (closeMain (faultOutcome s s.stint (.connection f)) (setStatus tell .error s₁).1).endTask id none := by
    rw [step, ht]
    dsimp only
    rw [hphase, hwork]
    show stepMain tell id s.stint n (.failed (.connection f)) s = _
    rw [stepMain]
    show (closeMain _ (rescueMain tell s.stint (.connection f) s).1).endTask id
      (Act.fault? (rescueMain tell s.stint (.connection f) s)) = _
    rw [hrescue]
    rfl
  rw [hstep]
  refine ⟨?_, ?_, ?_⟩
  · exact finished_of_task ht hrequest ((h.steady.schedule_setStatus .error s₁).trans hsched) _
      (h.steady.status_setStatus .error s₁)
  · exact (congrArg Core.intake (h.passive.setStatus .error s₁)).trans hintake
  · have hkept : (setStatus tell .error).Keeps Session.lastError :=
      Act.Keeps.setStatus (fun _ _ => rfl) (h.keeps fun _ _ => rfl) .error
    exact (hkept s₁).trans hlast

/-- All that a refused response brings to its task is the failure. -/
theorem streamArrivals_of_refused {e : Exchange} {f : Failure} (haccepted : e.accepted = none)
    (hraised : e.raised = some (.failed f)) : streamArrivals e = [.failed (.connection f)] := by
  rw [streamArrivals, haccepted, Exchange.failure, hraised]
  rfl

/-- **The status decides what becomes of a request that is answered.**  It is refused when its status is from 400 to
599 and accepted otherwise.  Nothing of a refused response is read, and the failure names the status unless it is one
that opens the breaker; a session that waits for the response as its main stream ends in error with its tree as it
was.  The requests before it may have been of any kind and met anything; none of them overlap. -/
theorem answered_requests {endpoint : String} {headers : Assoc String} {failMax resetTimeout : Nat}
    {earlier : List Inquiry} {t : Traffic} (ht : Traffic.afterAll endpoint headers failMax resetTimeout earlier = t)
    {q : Inquiry} (hsent : (t.client.inquire q).sent ≠ none) {status : Nat} (hstatus : q.status? = some status) :
    (q.accepted (t.client.inquire q) = true ↔ ¬(400 ≤ status ∧ status ≤ 599)) ∧
      (400 ≤ status → status ≤ 599 → ∃ f, f = toldAfter failMax t.outcomes (.ofStatus status) ∧
        (t.client.inquire q).raised = some (.failed f) ∧ (t.client.inquire q).chunks = [] ∧
        ∀ (h : Host) (s : Session) (id : Nat), (∀ calls, h.reactions calls = []) → Waiting s id →
          Finished (stepAll h.tell id (streamArrivals (t.client.inquire q)) s) id .error ∧
            (stepAll h.tell id (streamArrivals (t.client.inquire q)) s).intake = s.intake) := by
  have htallied := Traffic.tallied_afterAll endpoint headers failMax resetTimeout earlier
  rw [ht] at htallied
  obtain ⟨haccepted, hrefused⟩ := Traffic.answered_by_status htallied hsent hstatus
  have herror : isErrorStatus status = true ↔ 400 ≤ status ∧ status ≤ 599 := decide_eq_true_iff
  have hfine : isErrorStatus status = false ↔ ¬(400 ≤ status ∧ status ≤ 599) := by
    rw [← Bool.not_eq_true, herror]
  refine ⟨haccepted.trans hfine, fun hleast hmost => ?_⟩
  obtain ⟨hnone, hchunks, hraised⟩ := hrefused (herror.mpr ⟨hleast, hmost⟩)
  refine ⟨_, rfl, hraised, hchunks, fun h s id hquiet hwaiting => ?_⟩
  obtain ⟨hfinished, hintake, _⟩ :=
    (Host.mute_tell hquiet).refused_finished hwaiting (toldAfter failMax t.outcomes (.ofStatus status))
  rw [streamArrivals_of_refused hnone hraised]
  exact ⟨hfinished, hintake⟩

/-- A plain request that is answered with a status. -/
def plainAnswered (status : Nat) : Inquiry := ⟨false, 0, [], .response status none [], none⟩

/-- A streamed request that is answered with a status and a body of one byte. -/
def streamAnswered (status : Nat) : Inquiry := ⟨true, 0, [], .response status none [.bytes [123]], none⟩

/-- After one failure of up to four, a session that connects meets a response with status 404. -/
theorem answered_requests_of_missing_page :
    ∃ e, e = (Traffic.afterAll "/" [] 5 30 [plainAnswered 500]).client.inquire (streamAnswered 404) ∧
      e.raised = some (.failed (.ofStatus 404)) ∧ e.chunks = [] ∧
      Finished (stepAll Host.quiet.tell 0 (.start :: streamArrivals e)
        (connect Host.quiet.tell none [] (Session.start [] Limits.standard Options.standard ⟨0⟩)).1) 0 .error := by
  have hsent : ((Traffic.afterAll "/" [] 5 30 [plainAnswered 500]).client.inquire (streamAnswered 404)).sent ≠ none := by
    rintro ⟨⟩
  have hwaiting : Waiting (step Host.quiet.tell 0 .start
      (connect Host.quiet.tell none [] (Session.start [] Limits.standard Options.standard ⟨0⟩)).1) 0 :=
    ⟨_, 0, rfl, rfl, rfl, rfl⟩
  have hstatus : (streamAnswered 404).status? = some 404 := rfl
  obtain ⟨_, hrefused⟩ := answered_requests rfl hsent hstatus
  obtain ⟨f, hf, hraised, hchunks, hsession⟩ := hrefused (by decide) (by decide)
  have hnamed : f = .ofStatus 404 := hf.trans (by decide)
  rw [hnamed] at hraised
  exact ⟨_, rfl, hraised, hchunks, (hsession Host.quiet _ 0 (fun _ => rfl) hwaiting).1⟩

/-- A response with status 302 is accepted, and one with status 503 goes without its status when it opens the breaker. -/
theorem redirect_accepted_and_status_lost :
    ((Traffic.afterAll "/" [] 5 30 []).client.inquire (plainAnswered 302)).sent.isSome = true ∧
      (plainAnswered 302).status? = some 302 ∧
      (plainAnswered 302).accepted ((Traffic.afterAll "/" [] 5 30 []).client.inquire (plainAnswered 302)) = true ∧
      ((Traffic.afterAll "/" [] 1 30 []).client.inquire (plainAnswered 503)).sent.isSome = true ∧
      (plainAnswered 503).status? = some 503 ∧
      ((Traffic.afterAll "/" [] 1 30 []).client.inquire (plainAnswered 503)).raised =
        some (.failed ⟨"Circuit breaker open - backend unavailable", none⟩) := by
  decide

end ComponentStream.Session
