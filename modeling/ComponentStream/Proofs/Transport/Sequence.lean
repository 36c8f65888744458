import ComponentStream.Proofs.Transport.Traffic

/-!
# Requests that follow one another

When no two requests overlap, the breaker counts every outcome, whether or not it has cooled down in between: it holds
the number of failures in a row, and each of them is told by its own name until the number is reached.

* `Traffic.Served`, `Traffic.served` — everything that can come of a request by itself;
* `Breaker.Tallied`, `Traffic.tallied_serveAll` — a breaker that has counted every outcome of a history;
* `Traffic.answered_by_status` — what becomes of a request that is answered.
-/

namespace ComponentStream.Transport

open Json (Value)

namespace Traffic

/-! ### The request that started last -/

section Last

variable {c : Client} {before : List Stage} {sent : List Request} {os : List Outcome} {stage : Stage}

theorem outcome_last (now : Nat) (o : Outcome) :
    (⟨c, before ++ [stage], sent, os⟩ : Traffic).outcome now before.length o =
      if stage.awaits o then
        ⟨(c.judge now o).1, before ++ [stage.next (c.judge now o).2.2], sent, os ++ [o]⟩
      else ⟨c, before ++ [stage], sent, os⟩ := by
  simp only [outcome, List.getElem?_concat_length, judge, List.set_append_right _ _ (Nat.le_refl _), Nat.sub_self,
    List.set_cons_zero]

theorem leave_last :
    (⟨c, before ++ [stage], sent, os⟩ : Traffic).leave before.length = ⟨c, before ++ [stage.left], sent, os⟩ := by
  have hmodify : (before ++ [stage]).modify before.length Stage.left = before ++ [stage.left] := by
    induction before with
    | nil => rfl
    | cons first before ih => exact congrArg (first :: ·) ih
  rw [leave, hmodify]

/-- Nothing more comes of a request that is over. -/
theorem lastMove_ended {raised : Option Raised} (q : Inquiry) (now : Nat) :
    (⟨c, before ++ [.ended raised], sent, os⟩ : Traffic).move now (q.lastMove before.length) =
      ⟨c, before ++ [.ended raised], sent, os⟩ := by
  rw [Inquiry.lastMove]
  cases q.cut? with
  | none => exact leave_last
  | some reason => exact outcome_last now (.broken reason)

end Last

/-! ### One request by itself -/

/-- Everything that can come of a request by itself: the exchange and the traffic after it. -/
inductive Served (t : Traffic) (q : Inquiry) : Exchange → Traffic → Prop where
  | turnedAway : t.client.breaker.permits q.now = false →
      Served t q (t.client.reject (.failed .breakerOpen))
        { t with requests := t.requests ++ [.ended (some (.failed .breakerOpen))] }
  | refused {c : Client} {told events : List Event} {r : Raised} : t.client.breaker.permits q.now = true →
      t.client.judge q.now q.answer = (c, told, some r) →
      Served t q ⟨c, some (t.client.request q.body), events, none, [], some r⟩
        ⟨c, t.requests ++ [.ended (some r)], t.sent ++ [t.client.request q.body], t.outcomes ++ [q.answer]⟩
  | accepted {c : Client} {told events : List Event} {accepted : Option (Nat × Bool)} {chunks : List (List UInt8)} :
      t.client.breaker.permits q.now = true → t.client.judge q.now q.answer = (c, told, none) → q.cut? = none →
      accepted.isSome = q.streamed →
      Served t q ⟨c, some (t.client.request q.body), events, accepted, chunks, none⟩
        ⟨c, t.requests ++ [.ended none], t.sent ++ [t.client.request q.body], t.outcomes ++ [q.answer]⟩
  | cut {c c' : Client} {told told' events : List Event} {accepted : Nat × Bool} {chunks : List (List UInt8)}
      {reason : String} {raised : Option Raised} :
      t.client.breaker.permits q.now = true → t.client.judge q.now q.answer = (c, told, none) →
      q.cut? = some reason → q.streamed = true → c.judge q.now (.broken reason) = (c', told', raised) →
      Served t q ⟨c', some (t.client.request q.body), events, some accepted, chunks, raised⟩
        ⟨c', t.requests ++ [.ended raised], t.sent ++ [t.client.request q.body],
          t.outcomes ++ [q.answer] ++ [.broken reason]⟩

theorem serve_of_turnedAway {t : Traffic} {q : Inquiry} (hpermits : t.client.breaker.permits q.now = false) :
    t.serve q = { t with requests := t.requests ++ [.ended (some (.failed .breakerOpen))] } := by
  simp only [serve, Inquiry.moves, run, List.foldl_cons, List.foldl_nil, move,
    start_of_not_permits q.streamed q.body hpermits, outcome_last, Stage.awaits]
  exact lastMove_ended q q.now

theorem serve_of_permits {t : Traffic} {q : Inquiry} {c : Client} {told : List Event} {raised : Option Raised}
    (hpermits : t.client.breaker.permits q.now = true) (hj : t.client.judge q.now q.answer = (c, told, raised)) :
    t.serve q =
      (⟨c, t.requests ++ [(Stage.waiting q.streamed).next raised], t.sent ++ [t.client.request q.body],
        t.outcomes ++ [q.answer]⟩ : Traffic).move q.now (q.lastMove t.requests.length) := by
  simp only [serve, Inquiry.moves, run, List.foldl_cons, List.foldl_nil, move,
    start_of_permits q.streamed q.body hpermits, outcome_last, Stage.awaits, if_true, hj]

theorem served_post {t : Traffic} {q : Inquiry} (hpermits : t.client.breaker.permits q.now = true)
    (hplain : q.streamed = false) : t.Served q (t.client.inquire q) (t.serve q) := by
  have hanswer : q.answer = Client.plainOutcome q.reply := by simp only [Inquiry.answer, hplain]
  have hcut : q.cut? = none := by simp only [Inquiry.cut?, hplain]
  generalize hj : t.client.judge q.now q.answer = judged
  obtain ⟨c, told, raised⟩ := judged
  have hended : (Stage.waiting q.streamed).next raised = .ended raised := by
    rw [hplain]
    rfl
  have hinquire : t.client.inquire q = ⟨c, some (t.client.request q.body),
      Client.noted (Client.plainOutcome q.reply) ++ told, none, [], raised⟩ := by
    simp only [Client.inquire, hplain, Client.post, Client.send, hpermits, if_true, ← hanswer, hj]
    rfl
  rw [serve_of_permits hpermits hj, hended, lastMove_ended, hinquire]
  cases raised with
  | some r => exact .refused hpermits hj
  | none => exact .accepted hpermits hj hcut hplain.symm

theorem served_stream {t : Traffic} {q : Inquiry} (hpermits : t.client.breaker.permits q.now = true)
    (hstreamed : q.streamed = true) : t.Served q (t.client.inquire q) (t.serve q) := by
  generalize hj : t.client.judge q.now q.answer = judged
  obtain ⟨c, told, raised⟩ := judged
  have hraised : (t.client.judge q.now q.answer).2.2 = raised := by rw [hj]
  have hinquire : t.client.inquire q =
      (t.client.receive q.now (t.client.request q.body) q.reply q.cancelAfter).rescue q.now := by
    simp only [Client.inquire, hstreamed, Client.stream, Client.send, hpermits, if_true]
  rw [serve_of_permits hpermits hj, hinquire]
  cases hreply : q.reply with
  | broken reason =>
    have hanswer : q.answer = .broken reason := by simp only [Inquiry.answer, hstreamed, hreply]
    have hfailure : q.answer.failure? = some ⟨"Connection failed: " ++ reason, none⟩ := by
      rw [hanswer]
      rfl
    obtain ⟨f, _, hf⟩ := t.client.exists_told_of_failure q.now hfailure
    obtain rfl : raised = some (.failed f) := hraised.symm.trans hf
    have hjudge := hj
    rw [hanswer] at hjudge
    simp only [Client.receive, Exchange.rescue, hjudge]
    rw [Stage.next_some, lastMove_ended]
    exact .refused hpermits hj
  | response status contentType parts =>
    have hanswer : q.answer = .response status := by simp only [Inquiry.answer, hstreamed, hreply]
    have hjudge := hj
    rw [hanswer] at hjudge
    cases raised with
    | some r =>
      obtain ⟨f, rfl⟩ := (t.client.judged q.now q.answer).raised_told hraised
      simp only [Client.receive, hjudge, Exchange.rescue]
      rw [Stage.next_some, lastMove_ended]
      exact .refused hpermits hj
    | none =>
      have hcut : q.cut? = (responseBody status q.cancelAfter parts).2 := by
        simp only [Inquiry.cut?, hstreamed, hreply]
      have hreading : (Stage.waiting q.streamed).next none = .reading := by
        rw [hstreamed]
        rfl
      simp only [Client.receive, hjudge, hreading]
      cases hbody : (responseBody status q.cancelAfter parts).2 with
      | none =>
        rw [hbody] at hcut
        simp only [Inquiry.lastMove, hcut, move, leave_last]
        exact .accepted hpermits hj hcut hstreamed.symm
      | some reason =>
        rw [hbody] at hcut
        simp only [Inquiry.lastMove, hcut, move, outcome_last, Option.map_some, Exchange.rescue]
        exact .cut hpermits hj hcut hstreamed rfl

/-- **Everything that can come of a request by itself.** -/
theorem served (t : Traffic) (q : Inquiry) : t.Served q (t.client.inquire q) (t.serve q) := by
  cases hpermits : t.client.breaker.permits q.now with
  | false =>
    have hinquire : t.client.inquire q = t.client.reject (.failed .breakerOpen) := by
      simp only [Client.inquire, Client.stream, Client.post, Client.send, hpermits, Bool.false_eq_true, if_false,
        ite_self]
    rw [serve_of_turnedAway hpermits, hinquire]
    exact .turnedAway hpermits
  | true =>
    cases hstreamed : q.streamed with
    | false => exact served_post hpermits hstreamed
    | true => exact served_stream hpermits hstreamed

namespace Served

variable {t u : Traffic} {q : Inquiry} {e : Exchange}

theorem permits_of_sent (h : t.Served q e u) (hsent : e.sent ≠ none) : t.client.breaker.permits q.now = true := by
  cases h with
  | turnedAway => exact absurd rfl hsent
  | refused hpermits => exact hpermits
  | accepted hpermits => exact hpermits
  | cut hpermits => exact hpermits

/-- A response is accepted when nothing is raised for it. -/
theorem accepted_eq (h : t.Served q e u) (hsent : e.sent ≠ none) :
    q.accepted e = (t.client.judge q.now q.answer).2.2.isNone := by
  cases h with
  | turnedAway => exact absurd rfl hsent
  | refused _ hj =>
    rw [hj, Inquiry.accepted]
    cases q.streamed <;> rfl
  | accepted _ hj _ hstreamed =>
    rw [hj, Inquiry.accepted, hstreamed]
    cases q.streamed <;> rfl
  | cut _ hj _ hstreamed =>
    rw [hj, Inquiry.accepted, hstreamed]
    rfl

/-- Nothing is read of a response that is not accepted. -/
theorem of_raised (h : t.Served q e u) (hsent : e.sent ≠ none) {r : Raised}
    (hr : (t.client.judge q.now q.answer).2.2 = some r) : e.accepted = none ∧ e.chunks = [] ∧ e.raised = some r := by
  cases h with
  | turnedAway => exact absurd rfl hsent
  | refused _ hj =>
    rw [hj] at hr
    exact ⟨rfl, rfl, hr⟩
  | accepted _ hj =>
    rw [hj] at hr
    exact absurd hr (by simp)
  | cut _ hj =>
    rw [hj] at hr
    exact absurd hr (by simp)

end Served

end Traffic

/-! ### The count of a sequence -/

namespace Breaker

variable {n : Nat} {b b' : Breaker} {os : List Outcome} {now : Nat} {o : Outcome} {raised : Option Raised}

/-- A breaker that opens after `n` failures has counted every outcome of a history. -/
structure Tallied (n : Nat) (b : Breaker) (os : List Outcome) : Prop where
  failMax_eq : b.failMax = n
  failures_eq : b.failures = streak os
  le_of_opened : ∀ since, b.gate = .opened since → n ≤ streak os

/-- Whatever is let through is counted. -/
theorem Tallied.judged (h : b.Tallied n os) (hpermits : b.permits now = true) (hj : b.Judged now o b' raised) :
    b'.Tallied n (os ++ [o]) := by
  have hmax : b'.failMax = n := hj.settings.1.trans h.failMax_eq
  have hfailures := h.failures_eq
  cases hj with
  | accepted hclosed hnone =>
    exact ⟨hmax, (streak_concat_of_accepted os hnone).symm, fun since hopen => absurd (hclosed.symm.trans hopen) (by simp)⟩
  | counted hclosed hf =>
    exact ⟨hmax, by rw [streak_concat_of_failure os hf, hfailures], fun since hopen => absurd (hclosed.symm.trans hopen) (by simp)⟩
  | tripped _ hf hge =>
    refine ⟨hmax, by rw [streak_concat_of_failure os hf, hfailures], fun _ _ => ?_⟩
    rw [streak_concat_of_failure os hf, ← hfailures, ← h.failMax_eq]
    exact hge
  | stopped _ hshut => exact absurd (hpermits.symm.trans hshut) (by simp)
  | recovered _ _ hnone => exact ⟨hmax, (streak_concat_of_accepted os hnone).symm, fun since hopen => absurd hopen (by simp)⟩
  | relapsed hopen _ hf =>
    refine ⟨hmax, by rw [streak_concat_of_failure os hf, hfailures], fun _ _ => ?_⟩
    rw [streak_concat_of_failure os hf]
    exact Nat.le_succ_of_le (h.le_of_opened _ hopen)

/-- What is told of a failure after a history: it goes by its own name until it is the one that opens the breaker. -/
def toldAfter (n : Nat) (os : List Outcome) (f : Failure) : Failure := if streak os + 1 < n then f else .breakerOpen

theorem Tallied.raised_eq (h : b.Tallied n os) (hpermits : b.permits now = true) (hj : b.Judged now o b' raised) :
    raised = o.failure?.map fun f => .failed (toldAfter n os f) := by
  have hmax := h.failMax_eq
  have hfailures := h.failures_eq
  cases hj with
  | accepted _ hnone => rw [hnone, Option.map_none]
  | counted _ hf hlt => rw [hf, Option.map_some, toldAfter, if_pos (by omega)]
  | tripped _ hf hge => rw [hf, Option.map_some, toldAfter, if_neg (by omega)]
  | stopped _ hshut => exact absurd (hpermits.symm.trans hshut) (by simp)
  | recovered _ _ hnone => rw [hnone, Option.map_none]
  | relapsed hopen _ hf =>
    have hle := h.le_of_opened _ hopen
    rw [hf, Option.map_some, toldAfter, if_neg (by omega)]

/-- An accepted response leaves the breaker closed. -/
theorem Judged.permits_of_accepted (hj : b.Judged now o b' none) : b'.permits now = true := by
  cases hj with
  | accepted hclosed => simp only [permits, hclosed]
  | recovered => rfl

end Breaker

namespace Traffic

variable {n : Nat} {t : Traffic} {q : Inquiry}

theorem tallied_serve (h : t.client.breaker.Tallied n t.outcomes) :
    (t.serve q).client.breaker.Tallied n (t.serve q).outcomes := by
  have hserved := t.served q
  generalize t.client.inquire q = e, t.serve q = u at hserved
  cases hserved with
  | turnedAway => exact h
  | refused hpermits hj =>
    have hjudged := t.client.judged q.now q.answer
    rw [hj] at hjudged
    exact h.judged hpermits hjudged
  | accepted hpermits hj =>
    have hjudged := t.client.judged q.now q.answer
    rw [hj] at hjudged
    exact h.judged hpermits hjudged
  | @cut c _ _ _ _ _ _ reason _ hpermits hj _ _ hcut =>
    have hjudged := t.client.judged q.now q.answer
    have hbroken := c.judged q.now (.broken reason)
    rw [hj] at hjudged
    rw [hcut] at hbroken
    exact (h.judged hpermits hjudged).judged hjudged.permits_of_accepted hbroken

/-- **In a sequence of requests the breaker counts every outcome.** -/
theorem tallied_serveAll (h : t.client.breaker.Tallied n t.outcomes) (qs : List Inquiry) :
    (t.serveAll qs).client.breaker.Tallied n (t.serveAll qs).outcomes := by
  induction qs generalizing t with
  | nil => exact h
  | cons q qs ih => exact ih (tallied_serve h)

/-- A client after a sequence of requests, from its creation on. -/
def afterAll (endpoint : String) (headers : Assoc String) (failMax resetTimeout : Nat) (qs : List Inquiry) : Traffic :=
  (idle (.new endpoint headers failMax resetTimeout)).serveAll qs

theorem tallied_afterAll (endpoint : String) (headers : Assoc String) (failMax resetTimeout : Nat)
    (qs : List Inquiry) :
    (afterAll endpoint headers failMax resetTimeout qs).client.breaker.Tallied failMax
      (afterAll endpoint headers failMax resetTimeout qs).outcomes := by
  have hfresh : (Breaker.fresh failMax resetTimeout).Tallied failMax [] :=
    ⟨rfl, rfl, fun since hopen => absurd hopen (by simp [Breaker.fresh])⟩
  exact tallied_serveAll (t := idle (.new endpoint headers failMax resetTimeout)) hfresh qs

/-! ### Responses by their status -/

theorem answer_of_status? {status : Nat} (h : q.status? = some status) : q.answer = .response status := by
  rw [Inquiry.status?] at h
  cases hanswer : q.answer with
  | response s =>
    rw [hanswer] at h
    rw [Option.some.inj h]
  | broken reason =>
    rw [hanswer] at h
    exact absurd h (by simp)

/-- What is raised for a request that is answered with a status. -/
theorem raised_by_status (h : t.client.breaker.Tallied n t.outcomes)
    (hpermits : t.client.breaker.permits q.now = true) {status : Nat} (hstatus : q.status? = some status) :
    (t.client.judge q.now q.answer).2.2 =
      if isErrorStatus status then some (.failed (Breaker.toldAfter n t.outcomes (.ofStatus status))) else none := by
  rw [h.raised_eq hpermits (t.client.judged q.now q.answer), answer_of_status? hstatus, Outcome.failure?]
  cases isErrorStatus status with
  | true => rfl
  | false => rfl

/-- **What becomes of a request that is answered.**  Its status decides whether it is accepted; if it is not, nothing is
read of the body, and the failure names the status unless it is one that opens the breaker. -/
theorem answered_by_status (h : t.client.breaker.Tallied n t.outcomes) (hsent : (t.client.inquire q).sent ≠ none)
    {status : Nat} (hstatus : q.status? = some status) :
    (q.accepted (t.client.inquire q) = true ↔ isErrorStatus status = false) ∧
      (isErrorStatus status = true →
        (t.client.inquire q).accepted = none ∧ (t.client.inquire q).chunks = [] ∧
          (t.client.inquire q).raised = some (.failed (Breaker.toldAfter n t.outcomes (.ofStatus status)))) := by
  have hserved := t.served q
  have hraised := raised_by_status h (hserved.permits_of_sent hsent) hstatus
  constructor
  · rw [hserved.accepted_eq hsent, hraised]
    cases isErrorStatus status <;> simp
  · intro herror
    rw [if_pos herror] at hraised
    exact hserved.of_raised hsent hraised

end Traffic

end ComponentStream.Transport
