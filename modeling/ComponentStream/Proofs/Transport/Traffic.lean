import ComponentStream.Proofs.Transport.Breaker
import ComponentStream.Transport.Traffic

/-!
# The breaker over requests side by side

The breaker is asked before a request goes out and once more when its outcome is there; in between others may have
tripped it.  As long as it does not cool down, its gate tells one thing about the history of all outcomes, however the
requests overlap, and no outcome opens the gate for anyone again.

* `Traffic.Moved`, `Traffic.moved` — everything that can come of a move;
* `Traffic.Uncooled` — moves during which an open breaker does not cool down;
* `Traffic.Counted` — the breaker counts the failures in a row, and is open exactly when there have been too many;
* `Traffic.Barred` — traffic that has gone on behind an open breaker;
* `Traffic.run_ended`, `Traffic.run_failure_told`, `Traffic.run_told` — what callers are told, once and for all;
* `Traffic.Gated`, `Traffic.breaker_gates_traffic` — the main result.
-/

namespace ComponentStream.Transport

open Json (Value)

namespace Client

theorem judged (c : Client) (now : Nat) (o : Outcome) :
    c.breaker.Judged now o (c.judge now o).1.breaker (c.judge now o).2.2 :=
  Breaker.judged c.breaker now o

/-- Of a failure the caller is told, if only that the breaker is open. -/
theorem exists_told_of_failure (c : Client) (now : Nat) {o : Outcome} {f : Failure} (hf : o.failure? = some f) :
    ∃ told, (told = f ∨ told = .breakerOpen) ∧ (c.judge now o).2.2 = some (.failed told) := by
  rcases (c.judged now o).failure_told hf with hraised | hraised
  · exact ⟨f, Or.inl rfl, hraised⟩
  · exact ⟨.breakerOpen, Or.inr rfl, hraised⟩

end Client

namespace Stage

/-- Whatever is raised ends a request. -/
@[simp] theorem next_some (stage : Stage) (r : Raised) : stage.next (some r) = .ended (some r) := by
  cases stage with
  | waiting streamed => cases streamed <;> rfl
  | reading => rfl
  | ended => rfl

theorem next_eq_ended {stage : Stage} {raised : Option Raised} {r : Raised}
    (h : stage.next raised = .ended (some r)) : raised = some r := by
  cases raised with
  | some raised => simpa using h
  | none =>
    cases stage with
    | waiting streamed => cases streamed <;> exact absurd h (by simp [next])
    | reading => exact absurd h (by simp [next])
    | ended => exact absurd h (by simp [next])

theorem left_eq_ended {stage : Stage} {r : Raised} (h : stage.left = .ended (some r)) : stage = .ended (some r) := by
  cases stage with
  | waiting => exact absurd h (by simp [left])
  | reading => exact absurd h (by simp [left])
  | ended => exact h

end Stage

namespace Traffic

variable {t t' u : Traffic} {now : Nat} {n : Nat}

theorem run_append (t : Traffic) (done rest : List (Nat × Move)) : t.run (done ++ rest) = (t.run done).run rest :=
  List.foldl_append

theorem run_cons (t : Traffic) (m : Nat × Move) (moves : List (Nat × Move)) :
    t.run (m :: moves) = (t.move m.1 m.2).run moves := rfl

/-! ### One move -/

theorem start_of_permits (streamed : Bool) (body : Assoc Value) (hpermits : t.client.breaker.permits now = true) :
    t.start now streamed body =
      { t with requests := t.requests ++ [.waiting streamed], sent := t.sent ++ [t.client.request body] } := by
  rw [start, Client.send, if_pos hpermits]

theorem start_of_not_permits (streamed : Bool) (body : Assoc Value) (hpermits : t.client.breaker.permits now = false) :
    t.start now streamed body = { t with requests := t.requests ++ [.ended (some (.failed .breakerOpen))] } := by
  rw [start, Client.send, if_neg (Bool.not_eq_true _ ▸ hpermits)]

/-- Everything that can come of a move at a time. -/
inductive Moved (t : Traffic) (now : Nat) : Traffic → Prop where
  | sent (streamed : Bool) (body : Assoc Value) : t.client.breaker.permits now = true →
      Moved t now
        { t with requests := t.requests ++ [.waiting streamed], sent := t.sent ++ [t.client.request body] }
  | turnedAway : t.client.breaker.permits now = false →
      Moved t now { t with requests := t.requests ++ [.ended (some (.failed .breakerOpen))] }
  | judged {id : Nat} {stage : Stage} {o : Outcome} {b : Breaker} {raised : Option Raised} :
      t.requests[id]? = some stage → stage.awaits o = true → t.client.breaker.Judged now o b raised →
      Moved t now
        { t with
          client := { t.client with breaker := b }
          requests := t.requests.set id (stage.next raised)
          outcomes := t.outcomes ++ [o] }
  | left (id : Nat) : Moved t now { t with requests := t.requests.modify id Stage.left }
  | nothing : Moved t now t

theorem moved (t : Traffic) (now : Nat) (m : Move) : Moved t now (t.move now m) := by
  cases m with
  | start streamed body =>
    cases hpermits : t.client.breaker.permits now with
    | true =>
      rw [move, start_of_permits streamed body hpermits]
      exact .sent streamed body hpermits
    | false =>
      rw [move, start_of_not_permits streamed body hpermits]
      exact .turnedAway hpermits
  | outcome id o =>
    rw [move, outcome]
    cases hstage : t.requests[id]? with
    | none => exact .nothing
    | some stage =>
      by_cases hawaits : stage.awaits o = true
      · simp only [if_pos hawaits]
        exact .judged hstage hawaits (t.client.judged now o)
      · simp only [if_neg hawaits]
        exact .nothing
  | leave id => exact .left id

/-- Everything that can come of one request at a move, `b` being the breaker before. -/
inductive Became (b : Breaker) (now : Nat) : Option Stage → Option Stage → Prop where
  | same (stage : Option Stage) : Became b now stage stage
  | sent (streamed : Bool) : b.permits now = true → Became b now none (some (.waiting streamed))
  | turnedAway : b.permits now = false → Became b now none (some (.ended (some (.failed .breakerOpen))))
  | judged {stage : Stage} {o : Outcome} {b' : Breaker} {raised : Option Raised} :
      stage.awaits o = true → b.Judged now o b' raised → Became b now (some stage) (some (stage.next raised))
  | left (stage : Stage) : Became b now (some stage) (some stage.left)

/-- A request that has started comes last, and the others are what they were. -/
theorem Became.append {b : Breaker} {stage : Stage} (hnew : Became b now none (some stage)) (requests : List Stage)
    (id : Nat) : Became b now requests[id]? (requests ++ [stage])[id]? := by
  rcases Nat.lt_trichotomy id requests.length with hlt | rfl | hgt
  · rw [List.getElem?_append_left hlt]
    exact .same _
  · rw [List.getElem?_concat_length, List.getElem?_eq_none (Nat.le_refl _)]
    exact hnew
  · have hlen : (requests ++ [stage]).length ≤ id := by
      rw [List.length_append, List.length_singleton]
      exact hgt
    rw [List.getElem?_eq_none hlen, List.getElem?_eq_none hgt.le]
    exact .same none

theorem Moved.became (h : Moved t now t') (id : Nat) :
    Became t.client.breaker now t.requests[id]? t'.requests[id]? := by
  cases h with
  | sent streamed _ hpermits => exact Became.append (.sent streamed hpermits) t.requests id
  | turnedAway hpermits => exact Became.append (.turnedAway hpermits) t.requests id
  | @judged id' stage o b raised hstage hawaits hj =>
    by_cases hid : id' = id
    · subst hid
      have hlt : id' < t.requests.length := (List.getElem?_eq_some_iff.mp hstage).1
      show Became _ now _ (t.requests.set id' _)[id']?
      rw [List.getElem?_set_self hlt, hstage]
      exact .judged hawaits hj
    · show Became _ now _ (t.requests.set id' _)[id]?
      rw [List.getElem?_set_ne hid]
      exact .same _
  | left id' =>
    show Became _ now _ (t.requests.modify id' Stage.left)[id]?
    by_cases hid : id' = id
    · subst hid
      rw [List.getElem?_modify_eq]
      cases t.requests[id']? with
      | none => exact .same none
      | some stage => exact .left stage
    · rw [List.getElem?_modify_ne _ _ hid]
      exact .same _
  | nothing => exact .same _

/-- No move changes what a caller has been told. -/
theorem Became.ended {b : Breaker} {raised : Option Raised} {stage : Option Stage}
    (h : Became b now (some (.ended raised)) stage) : stage = some (.ended raised) := by
  cases h with
  | same => rfl
  | judged hawaits => exact absurd hawaits (by simp [Stage.awaits])
  | left => rfl

/-- Callers are told of nothing but failures. -/
def Told (t : Traffic) : Prop :=
  ∀ (id : Nat) (r : Raised), t.requests[id]? = some (.ended (some r)) → ∃ f, r = .failed f

theorem Moved.told (h : Moved t now t') (ht : t.Told) : t'.Told := by
  intro id r hended
  have hbecame := h.became id
  rw [hended] at hbecame
  generalize hold : t.requests[id]? = old at hbecame
  generalize hnew : some (Stage.ended (some r)) = new at hbecame
  cases hbecame with
  | same => exact ht id r (hold.trans hnew.symm)
  | sent => exact absurd (Option.some.inj hnew) (by simp)
  | turnedAway => exact ⟨.breakerOpen, by simpa using hnew⟩
  | judged _ hj => exact hj.raised_told (Stage.next_eq_ended (Option.some.inj hnew).symm)
  | left stage => exact ht id r (hold.trans (congrArg some (Stage.left_eq_ended (Option.some.inj hnew).symm)))

/-! ### Runs -/

theorem run_ended (moves : List (Nat × Move)) {id : Nat} {raised : Option Raised}
    (hended : t.requests[id]? = some (.ended raised)) : (t.run moves).requests[id]? = some (.ended raised) := by
  induction moves generalizing t with
  | nil => exact hended
  | cons m moves ih =>
    have hbecame := (moved t m.1 m.2).became id
    rw [hended] at hbecame
    exact ih hbecame.ended

theorem run_told (ht : t.Told) (moves : List (Nat × Move)) : (t.run moves).Told := by
  induction moves generalizing t with
  | nil => exact ht
  | cons m moves ih => exact ih ((moved t m.1 m.2).told ht)

/-- **Of every failure its caller is told**, if only that the breaker is open, and whatever happens later. -/
theorem run_failure_told (moves : List (Nat × Move)) {id : Nat} {o : Outcome} {stage : Stage} {f : Failure}
    (hstage : t.requests[id]? = some stage) (hawaits : stage.awaits o = true) (hf : o.failure? = some f) :
    ∃ told, (told = f ∨ told = .breakerOpen) ∧
      (t.run ((now, .outcome id o) :: moves)).requests[id]? = some (.ended (some (.failed told))) := by
  have hlt : id < t.requests.length := (List.getElem?_eq_some_iff.mp hstage).1
  obtain ⟨told, htold, hraised⟩ := t.client.exists_told_of_failure now hf
  refine ⟨told, htold, run_ended moves ?_⟩
  simp only [move, outcome, hstage, if_pos hawaits, judge, hraised, Stage.next_some]
  exact List.getElem?_set_self hlt

/-! ### The gate and the history -/

/-- Moves during which an open breaker does not cool down. -/
def Uncooled (t : Traffic) : List (Nat × Move) → Prop
  | [] => True
  | m :: moves => t.client.breaker.Cooling m.1 ∧ (t.move m.1 m.2).Uncooled moves

instance decidableUncooled : ∀ (t : Traffic) (moves : List (Nat × Move)), Decidable (t.Uncooled moves)
  | _, [] => isTrue trivial
  | t, m :: moves =>
    have := decidableUncooled (t.move m.1 m.2) moves
    inferInstanceAs (Decidable (_ ∧ _))

theorem uncooled_append {done rest : List (Nat × Move)} :
    t.Uncooled (done ++ rest) ↔ t.Uncooled done ∧ (t.run done).Uncooled rest := by
  induction done generalizing t with
  | nil => exact (true_and _).to_iff.symm
  | cons m done ih => rw [List.cons_append, Uncooled, Uncooled, ih, and_assoc, run_cons]

/-- The breaker counts the failures since the last accepted response while it is closed, and it is open exactly when
there have been `n` in a row. -/
structure Counted (n : Nat) (t : Traffic) : Prop where
  failMax_eq : t.client.breaker.failMax = n
  of_closed : t.client.breaker.gate = .closed →
    t.client.breaker.failures = streak t.outcomes ∧ ¬ Tripped n t.outcomes
  of_opened : ∀ since, t.client.breaker.gate = .opened since → Tripped n t.outcomes

theorem Counted.closed_iff (h : t.Counted n) : t.client.breaker.gate = .closed ↔ ¬ Tripped n t.outcomes := by
  refine ⟨fun hclosed => (h.of_closed hclosed).2, fun hnot => ?_⟩
  cases hgate : t.client.breaker.gate with
  | closed => rfl
  | opened since => exact absurd (h.of_opened since hgate) hnot

/-- The count after one more outcome. -/
theorem Counted.judged (h : t.Counted n) (hn : 1 ≤ n) (hcool : t.client.breaker.Cooling now) {o : Outcome}
    {b : Breaker} {raised : Option Raised} (hj : t.client.breaker.Judged now o b raised) (requests : List Stage) :
    Counted n { t with
      client := { t.client with breaker := b }
      requests := requests
      outcomes := t.outcomes ++ [o] } := by
  have hmax := h.failMax_eq
  cases hj with
  | accepted hclosed hnone =>
    have hstreak := streak_concat_of_accepted t.outcomes hnone
    refine ⟨hmax, fun _ => ⟨hstreak.symm, ?_⟩, fun since hopen => absurd (hclosed.symm.trans hopen) (by simp)⟩
    rw [tripped_concat, hstreak]
    rintro (hle | htripped)
    · omega
    · exact (h.of_closed hclosed).2 htripped
  | @counted f hclosed hf hlt =>
    obtain ⟨hfailures, hnot⟩ := h.of_closed hclosed
    have hstreak := streak_concat_of_failure t.outcomes hf
    refine ⟨hmax, fun _ => ⟨?_, ?_⟩, fun since hopen => absurd (hclosed.symm.trans hopen) (by simp)⟩
    · rw [hstreak, ← hfailures]
    · rw [tripped_concat, hstreak]
      rintro (hle | htripped)
      · omega
      · exact hnot htripped
  | @tripped f hclosed hf hge =>
    have hstreak := streak_concat_of_failure t.outcomes hf
    have hfailures := (h.of_closed hclosed).1
    refine ⟨hmax, fun hclosed' => absurd hclosed' (by simp), fun _ _ => tripped_concat.mpr (Or.inl ?_)⟩
    rw [hstreak]
    omega
  | stopped hopen =>
    refine ⟨hmax, fun hclosed => absurd (hclosed.symm.trans hopen) (by simp), fun _ _ => ?_⟩
    exact tripped_concat.mpr (Or.inr (h.of_opened _ hopen))
  | recovered hopen hpermits =>
    exact absurd ((Breaker.permits_eq_false hopen hcool).symm.trans hpermits) (by simp)
  | relapsed hopen hpermits =>
    exact absurd ((Breaker.permits_eq_false hopen hcool).symm.trans hpermits) (by simp)

theorem Counted.moved (h : t.Counted n) (hn : 1 ≤ n) (hcool : t.client.breaker.Cooling now) (hm : Moved t now t') :
    t'.Counted n := by
  cases hm with
  | sent => exact ⟨h.failMax_eq, h.of_closed, h.of_opened⟩
  | turnedAway => exact ⟨h.failMax_eq, h.of_closed, h.of_opened⟩
  | judged _ _ hj => exact h.judged hn hcool hj _
  | left => exact ⟨h.failMax_eq, h.of_closed, h.of_opened⟩
  | nothing => exact h

theorem Counted.run (h : t.Counted n) (hn : 1 ≤ n) {moves : List (Nat × Move)} (hcool : t.Uncooled moves) :
    (t.run moves).Counted n := by
  induction moves generalizing t with
  | nil => exact h
  | cons m moves ih => exact ih (h.moved hn hcool.1 (Traffic.moved t m.1 m.2)) hcool.2

/-! ### Behind an open breaker -/

/-- How traffic has gone on behind an open breaker: the breaker is as it was, nothing more was sent, and whatever has
started since was turned away. -/
structure Barred (t u : Traffic) : Prop where
  client_eq : u.client = t.client
  sent_eq : u.sent = t.sent
  turned_away : ∀ id stage, t.requests.length ≤ id → u.requests[id]? = some stage →
    stage = .ended (some (.failed .breakerOpen))

theorem Barred.refl (t : Traffic) : Barred t t where
  client_eq := rfl
  sent_eq := rfl
  turned_away := by
    intro id stage hle hstage
    rw [List.getElem?_eq_none hle] at hstage
    exact absurd hstage (by simp)

theorem Barred.moved (h : Barred t u) {since : Nat} (hopen : t.client.breaker.gate = .opened since)
    (hcool : t.client.breaker.Cooling now) {u' : Traffic} (hm : Moved u now u') : Barred t u' := by
  have hshut : u.client.breaker.permits now = false := by
    rw [h.client_eq]
    exact Breaker.permits_eq_false hopen hcool
  have hturned : ∀ id stage, t.requests.length ≤ id → u'.requests[id]? = some stage →
      stage = .ended (some (.failed .breakerOpen)) := by
    intro id stage hle hstage
    have hbecame := hm.became id
    cases hold : u.requests[id]? with
    | some old =>
      rw [hold, h.turned_away id old hle hold] at hbecame
      exact Option.some.inj (hstage.symm.trans hbecame.ended)
    | none =>
      rw [hold, hstage] at hbecame
      cases hbecame with
      | sent _ hpermits => exact absurd (hshut.symm.trans hpermits) (by simp)
      | turnedAway => rfl
  cases hm with
  | sent _ _ hpermits => exact absurd (hshut.symm.trans hpermits) (by simp)
  | turnedAway => exact ⟨h.client_eq, h.sent_eq, hturned⟩
  | judged _ _ hj =>
    rw [h.client_eq] at hj
    obtain ⟨rfl, _⟩ := hj.of_cooling hopen hcool
    exact ⟨by rw [h.client_eq], h.sent_eq, hturned⟩
  | left => exact ⟨h.client_eq, h.sent_eq, hturned⟩
  | nothing => exact h

theorem Barred.run (h : Barred t u) {since : Nat} (hopen : t.client.breaker.gate = .opened since)
    {moves : List (Nat × Move)} (hcool : u.Uncooled moves) : Barred t (u.run moves) := by
  induction moves generalizing u with
  | nil => exact h
  | cons m moves ih =>
    have hcool' : t.client.breaker.Cooling m.1 := h.client_eq ▸ hcool.1
    exact ih (h.moved hopen hcool' (Traffic.moved u m.1 m.2)) hcool.2

theorem Barred.run_turnedAway {since : Nat} (hopen : t.client.breaker.gate = .opened since)
    (hcool : t.client.breaker.Cooling now) (streamed : Bool) (body : Assoc Value) (moves : List (Nat × Move)) :
    (t.run ((now, .start streamed body) :: moves)).requests[t.requests.length]? =
      some (.ended (some (.failed .breakerOpen))) := by
  refine run_ended moves ?_
  show (t.start now streamed body).requests[t.requests.length]? = _
  rw [start_of_not_permits streamed body (Breaker.permits_eq_false hopen hcool)]
  exact List.getElem?_concat_length

/-! ### The gate of a run -/

/-- What moves come to over a breaker that opens after `n` failures. -/
structure Gated (n : Nat) (t : Traffic) (moves : List (Nat × Move)) : Prop where
  /-- The breaker is closed exactly as long as no `n` failures have come without an accepted response between them. -/
  closed_iff : ∀ done rest, moves = done ++ rest →
    ((t.run done).client.breaker.gate = .closed ↔ ¬ Tripped n (t.run done).outcomes)
  /-- When it is open nothing more is sent, and nothing closes it. -/
  stays_open : ∀ done rest, moves = done ++ rest → (t.run done).client.breaker.gate ≠ .closed →
    (t.run moves).client = (t.run done).client ∧ (t.run moves).sent = (t.run done).sent
  /-- Whatever starts then has failed. -/
  turned_away : ∀ done now streamed body rest, moves = done ++ (now, .start streamed body) :: rest →
    (t.run done).client.breaker.gate ≠ .closed →
      (t.run moves).requests[(t.run done).requests.length]? = some (.ended (some (.failed .breakerOpen)))
  /-- Of a failure the caller of the request is told, once and for all. -/
  failure_told : ∀ done now id o rest stage f, moves = done ++ (now, .outcome id o) :: rest →
    (t.run done).requests[id]? = some stage → stage.awaits o = true → o.failure? = some f →
      ∃ told, (told = f ∨ told = .breakerOpen) ∧
        (t.run moves).requests[id]? = some (.ended (some (.failed told)))
  /-- Callers are told of nothing but failures. -/
  told : (t.run moves).Told

/-- **The breaker gates all requests of a client.**  Whatever requests start and have outcomes in whatever order, as
long as the reset timeout does not elapse. -/
theorem breaker_gates_traffic (endpoint : String) (headers : Assoc String) {failMax : Nat} (resetTimeout : Nat)
    (hmax : 1 ≤ failMax) {moves : List (Nat × Move)}
    (hcool : (idle (.new endpoint headers failMax resetTimeout)).Uncooled moves) :
    (idle (.new endpoint headers failMax resetTimeout)).Gated failMax moves := by
  generalize ht : idle (.new endpoint headers failMax resetTimeout) = t at hcool
  have hstart : t.Counted failMax := by
    subst ht
    exact ⟨rfl, fun _ => ⟨rfl, not_tripped_nil hmax⟩, fun since hopen => absurd hopen (by simp [idle, Client.new,
      Breaker.fresh])⟩
  have hnone : t.Told := by
    subst ht
    intro id r hended
    exact absurd hended (by simp [idle])
  refine ⟨?_, ?_, ?_, ?_, run_told hnone moves⟩
  · rintro done rest rfl
    exact (hstart.run hmax (uncooled_append.mp hcool).1).closed_iff
  · rintro done rest rfl hne
    obtain ⟨since, hopen⟩ := Gate.exists_opened_of_ne_closed hne
    have hbarred := (Barred.refl _).run hopen (uncooled_append.mp hcool).2
    rw [run_append]
    exact ⟨hbarred.client_eq, hbarred.sent_eq⟩
  · rintro done now streamed body rest rfl hne
    obtain ⟨since, hopen⟩ := Gate.exists_opened_of_ne_closed hne
    rw [run_append]
    exact Barred.run_turnedAway hopen (uncooled_append.mp hcool).2.1 streamed body rest
  · rintro done now id o rest stage f rfl hstage hawaits hf
    rw [run_append]
    exact run_failure_told rest hstage hawaits hf

/-- Four requests at a time: the second one fails, the first one is accepted and then breaks, the third one fails and
trips the breaker, and the fourth one is accepted too late. -/
def overlapping : List (Nat × Move) :=
  [(0, .start true []), (0, .start false []), (1, .start true []), (1, .start true []), (2, .outcome 1 (.response 502)),
    (3, .outcome 0 (.response 200)), (4, .outcome 0 (.broken "reset")), (5, .outcome 2 (.response 503)),
    (6, .outcome 3 (.response 200)), (7, .start false [])]

theorem breaker_gates_traffic_of_overlapping :
    (1 ≤ 2 ∧ (idle (.new "/" [] 2 60)).Uncooled overlapping) ∧
      (idle (.new "/" [] 2 60)).Gated 2 overlapping ∧
      ((idle (.new "/" [] 2 60)).run overlapping).sent.length = 4 ∧
      ((idle (.new "/" [] 2 60)).run overlapping).requests[4]? = some (.ended (some (.failed .breakerOpen))) := by
  have hcool : (idle (.new "/" [] 2 60)).Uncooled overlapping := by decide
  have hgated := breaker_gates_traffic "/" [] 60 (by decide : 1 ≤ 2) hcool
  refine ⟨⟨by decide, hcool⟩, hgated, by decide, ?_⟩
  exact hgated.turned_away (overlapping.take 9) 7 false [] [] rfl (by decide)

end Traffic

end ComponentStream.Transport
