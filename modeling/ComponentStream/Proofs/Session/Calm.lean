import ComponentStream.Proofs.Session.Run
import ComponentStream.Proofs.Stream.Account

/-!
# Hosts that raise no fault

A host may connect, disconnect and reset from within a call; as long as it raises no fault of its own, nothing that it
does gets in the way of records.  Its calls return, the tree remains one that records have made, nothing is counted, and
whatever the host brings about is told to it as updates, never as a fault.

* `Told` — what has come of a session: the calls about faults that the host has heard since, and what was counted;
* `Act.Calm` — acts that return and bring neither;
* `Attentive`, `Host.attentive_tell` — a host without reactions that raise hears each call about a fault once.
-/

namespace ComponentStream.Session

open ComponentStream.Stream (Intake)
open ComponentStream.Tree (Reachable)

variable {α β : Type} {s s' s'' : Session} {tell : Teller} {listens : CallKind → Bool}

/-! ### What has come of a session -/

/-- The calls about faults and warnings. -/
def faultCalls (calls : List Call) : List Call := calls.filter fun c => c.kind ≠ .update

/-- A session has become another one: the host has heard some calls about faults since, and some counters were
increased, bytes apart. -/
structure Told (s s' : Session) (calls : List Call) (counted : List Counter) : Prop where
  reachable : s'.intake.tree.Reachable
  limits_eq : s'.intake.limits = s.intake.limits
  faults_eq : faultCalls s'.calls = faultCalls s.calls ++ calls
  value_eq : ∀ c, c ≠ byteCounter → s'.metrics.value c = s.metrics.value c + counted.count c

namespace Told

/-- Nothing has come of it, if tree, limits, calls and metrics are in order. -/
theorem of_eq (hreach : s'.intake.tree.Reachable) (hlimits : s'.intake.limits = s.intake.limits)
    (hcalls : s'.calls = s.calls) (hmetrics : s'.metrics = s.metrics) : Told s s' [] [] where
  reachable := hreach
  limits_eq := hlimits
  faults_eq := by rw [hcalls, List.append_nil]
  value_eq := fun _ _ => by rw [hmetrics, List.count_nil, Nat.add_zero]

theorem trans {calls calls' : List Call} {counted counted' : List Counter} (h : Told s s' calls counted)
    (h' : Told s' s'' calls' counted') : Told s s'' (calls ++ calls') (counted ++ counted') where
  reachable := h'.reachable
  limits_eq := h'.limits_eq.trans h.limits_eq
  faults_eq := by rw [h'.faults_eq, h.faults_eq, List.append_assoc]
  value_eq := fun c hc => by rw [h'.value_eq c hc, h.value_eq c hc, List.count_append, Nat.add_assoc]

end Told

/-! ### Calm acts -/

/-- An act that returns, tells the host of no fault and counts nothing. -/
def Act.Calm (m : Act α) : Prop :=
  ∀ s, s.intake.tree.Reachable → ∃ s' a, m s = (s', .ok a) ∧ Told s s' [] []

namespace Act.Calm

theorem pure (a : α) : (Pure.pure a : Act α).Calm := fun s hs => ⟨s, a, rfl, .of_eq hs rfl rfl rfl⟩

theorem get (f : Session → α) : (Act.get f).Calm := fun s hs => ⟨s, f s, rfl, .of_eq hs rfl rfl rfl⟩

theorem change {f : Session → Session} (hf : ∀ s, s.intake.tree.Reachable → Told s (f s) [] []) :
    (Act.change f).Calm := fun s hs => ⟨f s, (), rfl, hf s hs⟩

theorem bind {m : Act α} {k : α → Act β} (hm : m.Calm) (hk : ∀ a, (k a).Calm) : (m >>= k).Calm := by
  intro s hs
  obtain ⟨s₁, a, hfirst, htold⟩ := hm s hs
  obtain ⟨s₂, b, hsecond, htold'⟩ := hk a s₁ htold.reachable
  refine ⟨s₂, b, ?_, htold.trans htold'⟩
  rw [bind_apply, hfirst]
  exact hsecond

end Act.Calm

/-! ### Attentive hosts -/

/-- What the host hears of a call: every call about a fault, if it listens. -/
def heard (listens : CallKind → Bool) (c : Call) : List Call :=
  if c.kind ≠ .update ∧ listens c.kind = true then [c] else []

/-- A way of telling that always returns, and of which the host hears just what it is told of faults. -/
def Attentive (listens : CallKind → Bool) (tell : Teller) : Prop :=
  ∀ c s, s.intake.tree.Reachable → ∃ s', tell c s = (s', .ok ()) ∧ Told s s' (heard listens c) []

namespace Attentive

variable (h : Attentive listens tell)

include h

theorem notify : (notify tell).Calm := by
  intro s hs
  obtain ⟨s', htell, htold⟩ := h (.update s.snapshot) s hs
  exact ⟨s', (), htell, htold⟩

theorem setStatus (status : Status) : (setStatus tell status).Calm := by
  intro s hs
  rw [Session.setStatus]
  by_cases hsame : s.status = status
  · rw [if_pos hsame]
    exact ⟨s, (), rfl, .of_eq hs rfl rfl rfl⟩
  · rw [if_neg hsame]
    obtain ⟨s', a, hnotify, htold⟩ := h.notify { s with status := status } hs
    exact ⟨s', a, hnotify, ⟨htold.reachable, htold.limits_eq, htold.faults_eq, htold.value_eq⟩⟩

/-- A tree that records have made can be published. -/
theorem publish : (publish tell).Calm := by
  intro s hs
  obtain ⟨roots, hroots, _⟩ := hs.sound.exists_roots_eq_ok
  have hpublished : publishedRoots s.intake.tree = .ok roots := by rw [publishedRoots, hroots]
  rw [Session.publish, hpublished]
  obtain ⟨s', a, hnotify, htold⟩ := h.notify { s with roots := roots, version := s.intake.tree.version } hs
  exact ⟨s', a, hnotify, ⟨htold.reachable, htold.limits_eq, htold.faults_eq, htold.value_eq⟩⟩

theorem disconnect : (disconnect tell).Calm :=
  .bind (.change fun _ hs => .of_eq hs rfl rfl rfl) fun _ => h.setStatus .idle

theorem reset : (reset tell).Calm := .bind (.change fun _ _ => .of_eq .empty rfl rfl rfl) fun _ => h.publish

theorem connect (message : Option String) (extra : Assoc Json.Value) : (connect tell message extra).Calm := by
  refine .bind h.disconnect fun _ => .bind (.change fun _ _ => .of_eq .empty rfl rfl rfl) fun _ => ?_
  refine .bind (.get _) fun task => .bind h.publish fun _ => .bind (h.setStatus .connecting) fun _ => ?_
  exact .change fun _ hs => .of_eq hs rfl rfl rfl

end Attentive

/-! ### Reactions -/

/-- Whether a reaction raises a fault. -/
def Reaction.raises : Reaction → Bool
  | .raise _ => true
  | _ => false

theorem Reaction.calm_run (h : Attentive listens tell) {r : Reaction} (hr : r.raises = false) : (r.run tell).Calm := by
  cases r with
  | raise message => exact absurd hr (by simp [raises])
  | disconnect => exact h.disconnect
  | reset => exact h.reset
  | connect message => exact h.connect message []

theorem Reaction.calm_runAll (h : Attentive listens tell) {reactions : List Reaction}
    (hall : ∀ r ∈ reactions, r.raises = false) : (Reaction.runAll tell reactions).Calm := by
  induction reactions with
  | nil => exact .pure ()
  | cons r rest ih =>
    exact .bind (calm_run h (hall r List.mem_cons_self)) fun _ => ih fun r' hr' => hall r' (List.mem_cons_of_mem _ hr')

/-- A call is taken down first; it is one about a fault or an update. -/
theorem told_record (c : Call) (hc : listens c.kind = true) (hs : s.intake.tree.Reachable) :
    Told s (record c s) (heard listens c) [] where
  reachable := hs
  limits_eq := rfl
  faults_eq := by
    rw [record, faultCalls, List.filter_append, faultCalls, heard]
    by_cases hkind : c.kind = .update
    · rw [if_neg fun hboth => hboth.1 hkind, List.filter_cons_of_neg (by simpa using hkind)]
      rfl
    · rw [if_pos ⟨hkind, hc⟩, List.filter_cons_of_pos (by simpa using hkind)]
      rfl
  value_eq := fun _ _ => rfl

theorem heard_of_not_listens {c : Call} (hc : ¬ listens c.kind = true) : heard listens c = [] :=
  if_neg fun hboth => hc hboth.2

/-- **A host whose reactions raise no fault is attentive**, however deep they nest. -/
theorem Host.attentive_tell {h : Host} (hcalm : ∀ calls, ∀ r ∈ h.reactions calls, r.raises = false) :
    Attentive h.listens h.tell := by
  have hall : ∀ n, Attentive h.listens (h.tellWithin n) := by
    intro n
    induction n with
    | zero =>
      intro c s hs
      rw [tellWithin]
      by_cases hc : h.listens c.kind = true
      · rw [if_pos hc]
        exact ⟨record c s, rfl, told_record c hc hs⟩
      · rw [if_neg hc, heard_of_not_listens hc]
        exact ⟨s, rfl, .of_eq hs rfl rfl rfl⟩
    | succ n ih =>
      intro c s hs
      rw [tellWithin]
      by_cases hc : h.listens c.kind = true
      · rw [if_pos hc]
        have hrecord := told_record c hc hs
        obtain ⟨s', _, hrun, htold⟩ := Reaction.calm_runAll ih (hcalm (record c s).calls) _ hrecord.reachable
        refine ⟨s', hrun, ?_⟩
        have hboth := hrecord.trans htold
        rwa [List.append_nil, List.append_nil] at hboth
      · rw [if_neg hc, heard_of_not_listens hc]
        exact ⟨s, rfl, .of_eq hs rfl rfl rfl⟩
  exact hall h.depth

end ComponentStream.Session
