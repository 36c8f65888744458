import ComponentStream.Proofs.Stream.Chunks
import ComponentStream.Session.Host
import ComponentStream.Session.Step

/-!
# The core of a session

Most of what a session does at a step is for the host: it keeps a state, a fault or the roots for it and tells it of
them.  What decides about later steps is the *core* — the tasks, the tree with its buffers, and the place in time.  With
a host that neither raises a fault nor calls back, telling leaves the core alone.

* `Core`, `Session.core` — what decides about later steps;
* `Act.Leads` — acts that lead from one session to another one in some relation to it, closed under sequencing;
* `Act.Keeps` — acts that leave something of a session alone, whatever it is;
* `Act.Outward`, `Act.Returns` — acts that leave the core alone, and acts that raise no fault;
* `Mute`, `Plain`, `Host.plain_tell` — a host without reactions, which is `Passive` then;
* `core_feed`, `core_finish` — chunks and the end of a stream do to the core what they do to its buffers.
-/

namespace ComponentStream.Session

open ComponentStream.Stream (Intake Report processAll processRecord splitRecords)

/-- What decides about later steps of a session. -/
structure Core where
  generation : Nat
  epoch : Nat
  intake : Intake
  mainTask : Option Nat
  tasks : List Task

/-- The core with another tree and other buffers. -/
def Core.withIntake (c : Core) (i : Intake) : Core := { c with intake := i }

/-- The core of a session. -/
def core (s : Session) : Core := ⟨s.generation, s.epoch, s.intake, s.mainTask, s.tasks⟩

variable {α β γ δ : Type} {s : Session}

/-! ### Acts and the core -/

namespace Act

/-- An act that leaves alone what is read off a session, whether it returns or raises a fault. -/
def Keeps (f : Session → γ) (m : Act α) : Prop := ∀ s, f (m s).1 = f s

/-- An act that changes at most what is meant for the host. -/
def Outward (m : Act α) : Prop := ∀ s, (m s).1.core = s.core

/-- An act that raises no fault. -/
def Returns (m : Act α) : Prop := ∀ s, ∃ a, (m s).2 = .ok a

theorem bind_apply (m : Act α) (f : α → Act β) (s : Session) :
    (m >>= f) s =
      match m s with
      | (s, .ok a) => f a s
      | (s, .error fault) => (s, .error fault) := rfl

/-- What holds where the first of two acts raises a fault, and after the second one otherwise, holds after both. -/
theorem of_bind {P : Session → Prop} {m : Act α} {k : α → Act β}
    (hfault : ∀ s' fault, m s = (s', .error fault) → P s') (hok : ∀ s' a, m s = (s', .ok a) → P (k a s').1) :
    P ((m >>= k) s).1 := by
  rw [bind_apply]
  cases hm : m s with
  | mk s' r =>
    cases r with
    | ok a => exact hok s' a hm
    | error fault => exact hfault s' fault hm

theorem eq_ok {m : Act Unit} (h : ∃ a, (m s).2 = .ok a) : m s = ((m s).1, .ok ()) := by
  obtain ⟨_, ha⟩ := h
  exact Prod.ext rfl ha

/-- An act that leads from every session to one that stands in some relation to it, whether it returns or raises a
fault. -/
def Leads (R : Session → Session → Prop) (m : Act α) : Prop := ∀ s, R s (m s).1

namespace Leads

variable {R : Session → Session → Prop}

theorem pure (hrefl : ∀ s, R s s) (a : α) : (Pure.pure a : Act α).Leads R := fun s => hrefl s

theorem bind (htrans : ∀ s s' s'', R s s' → R s' s'' → R s s'') {m : Act α} {k : α → Act β} (hm : m.Leads R)
    (hk : ∀ a, (k a).Leads R) : (m >>= k).Leads R := by
  intro s
  have hfirst := hm s
  refine of_bind (P := R s) (fun s' fault hfault => ?_) fun s' a hok => ?_
  · rw [hfault] at hfirst
    exact hfirst
  · rw [hok] at hfirst
    exact htrans s s' _ hfirst (hk a s')

theorem ite {b : Prop} [Decidable b] {m m' : Act α} (hm : m.Leads R) (hm' : m'.Leads R) :
    (if b then m else m').Leads R := by
  by_cases hb : b
  · rw [if_pos hb]
    exact hm
  · rw [if_neg hb]
    exact hm'

theorem unlessStale (t : Stint) {m m' : Act α} (hm : m.Leads R) (hm' : m'.Leads R) :
    (Act.unlessStale t m m').Leads R := by
  intro s
  rw [Act.unlessStale]
  by_cases hc : s.isCurrent t = true
  · rw [if_pos hc]
    exact hm' s
  · rw [if_neg hc]
    exact hm s

end Leads

namespace Keeps

variable {f : Session → γ}

/-- What follows and keeps something leaves it as it has become. -/
theorem read_bind (m : Act α) {k : α → Act β} (hk : ∀ a, (k a).Keeps f) (s : Session) :
    f ((m >>= k) s).1 = f (m s).1 := by
  rw [bind_apply]
  cases hm : m s with
  | mk s' r =>
    cases r with
    | ok a => exact hk a s'
    | error fault => rfl

theorem pure (a : α) : (Pure.pure a : Act α).Keeps f := fun _ => rfl

theorem bind {m : Act α} {k : α → Act β} (hm : m.Keeps f) (hk : ∀ a, (k a).Keeps f) : (m >>= k).Keeps f :=
  fun s => (read_bind m hk s).trans (hm s)

theorem ite {b : Prop} [Decidable b] {m m' : Act α} (hm : m.Keeps f) (hm' : m'.Keeps f) :
    (if b then m else m').Keeps f :=
  Leads.ite (R := fun s s' => f s' = f s) hm hm'

theorem unlessStale (t : Stint) {m m' : Act α} (hm : m.Keeps f) (hm' : m'.Keeps f) :
    (Act.unlessStale t m m').Keeps f :=
  Leads.unlessStale (R := fun s s' => f s' = f s) t hm hm'

/-- What is kept as a whole is kept in its parts. -/
theorem map {m : Act α} (h : m.Keeps f) (g : γ → δ) : m.Keeps fun s => g (f s) := fun s => congrArg g (h s)

end Keeps

/-- What follows outwardly leaves the core as it has become. -/
theorem core_bind (m : Act α) {k : α → Act β} (hk : ∀ a, (k a).Outward) (s : Session) :
    ((m >>= k) s).1.core = (m s).1.core :=
  Keeps.read_bind m hk s

theorem Outward.pure (a : α) : (Pure.pure a : Act α).Outward := fun _ => rfl

theorem Outward.ite {b : Prop} [Decidable b] {m m' : Act α} (hm : m.Outward) (hm' : m'.Outward) :
    (if b then m else m').Outward :=
  Keeps.ite (f := core) hm hm'

theorem Returns.bind {m : Act α} {f : α → Act β} (hm : m.Returns) (hf : ∀ a, (f a).Returns) : (m >>= f).Returns := by
  intro s
  obtain ⟨a, ha⟩ := hm s
  rw [bind_apply]
  cases hms : m s with
  | mk s' r =>
    rw [hms] at ha
    subst ha
    exact hf a s'

theorem Returns.pure (a : α) : (Pure.pure a : Act α).Returns := fun _ => ⟨a, rfl⟩

theorem Returns.change (f : Session → Session) : (Act.change f).Returns := fun _ => ⟨(), rfl⟩

end Act

/-! ### Telling the host -/

namespace Act.Keeps

variable {tell : Teller} {f : Session → γ}

/-- Setting a state keeps what does not depend on it, if telling the host does. -/
theorem setStatus (hf : ∀ s status, f { s with status := status } = f s) (h : ∀ c, (tell c).Keeps f)
    (status : Status) : (setStatus tell status).Keeps f := by
  intro s
  rw [Session.setStatus]
  by_cases hs : s.status = status
  · rw [if_pos hs]
  · rw [if_neg hs]
    exact (h _ _).trans (hf s status)

theorem publish (hf : ∀ s roots version, f { s with roots := roots, version := version } = f s)
    (h : ∀ c, (tell c).Keeps f) : (publish tell).Keeps f := by
  intro s
  rw [Session.publish]
  cases publishedRoots s.intake.tree with
  | ok roots => exact (h _ _).trans (hf s roots s.intake.tree.version)
  | error fault => rfl

theorem report (hf : ∀ s fault, f { s with lastError := fault } = f s) {fault : Fault}
    (h : (tell (.error fault)).Keeps f) : (report tell fault).Keeps f :=
  Act.Keeps.bind (fun s => hf s (some fault)) fun _ => h

/-- Delivering a report keeps what depends neither on the faults that stand nor on what the host is told of them. -/
theorem deliver (hlast : ∀ s fault, f { s with lastError := fault } = f s)
    (hterm : ∀ s terminal, f { s with terminal := terminal } = f s) (hwarning : ∀ w, (tell (.warning w)).Keeps f)
    (herror : ∀ fault, (tell (.error fault)).Keeps f) (r : Option Report) : (deliver tell r).Keeps f := by
  have hreport : ∀ fault, (Session.report tell fault).Keeps f := fun fault => report hlast (herror fault)
  cases r with
  | none => exact Act.Keeps.pure ()
  | some r =>
    cases r with
    | warning w => exact hwarning w
    | backend message recoverable => exact Act.Keeps.bind (fun s => hterm s _) fun _ => hreport _
    | invariant e n => exact hreport _

end Act.Keeps

/-- What is read off a session after a record is what is read off it once the report is delivered, unless it is about
counters. -/
theorem read_takeRecord {f : Session → γ} (hf : ∀ s metrics, f { s with metrics := metrics } = f s) (tell : Teller)
    (bytes : List UInt8) (s : Session) :
    f (takeRecord tell bytes s).1 =
      f (deliver tell (processRecord s.intake.limits s.intake.tree bytes).2.report?
        { s with
          intake := { s.intake with tree := (processRecord s.intake.limits s.intake.tree bytes).1 }
          metrics := s.metrics.addAll (processRecord s.intake.limits s.intake.tree bytes).2.faultCounters }).1 := by
  generalize hr : processRecord s.intake.limits s.intake.tree bytes = result
  obtain ⟨tree, verdict⟩ := result
  rw [takeRecord, hr]
  dsimp only
  cases deliver tell verdict.report?
      { s with intake := { s.intake with tree := tree }, metrics := s.metrics.addAll verdict.faultCounters } with
  | mk s' r =>
    cases r with
    | ok a => exact hf s' _
    | error fault => rfl

/-! ### Hosts without reactions -/

/-- A way of telling that takes the call down and does nothing else. -/
def Mute (tell : Teller) : Prop := ∀ c s, ∃ calls, tell c s = ({ s with calls := calls }, .ok ())

theorem Mute.keeps {tell : Teller} (h : Mute tell) {f : Session → γ}
    (hf : ∀ s calls, f { s with calls := calls } = f s) (c : Call) : (tell c).Keeps f := by
  intro s
  obtain ⟨calls, hs⟩ := h c s
  rw [hs]
  exact hf s calls

/-- A way of telling that neither raises a fault nor touches the core. -/
structure Passive (tell : Teller) : Prop where
  outward : ∀ c, (tell c).Outward
  returns : ∀ c, (tell c).Returns

theorem Mute.passive {tell : Teller} (h : Mute tell) : Passive tell where
  outward := h.keeps fun _ _ => rfl
  returns := by
    intro c s
    obtain ⟨calls, hs⟩ := h c s
    exact ⟨(), congrArg Prod.snd hs⟩

/-- A way of telling that takes down what the host listens to, and does nothing else. -/
def Plain (listens : CallKind → Bool) (tell : Teller) : Prop :=
  ∀ c s, tell c s = (if listens c.kind = true then record c s else s, .ok ())

theorem Plain.mute {listens : CallKind → Bool} {tell : Teller} (h : Plain listens tell) : Mute tell := by
  intro c s
  by_cases hl : listens c.kind = true
  · refine ⟨s.calls ++ [c], ?_⟩
    rw [h, if_pos hl]
    rfl
  · refine ⟨s.calls, ?_⟩
    rw [h, if_neg hl]

/-- A host without reactions is plain, however deep its reactions might nest. -/
theorem Host.plain_tell {h : Host} (hquiet : ∀ calls, h.reactions calls = []) : Plain h.listens h.tell := by
  have hall : ∀ n, Plain h.listens (h.tellWithin n) := by
    intro n c s
    by_cases hl : h.listens c.kind = true
    · rw [if_pos hl]
      cases n with
      | zero =>
        rw [tellWithin, if_pos hl]
        rfl
      | succ n =>
        rw [tellWithin, if_pos hl]
        show Reaction.runAll (h.tellWithin n) (h.reactions (record c s).calls) (record c s) = _
        rw [hquiet]
        rfl
    · rw [if_neg hl]
      cases n with
      | zero =>
        rw [tellWithin, if_neg hl]
        rfl
      | succ n =>
        rw [tellWithin, if_neg hl]
        rfl
  exact hall h.depth

theorem Host.mute_tell {h : Host} (hquiet : ∀ calls, h.reactions calls = []) : Mute h.tell :=
  (Host.plain_tell hquiet).mute

theorem Host.passive_tell {h : Host} (hquiet : ∀ calls, h.reactions calls = []) : Passive h.tell :=
  (Host.mute_tell hquiet).passive

namespace Passive

variable {tell : Teller} (hp : Passive tell)

include hp

theorem setStatus (status : Status) : (setStatus tell status).Outward :=
  Act.Keeps.setStatus (fun _ _ => rfl) hp.outward status

theorem publish : (publish tell).Outward := Act.Keeps.publish (fun _ _ _ => rfl) hp.outward

theorem report (fault : Fault) : (report tell fault).Outward := Act.Keeps.report (fun _ _ => rfl) (hp.outward _)

theorem setStatus_returns (status : Status) : (Session.setStatus tell status).Returns := by
  intro s
  rw [Session.setStatus]
  by_cases hs : s.status = status
  · rw [if_pos hs]
    exact ⟨(), rfl⟩
  · rw [if_neg hs]
    exact hp.returns _ _

theorem report_returns (fault : Fault) : (Session.report tell fault).Returns :=
  Act.Returns.bind (Act.Returns.change _) fun _ => hp.returns _

theorem deliver (r : Option Report) : (deliver tell r).Outward :=
  Act.Keeps.deliver (fun _ _ => rfl) (fun _ _ => rfl) (fun _ => hp.outward _) (fun _ => hp.outward _) r

theorem deliver_returns (r : Option Report) : (Session.deliver tell r).Returns := by
  cases r with
  | none => exact Act.Returns.pure ()
  | some r =>
    cases r with
    | warning w => exact hp.returns _
    | backend message recoverable =>
      exact Act.Returns.bind (Act.Returns.change _) fun _ => hp.report_returns _
    | invariant e n => exact hp.report_returns _

/-! ### Records -/

/-- A record does to the core what it does to the tree, and the records behind it get their turn. -/
theorem takeRecord (bytes : List UInt8) (s : Session) :
    ∃ s', takeRecord tell bytes s = (s', .ok (processRecord s.intake.limits s.intake.tree bytes).2) ∧
      s'.core =
        s.core.withIntake { s.intake with tree := (processRecord s.intake.limits s.intake.tree bytes).1 } := by
  have hcore := (read_takeRecord (f := core) (fun _ _ => rfl) tell bytes s).trans (hp.deliver _ _)
  refine ⟨_, Prod.ext rfl ?_, hcore⟩
  generalize hr : processRecord s.intake.limits s.intake.tree bytes = result
  obtain ⟨tree, verdict⟩ := result
  rw [Session.takeRecord, hr]
  dsimp only
  rw [Act.eq_ok (hp.deliver_returns verdict.report? _)]

/-- Records do to the core what they do to the tree. -/
theorem core_takeRecords (records : List (List UInt8)) (accepted : Bool) (s : Session) :
    (takeRecords tell accepted records s).1.core =
      s.core.withIntake { s.intake with tree := (processAll s.intake.limits s.intake.tree records).1 } := by
  induction records generalizing accepted s with
  | nil =>
    rw [takeRecords]
    exact Act.Outward.ite hp.publish (Act.Outward.pure ()) s
  | cons r records ih =>
    obtain ⟨s', htake, hcore⟩ := hp.takeRecord r s
    rw [takeRecords, Act.bind_apply, htake]
    show (takeRecords tell _ records s').1.core = _
    have hintake : s'.intake = { s.intake with tree := (processRecord s.intake.limits s.intake.tree r).1 } :=
      congrArg Core.intake hcore
    rw [ih, hcore, hintake]
    rfl

/-- **A chunk does to the core what it does to its buffer.** -/
theorem core_feed (n : Nat) (chunk : Chunk) (s : Session) :
    (feed tell n chunk s).1.core = s.core.withIntake (s.intake.feed n chunk.bytes).1 := by
  have hreceive : (receive n chunk s).core = s.core.withIntake { s.intake with
      buffers := s.intake.buffers.set n (splitRecords (s.intake.buffer n ++ chunk.bytes)).2 } := by
    rw [receive]
    cases chunk.raw with
    | true => rfl
    | false => rfl
  have hintake : (receive n chunk s).intake = _ := congrArg Core.intake hreceive
  rw [feed, hp.core_takeRecords, hreceive, hintake]
  rfl

/-- **The end of a stream does to the core what it does to its buffer.** -/
theorem core_finish (n : Nat) (s : Session) :
    (finish tell n s).1.core = s.core.withIntake (s.intake.flush n).1 := by
  rw [finish, hp.core_takeRecords]
  rfl

end Passive

end ComponentStream.Session
