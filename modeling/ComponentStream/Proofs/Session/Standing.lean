import ComponentStream.Proofs.Session.Core

/-!
# The standing of a session

The *standing* of a session is its state, its place in time and what it has under way.  Taking records in and telling
the host leave it alone; the state changes only where it is set on purpose, and a fault that the host raises then does
not undo that.

* `Schedule`, `Session.standing` — the state of a session beside its place in time and its tasks;
* `Steady`, `Host.steady_tell`, `Host.steady_ofHooks` — a host that may raise a fault at any call, but neither connects
  nor disconnects from within one;
* `Steady.takeRecords`, `Steady.feed`, `Steady.finish` — records leave the standing alone, even if a fault cuts them
  short;
* `Steady.standing_setStatus` — a state that is set stays set.
-/

namespace ComponentStream.Session

open ComponentStream.Stream (Report processRecord)

/-- The place of a session in time, and what it has under way. -/
structure Schedule where
  stint : Stint
  tasks : List Task

def schedule (s : Session) : Schedule := ⟨s.stint, s.tasks⟩

/-- The state of a session, with its schedule. -/
def standing (s : Session) : Status × Schedule := (s.status, s.schedule)

/-- A way of telling that leaves the standing of a session alone, though it may raise any fault. -/
def Steady (tell : Teller) : Prop := ∀ c, (tell c).Keeps standing

theorem Mute.steady {tell : Teller} (h : Mute tell) : Steady tell := h.keeps fun _ _ => rfl

/-- A state that is set is set even if the host raises a fault on hearing of it. -/
theorem Steady.standing_setStatus {tell : Teller} (h : Steady tell) (status : Status) (s : Session) :
    (setStatus tell status s).1.standing = (status, s.schedule) := by
  rw [setStatus]
  by_cases hs : s.status = status
  · rw [if_pos hs, standing, hs]
  · rw [if_neg hs]
    exact h _ { s with status := status }

namespace Steady

variable {tell : Teller} (h : Steady tell)

include h

theorem status_setStatus (status : Status) (s : Session) : (setStatus tell status s).1.status = status :=
  congrArg Prod.fst (h.standing_setStatus status s)

theorem schedule_setStatus (status : Status) : (setStatus tell status).Keeps schedule :=
  fun s => congrArg Prod.snd (h.standing_setStatus status s)

theorem publish : (publish tell).Keeps standing := Act.Keeps.publish (fun _ _ _ => rfl) h

theorem report (fault : Fault) : (report tell fault).Keeps standing := Act.Keeps.report (fun _ _ => rfl) (h _)

/-! ### Records -/

theorem deliver (r : Option Report) : (deliver tell r).Keeps standing :=
  Act.Keeps.deliver (fun _ _ => rfl) (fun _ _ => rfl) (fun _ => h _) (fun _ => h _) r

theorem takeRecord (bytes : List UInt8) : (takeRecord tell bytes).Keeps standing :=
  fun s => (read_takeRecord (f := standing) (fun _ _ => rfl) tell bytes s).trans (h.deliver _ _)

/-- However many records are taken in before a fault cuts them short, the standing is kept. -/
theorem takeRecords (records : List (List UInt8)) (accepted : Bool) :
    (takeRecords tell accepted records).Keeps standing := by
  induction records generalizing accepted with
  | nil => exact Act.Keeps.ite h.publish (Act.Keeps.pure ())
  | cons r records ih => exact Act.Keeps.bind (h.takeRecord r) fun verdict => ih _

theorem feed (n : Nat) (chunk : Chunk) : (feed tell n chunk).Keeps standing := by
  intro s
  have hreceive : (receive n chunk s).standing = s.standing := by
    rw [receive]
    cases chunk.raw with
    | true => rfl
    | false => rfl
  exact (h.takeRecords _ false _).trans hreceive

theorem finish (n : Nat) : (finish tell n).Keeps standing := fun s => h.takeRecords _ false (setBuffer n [] s)

end Steady

/-! ### Hosts that control nothing -/

/-- Whether a reaction makes all tasks stale that were started before it. -/
def Reaction.supersedes : Reaction → Bool
  | .connect _ => true
  | .disconnect => true
  | _ => false

theorem Reaction.keeps_run {tell : Teller} (h : Steady tell) {r : Reaction} (hr : r.supersedes = false) :
    (r.run tell).Keeps standing := by
  cases r with
  | raise message => exact fun _ => rfl
  | reset => exact Act.Keeps.bind (fun _ => rfl) fun _ => h.publish
  | disconnect => exact absurd hr (by simp [supersedes])
  | connect message => exact absurd hr (by simp [supersedes])

theorem Reaction.keeps_runAll {tell : Teller} (h : Steady tell) {reactions : List Reaction}
    (hall : ∀ r ∈ reactions, r.supersedes = false) : (Reaction.runAll tell reactions).Keeps standing := by
  induction reactions with
  | nil => exact Act.Keeps.pure ()
  | cons r rest ih =>
    exact Act.Keeps.bind (keeps_run h (hall r List.mem_cons_self)) fun _ =>
      ih fun r' hr' => hall r' (List.mem_cons_of_mem _ hr')

/-- A host is steady if it neither connects nor disconnects from within a call, however deep its reactions nest. -/
theorem Host.steady_tell {h : Host} (hstay : ∀ calls, ∀ r ∈ h.reactions calls, r.supersedes = false) :
    Steady h.tell := by
  have hall : ∀ n, Steady (h.tellWithin n) := by
    intro n
    induction n with
    | zero => exact fun c => Act.Keeps.ite (fun _ => rfl) (Act.Keeps.pure ())
    | succ n ih =>
      intro c
      refine Act.Keeps.ite ?_ (Act.Keeps.pure ())
      refine Act.Keeps.bind (fun _ => rfl) fun _ s => ?_
      exact Reaction.keeps_runAll ih (hstay s.calls) s
  exact hall h.depth

/-- What hooks do is among their reactions. -/
theorem Hook.exists_of_mem_reactions {hooks : List Hook} {calls : List Call} {r : Reaction}
    (hr : r ∈ Hook.reactions hooks calls) : ∃ k ∈ hooks, k.reaction = r := by
  rw [Hook.reactions] at hr
  cases hlast : calls.getLast? with
  | none =>
    rw [hlast] at hr
    exact absurd hr List.not_mem_nil
  | some c =>
    rw [hlast] at hr
    obtain ⟨k, hk, rfl⟩ := List.mem_map.mp hr
    exact ⟨k, List.mem_of_mem_filter hk, rfl⟩

/-- Hooks make a steady host if none of them connects or disconnects. -/
theorem Host.steady_ofHooks {hooks : List Hook} (hstay : ∀ k ∈ hooks, k.reaction.supersedes = false)
    (listens : CallKind → Bool) : Steady (Host.ofHooks hooks listens).tell := by
  refine Host.steady_tell fun calls r hr => ?_
  obtain ⟨k, hk, rfl⟩ := Hook.exists_of_mem_reactions hr
  exact hstay k hk

end ComponentStream.Session
