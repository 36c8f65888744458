import Mathlib.Logic.Function.Basic
import ComponentStream.Proofs.Session.Stale
import ComponentStream.Proofs.Session.Step

/-!
# A ledger of records

The tree of a session is fed by many tasks through buffers that they take over from one another.  A *ledger* knows
nothing of buffers: it keeps for each task what that task has received and not finished, and the records that were
finished, in order.  Session and ledger agree in every run, so that no record is ever made of the bytes of two tasks, or
of bytes from before a connect.

* `Ledger`, `Ledger.enter` — the records that have been finished, and what a step adds to them;
* `Task.channel?`, `Task.Fits` — the buffer of a task, and what its phase says of it;
* `Linked` — the agreement of a session with its ledger;
* `Linked.endEpoch`, `Linked.beginGeneration`, `Linked.launch`, `Linked.reset`, `Linked.stepped` — everything that a
  session does keeps it.
-/

namespace ComponentStream.Session

open Protocol (Limits)
open ComponentStream.Stream (Intake processAll processAll_append splitRecords)

/-- What the streams of a session have brought since its tree was last emptied. -/
structure Ledger where
  /-- What each task has received and not finished. -/
  pending : Nat → List UInt8
  /-- The records that have been finished, in order. -/
  taken : List (List UInt8)

namespace Ledger

/-- Nothing has been received. -/
def blank : Ledger := ⟨fun _ => [], []⟩

/-- Enters what a task gains. -/
def enter (l : Ledger) (id : Nat) : Gain → Ledger
  | .nothing => l
  | .chunk bytes =>
    ⟨Function.update l.pending id (splitRecords (l.pending id ++ bytes)).2,
      l.taken ++ (splitRecords (l.pending id ++ bytes)).1⟩
  | .rest => ⟨Function.update l.pending id [], l.taken ++ [l.pending id]⟩

/-- Forgets all records, and what some tasks have not finished. -/
def clear (l : Ledger) (lost : Nat → Bool) : Ledger := ⟨fun id => if lost id then [] else l.pending id, []⟩

variable {l : Ledger} {id n : Nat} {i : Intake} {limits : Limits}

theorem pending_enter_of_ne (l : Ledger) {k : Nat} (hk : k ≠ id) (g : Gain) :
    (l.enter id g).pending k = l.pending k := by
  cases g with
  | nothing => rfl
  | chunk bytes => exact Function.update_of_ne hk _ _
  | rest => exact Function.update_of_ne hk _ _

/-- A buffer that holds what a task has not finished does so after a gain. -/
theorem buffer_enter (hn : n < i.buffers.length) (hbytes : i.buffer n = l.pending id) (g : Gain) :
    (g.enter i n).buffer n = (l.enter id g).pending id := by
  cases g with
  | nothing => exact hbytes
  | chunk bytes =>
    have hown : (l.enter id (.chunk bytes)).pending id = _ := Function.update_self id _ _
    rw [hown, ← hbytes]
    exact Intake.buffer_set hn _ _
  | rest =>
    have hown : (l.enter id .rest).pending id = [] := Function.update_self id _ _
    rw [hown]
    exact Intake.buffer_set hn _ _

/-- And the records that the gain finishes are those that it takes into the tree. -/
theorem tree_enter (htree : (processAll limits .empty l.taken).1 = i.tree) (hlimits : i.limits = limits)
    (hbytes : i.buffer n = l.pending id) (g : Gain) :
    (processAll limits .empty (l.enter id g).taken).1 = (g.enter i n).tree := by
  cases g with
  | nothing => exact htree
  | chunk bytes =>
    show (processAll limits .empty (l.taken ++ _)).1 = (processAll i.limits i.tree _).1
    rw [processAll_append, htree, hlimits, hbytes]
  | rest =>
    show (processAll limits .empty (l.taken ++ [l.pending id])).1 = (processAll i.limits i.tree [i.buffer n]).1
    rw [processAll_append, htree, hlimits, hbytes]

end Ledger

/-! ### Tasks and their buffers -/

/-- The buffer that the records of a task go through, once it has one. -/
def Task.channel? (t : Task) : Option Nat :=
  match t.work, t.phase with
  | .main _, _ => some 0
  | .reply _, .opening n => some n
  | .reply _, .reading n => some n
  | _, _ => none

/-- Whether a task waits for its first step and reads no main stream. -/
def Task.isUnread (t : Task) : Bool := t.work.isAction && decide (t.phase = .fresh)

/-- What the phase of a task says of its buffer, there being so many of them. -/
structure Task.Fits (size : Nat) (t : Task) : Prop where
  posting : t.phase = .posting → t.work = .post
  channel : ∀ n, t.phase = .opening n ∨ t.phase = .reading n → t.channel? = some n
  bound : ∀ n, t.channel? = some n → n < size
  /-- The first buffer is for main streams alone. -/
  positive : t.work.isAction = true → ∀ n, t.channel? = some n → 0 < n

theorem Task.Fits.proper {size : Nat} {t : Task} (h : t.Fits size) : t.Proper where
  posting := h.posting
  streaming := by
    intro n hphase hpost
    have hchan := h.channel n hphase
    rw [Task.channel?, hpost] at hchan
    exact absurd hchan (by simp)

theorem Task.channel?_eq_some_iff {t : Task} {n : Nat} :
    t.channel? = some n ↔
      ((∃ stint, t.work = .main stint) ∧ n = 0) ∨
        ((∃ stint, t.work = .reply stint) ∧ (t.phase = .opening n ∨ t.phase = .reading n)) := by
  obtain ⟨work, body, phase, requested⟩ := t
  cases work with
  | main stint => simp [Task.channel?, eq_comm]
  | reply stint => cases phase <;> simp [Task.channel?]
  | post => simp [Task.channel?]

theorem Task.channel?_eq_of_phase {t u : Task} (hwork : u.work = t.work) (hphase : u.phase = t.phase) :
    u.channel? = t.channel? := by
  rw [Task.channel?, Task.channel?, hwork, hphase]

/-- A stream that has a response, or waits for it, fits if its buffer does. -/
theorem Task.Fits.of_channel {size : Nat} {t : Task} {n : Nat} (hphase : t.phase = .opening n ∨ t.phase = .reading n)
    (hchan : t.channel? = some n) (hn : n < size) (hpos : t.work.isAction = true → 0 < n) : t.Fits size where
  posting := by
    intro hp
    rcases hphase with hopen | hread
    · exact absurd (hopen.symm.trans hp) (by simp)
    · exact absurd (hread.symm.trans hp) (by simp)
  channel := by
    intro m hm
    have hnm : n = m := by
      rcases hphase with hp | hp
      · simpa [hp] using hm
      · simpa [hp] using hm
    exact hnm ▸ hchan
  bound := fun m hm => Option.some.inj (hchan.symm.trans hm) ▸ hn
  positive := fun ha m hm => Option.some.inj (hchan.symm.trans hm) ▸ hpos ha

theorem Task.Fits.of_phase {size : Nat} {t u : Task} (h : t.Fits size) (hwork : u.work = t.work)
    (hphase : u.phase = t.phase) : u.Fits size where
  posting := by
    rw [hphase, hwork]
    exact h.posting
  channel := by
    rw [hphase, Task.channel?_eq_of_phase hwork hphase]
    exact h.channel
  bound := by
    rw [Task.channel?_eq_of_phase hwork hphase]
    exact h.bound
  positive := by
    rw [hwork, Task.channel?_eq_of_phase hwork hphase]
    exact h.positive

theorem Task.Fits.mono {size size' : Nat} {t : Task} (h : t.Fits size) (hle : size ≤ size') : t.Fits size' :=
  ⟨h.posting, h.channel, fun n hn => Nat.lt_of_lt_of_le (h.bound n hn) hle, h.positive⟩

/-- A task that has ended keeps at most the buffer of the main stream. -/
theorem Task.Fits.ended {size : Nat} {t u : Task} (h : t.Fits size) (hwork : u.work = t.work) {ending : Ending}
    (hphase : u.phase = .over ending) :
    u.Fits size ∧ ∀ n, u.channel? = some n → t.channel? = some n := by
  have hchan : ∀ n, u.channel? = some n → t.channel? = some n := by
    intro n hn
    rcases Task.channel?_eq_some_iff.mp hn with ⟨⟨stint, hmain⟩, hzero⟩ | ⟨_, hopen | hread⟩
    · exact Task.channel?_eq_some_iff.mpr (Or.inl ⟨⟨stint, hwork ▸ hmain⟩, hzero⟩)
    · exact absurd (hphase.symm.trans hopen) (by simp)
    · exact absurd (hphase.symm.trans hread) (by simp)
  refine ⟨⟨?_, ?_, fun n hn => h.bound n (hchan n hn), fun ha n hn => h.positive (hwork ▸ ha) n (hchan n hn)⟩, hchan⟩
  · intro hpost
    exact absurd (hphase.symm.trans hpost) (by simp)
  · rintro n (hopen | hread)
    · exact absurd (hphase.symm.trans hopen) (by simp)
    · exact absurd (hphase.symm.trans hread) (by simp)

/-! ### Session and ledger -/

/-- The present moment of a core. -/
def Core.stint (c : Core) : Stint := ⟨c.generation, c.epoch⟩

/-- A session agrees with its ledger. -/
structure Linked (limits : Limits) (c : Core) (l : Ledger) : Prop where
  limits_eq : c.intake.limits = limits
  /-- The tree is that of the records. -/
  tree_eq : (processAll limits .empty l.taken).1 = c.intake.tree
  opened : 0 < c.intake.buffers.length
  /-- No task is from the future. -/
  dated : ∀ (i : Nat) (t : Task) (stint : Stint), c.tasks[i]? = some t → t.work.stint? = some stint →
    stint.generation ≤ c.generation ∧ stint.epoch ≤ c.epoch
  fits : ∀ (i : Nat) (t : Task), c.tasks[i]? = some t → t.Fits c.intake.buffers.length
  /-- No two streams of one time share a buffer. -/
  apart : ∀ (i j : Nat) (t u : Task) (n : Nat), c.tasks[i]? = some t → c.tasks[j]? = some u →
    t.work.stint? = u.work.stint? → t.channel? = some n → u.channel? = some n → i = j
  /-- What waits in the buffer of a stream that counts is what its task has not finished. -/
  bytes : ∀ (i : Nat) (t : Task) (n : Nat), c.tasks[i]? = some t → t.work.stint? = some c.stint → t.channel? = some n →
    c.intake.buffer n = l.pending i
  /-- What has not begun to read has received nothing. -/
  unread : ∀ i : Nat, (∀ t : Task, c.tasks[i]? = some t → t.isUnread = true) → l.pending i = []

variable {limits : Limits} {c c' : Core} {l : Ledger} {id : Nat} {t u : Task}

namespace Linked

/-- Nothing from before counts after its time. -/
theorem stint?_ne (h : Linked limits c l) {stint : Stint}
    (hlater : c.generation < stint.generation ∨ c.epoch < stint.epoch) {i : Nat} (ht : c.tasks[i]? = some t) :
    t.work.stint? ≠ some stint := by
  intro hst
  obtain ⟨hgen, hepoch⟩ := h.dated i t stint ht hst
  omega

/-! ### New times -/

/-- Tasks that are asked to stop stay what they are. -/
theorem getElem?_requestCancel (main : Option Nat) (k : Nat) (tasks : List Task) (i : Nat) :
    (requestCancel main k tasks)[i]? = tasks[i]?.map fun t =>
      if (main = some (k + i) || t.work.isAction) && !t.isOver then { t with cancelRequested := true } else t := by
  induction tasks generalizing k i with
  | nil => rfl
  | cons t tasks ih =>
    cases i with
    | zero => rfl
    | succ i =>
      rw [requestCancel, List.getElem?_cons_succ, List.getElem?_cons_succ, ih, show k + 1 + i = k + (i + 1) by omega]

theorem exists_of_requestCancel {main : Option Nat} {tasks : List Task} {i : Nat}
    (hu : (requestCancel main 0 tasks)[i]? = some u) :
    ∃ t, tasks[i]? = some t ∧ u.work = t.work ∧ u.phase = t.phase := by
  rw [getElem?_requestCancel] at hu
  obtain ⟨t, ht, rfl⟩ := Option.map_eq_some_iff.mp hu
  refine ⟨t, ht, ?_⟩
  split
  · exact ⟨rfl, rfl⟩
  · exact ⟨rfl, rfl⟩

end Linked

/-- The core once its epoch has ended. -/
def Core.endEpoch (c : Core) : Core :=
  { c with epoch := c.epoch + 1, mainTask := none, tasks := requestCancel c.mainTask 0 c.tasks }

/-- The core at the beginning of a generation. -/
def Core.beginGeneration (c : Core) : Core := { c with intake := c.intake.reset 0, generation := c.generation + 1 }

/-- The core with one more task. -/
def Core.launch (c : Core) (main : Option Nat) (t : Task) : Core := { c with mainTask := main, tasks := c.tasks ++ [t] }

namespace Linked

theorem endEpoch (h : Linked limits c l) : Linked limits c.endEpoch l where
  limits_eq := h.limits_eq
  tree_eq := h.tree_eq
  opened := h.opened
  dated := by
    intro i u stint hu hst
    obtain ⟨t, ht, hwork, _⟩ := exists_of_requestCancel hu
    obtain ⟨hgen, hepoch⟩ := h.dated i t stint ht (hwork ▸ hst)
    exact ⟨hgen, Nat.le_succ_of_le hepoch⟩
  fits := by
    intro i u hu
    obtain ⟨t, ht, hwork, hphase⟩ := exists_of_requestCancel hu
    exact (h.fits i t ht).of_phase hwork hphase
  apart := by
    intro i j u v n hu hv hst hun hvn
    obtain ⟨t, ht, hwork, hphase⟩ := exists_of_requestCancel hu
    obtain ⟨w, hw, hwork', hphase'⟩ := exists_of_requestCancel hv
    rw [Task.channel?_eq_of_phase hwork hphase] at hun
    rw [Task.channel?_eq_of_phase hwork' hphase'] at hvn
    rw [hwork, hwork'] at hst
    exact h.apart i j t w n ht hw hst hun hvn
  bytes := by
    intro i u n hu hst _
    obtain ⟨t, ht, hwork, _⟩ := exists_of_requestCancel hu
    exact absurd (hwork ▸ hst) (h.stint?_ne (Or.inr (Nat.lt_succ_self _)) ht)
  unread := by
    intro i hi
    refine h.unread i fun t ht => ?_
    have hu : c.endEpoch.tasks[i]? = _ := getElem?_requestCancel c.mainTask 0 c.tasks i
    rw [ht, Option.map_some] at hu
    have hunread := hi _ hu
    rw [Task.isUnread] at hunread ⊢
    split at hunread
    · exact hunread
    · exact hunread

/-- A generation begins without records, and nothing counts yet. -/
theorem beginGeneration (h : Linked limits c l) : Linked limits c.beginGeneration .blank where
  limits_eq := h.limits_eq
  tree_eq := rfl
  opened := h.opened.trans_eq (Intake.length_buffers_reset c.intake 0).symm
  dated := by
    intro i t stint ht hst
    obtain ⟨hgen, hepoch⟩ := h.dated i t stint ht hst
    exact ⟨Nat.le_succ_of_le hgen, hepoch⟩
  fits := fun i t ht => (h.fits i t ht).mono (Nat.le_of_eq (Intake.length_buffers_reset c.intake 0).symm)
  apart := h.apart
  bytes := fun i t n ht hst _ => absurd hst (h.stint?_ne (Or.inl (Nat.lt_succ_self _)) ht)
  unread := fun _ _ => rfl

theorem getElem?_launch {main : Option Nat} {i : Nat} (hu : (c.launch main t).tasks[i]? = some u) :
    c.tasks[i]? = some u ∨ (i = c.tasks.length ∧ u = t) :=
  getElem?_concat_cases hu

/-- A task starts: an action at the present moment, or the one main stream of a moment whose buffer is empty. -/
theorem launch (h : Linked limits c l) (main : Option Nat) (hfresh : t.phase = .fresh)
    (hnow : ∀ stint, t.work.stint? = some stint → stint = c.stint)
    (hmain : t.work.isAction = false →
      c.intake.buffer 0 = [] ∧ ∀ (i : Nat) (u : Task), c.tasks[i]? = some u → u.work.stint? ≠ some c.stint) :
    Linked limits (c.launch main t) l := by
  -- a task that has not run has a buffer only if it is for a main stream
  have hchan : ∀ n, t.channel? = some n → n = 0 ∧ t.work.isAction = false ∧ t.work.stint? = some c.stint := by
    intro n hn
    rcases Task.channel?_eq_some_iff.mp hn with ⟨⟨stint, hw⟩, hzero⟩ | ⟨_, hopen | hread⟩
    · refine ⟨hzero, by rw [hw]; rfl, ?_⟩
      rw [← hnow stint (by rw [hw]; rfl), hw]
      rfl
    · exact absurd (hfresh.symm.trans hopen) (by simp)
    · exact absurd (hfresh.symm.trans hread) (by simp)
  constructor
  · exact h.limits_eq
  · exact h.tree_eq
  · exact h.opened
  · intro i u stint hu hst
    rcases getElem?_launch hu with hold | ⟨_, rfl⟩
    · exact h.dated i u stint hold hst
    · rw [hnow stint hst]
      exact ⟨Nat.le_refl _, Nat.le_refl _⟩
  · intro i u hu
    rcases getElem?_launch hu with hold | ⟨_, rfl⟩
    · exact h.fits i u hold
    · refine ⟨fun hp => absurd (hfresh.symm.trans hp) (by simp), ?_, fun n hn => (hchan n hn).1 ▸ h.opened, ?_⟩
      · rintro n (hp | hp)
        · exact absurd (hfresh.symm.trans hp) (by simp)
        · exact absurd (hfresh.symm.trans hp) (by simp)
      · intro ha n hn
        rw [(hchan n hn).2.1] at ha
        exact absurd ha (by simp)
  · intro i j u v n hu hv hst hun hvn
    rcases getElem?_launch hu with hold | ⟨hi, rfl⟩
    · rcases getElem?_launch hv with hold' | ⟨_, rfl⟩
      · exact h.apart i j u v n hold hold' hst hun hvn
      · obtain ⟨_, ha, hnow'⟩ := hchan n hvn
        exact absurd (hst.trans hnow') ((hmain ha).2 i u hold)
    · rcases getElem?_launch hv with hold' | ⟨hj, _⟩
      · obtain ⟨_, ha, hnow'⟩ := hchan n hun
        exact absurd (hst.symm.trans hnow') ((hmain ha).2 j v hold')
      · rw [hi, hj]
  · intro i u n hu hst hun
    rcases getElem?_launch hu with hold | ⟨rfl, rfl⟩
    · exact h.bytes i u n hold hst hun
    · obtain ⟨rfl, ha, _⟩ := hchan n hun
      have hnone : l.pending c.tasks.length = [] := by
        refine h.unread _ fun v hv => ?_
        rw [List.getElem?_eq_none (Nat.le_refl _)] at hv
        exact absurd hv (by simp)
      rw [hnone]
      exact (hmain ha).1
  · intro i hi
    refine h.unread i fun u hu => hi u ?_
    have hlt : i < c.tasks.length := (List.getElem?_eq_some_iff.mp hu).1
    rw [Core.launch, List.getElem?_append_left hlt]
    exact hu

/-! ### Emptying the tree -/

/-- The tree is emptied, and with it what main streams have not finished. -/
theorem reset (h : Linked limits c l) {lost : Nat → Bool}
    (hlost : ∀ (i : Nat) (t : Task), c.tasks[i]? = some t → lost i = !t.work.isAction) :
    Linked limits (c.withIntake (c.intake.reset 0)) (l.clear lost) where
  limits_eq := h.limits_eq
  tree_eq := rfl
  opened := h.opened.trans_eq (Intake.length_buffers_reset c.intake 0).symm
  dated := h.dated
  fits := fun i t ht => (h.fits i t ht).mono (Nat.le_of_eq (Intake.length_buffers_reset c.intake 0).symm)
  apart := h.apart
  bytes := by
    intro i t n ht hst hn
    show (c.intake.reset 0).buffer n = if lost i = true then [] else l.pending i
    rw [hlost i t ht]
    cases ha : t.work.isAction with
    | true =>
      have hpos : n ≠ 0 := Nat.pos_iff_ne_zero.mp ((h.fits i t ht).positive ha n hn)
      rw [Intake.reset, Intake.buffer_set_of_ne hpos]
      exact h.bytes i t n ht hst hn
    | false =>
      have hzero : n = 0 := by
        rcases Task.channel?_eq_some_iff.mp hn with ⟨_, hzero⟩ | ⟨⟨stint, hw⟩, _⟩
        · exact hzero
        · exact absurd ha (by simp [hw, Work.isAction])
      rw [hzero, Intake.reset, Intake.buffer_set h.opened]
      rfl
  unread := by
    intro i hi
    show (if lost i = true then [] else l.pending i) = []
    rw [h.unread i hi]
    split
    · rfl
    · rfl

/-! ### Steps -/

theorem getElem?_setTask (ht : c.tasks[id]? = some t) {i : Nat} {v : Task} (hv : (c.setTask id u).tasks[i]? = some v) :
    (i = id ∧ v = u) ∨ (i ≠ id ∧ c.tasks[i]? = some v) :=
  getElem?_set_cases ht hv

/-- A task moves on in its buffer, or to one that no other task has and that holds what the task has received. -/
theorem setTask (h : Linked limits c l) (ht : c.tasks[id]? = some t) (hwork : u.work = t.work)
    (hread : u.phase ≠ .fresh) (hfits : u.Fits c.intake.buffers.length)
    (hchan : ∀ n, u.channel? = some n → t.channel? = some n ∨
      (c.intake.buffer n = l.pending id ∧ ∀ (j : Nat) (v : Task), c.tasks[j]? = some v → v.channel? ≠ some n)) :
    Linked limits (c.setTask id u) l where
  limits_eq := h.limits_eq
  tree_eq := h.tree_eq
  opened := h.opened
  dated := by
    intro i v stint hv hst
    rcases getElem?_setTask ht hv with ⟨rfl, rfl⟩ | ⟨_, hold⟩
    · exact h.dated _ t stint ht (hwork ▸ hst)
    · exact h.dated i v stint hold hst
  fits := by
    intro i v hv
    rcases getElem?_setTask ht hv with ⟨_, rfl⟩ | ⟨_, hold⟩
    · exact hfits
    · exact h.fits i v hold
  apart := by
    intro i j v w n hv hw hst hvn hwn
    rcases getElem?_setTask ht hv with ⟨rfl, rfl⟩ | ⟨_, hold⟩
    · rcases getElem?_setTask ht hw with ⟨rfl, rfl⟩ | ⟨_, hold'⟩
      · rfl
      · rcases hchan n hvn with hsame | ⟨_, hnew⟩
        · exact h.apart _ j t w n ht hold' (hwork ▸ hst) hsame hwn
        · exact absurd hwn (hnew j w hold')
    · rcases getElem?_setTask ht hw with ⟨rfl, rfl⟩ | ⟨_, hold'⟩
      · rcases hchan n hwn with hsame | ⟨_, hnew⟩
        · exact h.apart i _ v t n hold ht (hwork ▸ hst) hvn hsame
        · exact absurd hvn (hnew i v hold)
      · exact h.apart i j v w n hold hold' hst hvn hwn
  bytes := by
    intro i v n hv hst hvn
    rcases getElem?_setTask ht hv with ⟨rfl, rfl⟩ | ⟨_, hold⟩
    · rcases hchan n hvn with hsame | ⟨hnew, _⟩
      · exact h.bytes _ t n ht (hwork ▸ hst) hsame
      · exact hnew
    · exact h.bytes i v n hold hst hvn
  unread := by
    intro i hi
    refine h.unread i fun v hv => ?_
    by_cases hid : i = id
    · subst hid
      have hlt : i < c.tasks.length := (List.getElem?_eq_some_iff.mp ht).1
      have hu : (c.setTask i u).tasks[i]? = some u := List.getElem?_set_self hlt
      exact absurd (hi u hu) (by simp [Task.isUnread, hread])
    · exact hi v ((List.getElem?_set_ne fun he => hid he.symm).trans hv)

/-- One more buffer, for nobody yet. -/
theorem fork (h : Linked limits c l) : Linked limits (c.withIntake c.intake.fork) l where
  limits_eq := h.limits_eq
  tree_eq := h.tree_eq
  opened := by
    show 0 < (c.intake.buffers ++ [[]]).length
    rw [List.length_append]
    exact Nat.lt_add_right _ h.opened
  dated := h.dated
  fits := by
    intro i t ht
    show t.Fits (c.intake.buffers ++ [[]]).length
    rw [List.length_append]
    exact (h.fits i t ht).mono (Nat.le_add_right _ _)
  apart := h.apart
  bytes := by
    intro i t n ht hst hn
    exact (Intake.buffer_fork_of_lt ((h.fits i t ht).bound n hn)).trans (h.bytes i t n ht hst hn)
  unread := h.unread

/-- What a stream that counts gains makes the same records of its buffer and of what its task has not finished. -/
theorem enter (h : Linked limits c l) (ht : c.tasks[id]? = some t) (hunread : t.isUnread = false) {n : Nat}
    (hchan : t.channel? = some n) {g : Gain} (hcur : g = .nothing ∨ t.work.stint? = some c.stint) :
    Linked limits (c.withIntake (g.enter c.intake n)) (l.enter id g) := by
  rcases hcur with rfl | hcur
  · exact h
  have hn : n < c.intake.buffers.length := (h.fits id t ht).bound n hchan
  have hbytes : c.intake.buffer n = l.pending id := h.bytes id t n ht hcur hchan
  constructor
  · exact (g.limits_enter _ _).trans h.limits_eq
  · exact Ledger.tree_enter h.tree_eq h.limits_eq hbytes g
  · exact h.opened.trans_eq (g.length_buffers_enter _ _).symm
  · exact h.dated
  · intro i v hv
    exact (h.fits i v hv).mono (Nat.le_of_eq (g.length_buffers_enter _ _).symm)
  · exact h.apart
  · intro i v m hv hst hm
    by_cases hi : i = id
    · subst hi
      obtain rfl := Option.some.inj (ht.symm.trans hv)
      obtain rfl := Option.some.inj (hchan.symm.trans hm)
      exact Ledger.buffer_enter hn hbytes g
    · have hne : m ≠ n := by
        rintro rfl
        exact hi (h.apart i id v t m hv ht (hst.trans hcur.symm) hm hchan)
      rw [Ledger.pending_enter_of_ne l hi g]
      exact (g.buffer_enter_of_ne hne).trans (h.bytes i v m hv hst hm)
  · intro i hi
    have hne : i ≠ id := by
      rintro rfl
      rw [hi t ht] at hunread
      exact absurd hunread (by simp)
    rw [Ledger.pending_enter_of_ne l hne g]
    exact h.unread i hi

/-- **Every step keeps a session and its ledger in agreement.** -/
theorem stepped (h : Linked limits c l) (ht : c.tasks[id]? = some t) {g : Gain} (hs : Stepped c id t g c')
    (hcur : g = .nothing ∨ t.work.stint? = some c.stint) : Linked limits c' (l.enter id g) := by
  have hfit : t.Fits c.intake.buffers.length := h.fits id t ht
  cases hs with
  | idle => exact h
  | ended ending requested =>
    obtain ⟨hu, hchan⟩ := hfit.ended (u := { t with phase := .over ending, cancelRequested := requested }) rfl rfl
    exact h.setTask ht rfl (by simp) hu fun n hn => Or.inl (hchan n hn)
  | beginMain stint hphase hwork =>
    have hchan : t.channel? = some 0 := Task.channel?_eq_some_iff.mpr (Or.inl ⟨⟨stint, hwork⟩, rfl⟩)
    have hchan' : ({ t with phase := .opening 0 } : Task).channel? = some 0 :=
      Task.channel?_eq_some_iff.mpr (Or.inl ⟨⟨stint, hwork⟩, rfl⟩)
    have hfit' : ({ t with phase := .opening 0 } : Task).Fits c.intake.buffers.length :=
      Task.Fits.of_channel (Or.inl rfl) hchan' h.opened fun ha => absurd ha (by simp [hwork, Work.isAction])
    exact h.setTask ht rfl (by simp) hfit' fun n hn => Or.inl (hchan.trans (hchan'.symm.trans hn))
  | beginReply stint hphase hwork =>
    have hchan : ({ t with phase := .opening c.intake.buffers.length } : Task).channel? =
        some c.intake.buffers.length :=
      Task.channel?_eq_some_iff.mpr (Or.inr ⟨⟨stint, hwork⟩, Or.inl rfl⟩)
    have hroom : c.intake.buffers.length < (c.withIntake c.intake.fork).intake.buffers.length := by
      show _ < (c.intake.buffers ++ [[]]).length
      rw [List.length_append]
      exact Nat.lt_succ_self _
    have hunread : l.pending id = [] := by
      refine h.unread id fun v hv => ?_
      obtain rfl := Option.some.inj (ht.symm.trans hv)
      rw [Task.isUnread, hphase, hwork]
      rfl
    refine h.fork.setTask ht rfl (by simp) (Task.Fits.of_channel (Or.inl rfl) hchan hroom fun _ => h.opened) ?_
    intro n hn
    obtain rfl := Option.some.inj (hchan.symm.trans hn)
    -- the new buffer is empty, and lies beyond those of all other tasks
    refine Or.inr ⟨?_, fun j v hv hvn => ?_⟩
    · rw [hunread]
      exact Intake.buffer_fork_new c.intake
    · exact Nat.lt_irrefl _ ((h.fits j v hv).bound _ hvn)
  | beginPost hphase hwork =>
    have hno : ∀ n, ({ t with phase := .posting } : Task).channel? ≠ some n := by
      intro n hn
      rw [Task.channel?, hwork] at hn
      exact absurd hn (by simp)
    have hfit' : ({ t with phase := .posting } : Task).Fits c.intake.buffers.length :=
      ⟨fun _ => hwork, fun n hn => absurd hn (by simp), fun n hn => absurd hn (hno n), fun _ n hn => absurd hn (hno n)⟩
    exact h.setTask ht rfl (by simp) hfit' fun n hn => absurd hn (hno n)
  | stream n g u hphase hwork hnext =>
    have hchan : t.channel? = some n := hfit.channel n hphase
    have hunread : t.isUnread = false := by
      rw [Task.isUnread]
      rcases hphase with hp | hp
      · simp [hp]
      · simp [hp]
    have hentered := h.enter ht hunread hchan hcur
    have hfit' := hentered.fits id t ht
    rcases hnext with hread | ⟨ending, hover⟩
    · have hchan' : u.channel? = some n := by
        rcases Task.channel?_eq_some_iff.mp hchan with ⟨⟨stint, hw⟩, hzero⟩ | ⟨⟨stint, hw⟩, _⟩
        · exact Task.channel?_eq_some_iff.mpr (Or.inl ⟨⟨stint, hwork.trans hw⟩, hzero⟩)
        · exact Task.channel?_eq_some_iff.mpr (Or.inr ⟨⟨stint, hwork.trans hw⟩, Or.inr hread⟩)
      have hu := Task.Fits.of_channel (Or.inr hread) hchan' (hfit'.bound n hchan) fun ha =>
        hfit'.positive (hwork ▸ ha) n hchan
      exact hentered.setTask ht hwork (by simp [hread]) hu fun m hm => Or.inl (hchan.trans (hchan'.symm.trans hm))
    · obtain ⟨hu, hkept⟩ := hfit'.ended hwork hover
      exact hentered.setTask ht hwork (by simp [hover]) hu fun m hm => Or.inl (hkept m hm)

end Linked

end ComponentStream.Session
